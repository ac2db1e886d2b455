import Mathlib.Data.List.Basic
import PuzzleLevel.Proofs.Legend.Grammar

/-!
# Printing Legend Lines

A line that was read can be printed, and the printed line is read as the same line. It need
not be the text that was read, because a text may have blanks where the printed form has
none, but it is one of the spellings of the line. That is all there is to show: the reader
takes every spelling, and a text spells one line at most.

Not every tree has a spelling. Names have to be names and placeholders have to be visible,
at any depth, and no placeholder stands for a whole line. Trees like these are called
printable, and they are exactly the ones that a reader can give.

Printing puts a space behind each comma. In the grammar the blanks in front of an argument
are its own, so an argument that is spelled is still spelled with blanks in front of it.
With that the induction is on the tree, and for a call on its arguments.

## Main definitions

* `Expr.Printable`, `LegendLine.Printable`: What can be printed and read back.
* `LegendLine.printed`: The printed form of a line.

## Theorems

* `listSpelling_charsAll`: Arguments that are printed spell the arguments.
* `Printable.spelled`: The printed form of an expression spells it.
* `printable_of_spelling`: What is spelled can be printed.
* `spelling_printed`: The printed form of a line spells it.
* `readLine_printed`: A printed line is read as the line, and every line that is read can be
  printed.
-/

namespace PuzzleLevel

/-- The blank that is printed behind a comma and behind a colon. -/
theorem isBlankText_space : IsBlankText [' '] := List.all_eq_true.mp (by decide)

/-- Visible characters at both ends keep a text from being trimmed. -/
theorem trim_of_visible {first last : Char} (between : List Char)
    (hfirst : Text.isBlank first = false) (hlast : Text.isBlank last = false) :
    Text.trim (first :: between ++ [last]) = first :: between ++ [last] := by
  have hstart := trimStart_blanks (between ++ [last]) isBlankText_nil hfirst
  have hend := trimStart_blanks (first :: between).reverse isBlankText_nil hlast
  rw [List.nil_append] at hstart hend
  unfold Text.trim Text.trimEnd
  rw [List.cons_append, hstart, ← List.cons_append, List.reverse_append, List.reverse_singleton,
    List.singleton_append, hend, List.reverse_cons, List.reverse_reverse]

namespace Expr

/-- An expression can be printed if its names are names and its placeholders are visible. -/
inductive Printable : Expr → Prop where
  | placeholder (c : Char) (hvisible : Text.isBlank c = false) : Printable (.placeholder c)
  | name (word : String) (hword : IsName word.toList) : Printable (.name word)
  | call (callee : String) (arguments : List Expr) (hword : IsName callee.toList)
      (harguments : ∀ e ∈ arguments, Printable e) : Printable (.call callee arguments)

/-- Blanks in front of an argument belong to it. -/
theorem ArgumentSpelling.blanks {blanks t : List Char} {e : Expr} (h : ArgumentSpelling t e)
    (hblanks : IsBlankText blanks) : ArgumentSpelling (blanks ++ t) e := by
  cases h with
  | placeholder before c hbefore hvisible =>
      rw [← List.append_assoc]
      exact .placeholder (blanks ++ before) c (hblanks.append hbefore) hvisible
  | nested before s e hbefore hs =>
      rw [← List.append_assoc]
      exact .nested (blanks ++ before) s e (hblanks.append hbefore) hs

/-- So do blanks in front of the first of several arguments. -/
theorem ListSpelling.blanks {blanks t : List Char} {es : List Expr} (h : ListSpelling t es)
    (hblanks : IsBlankText blanks) : ListSpelling (blanks ++ t) es := by
  cases h with
  | last s behind e hs hbehind =>
      rw [← List.append_assoc]
      exact .last (blanks ++ s) behind e (hs.blanks hblanks) hbehind
  | more s behind rest e es hs hbehind hrest =>
      rw [← List.append_assoc, ← List.append_assoc]
      exact .more (blanks ++ s) behind rest e es (hs.blanks hblanks) hbehind hrest

/-- Arguments that are printed spell the arguments, if each of them by itself does. -/
theorem listSpelling_charsAll {arguments : List Expr} (hsome : arguments ≠ [])
    (h : ∀ e ∈ arguments, ArgumentSpelling e.chars e) :
    ListSpelling (charsAll arguments) arguments := by
  induction arguments with
  | nil => exact absurd rfl hsome
  | cons e more ih =>
      have hfirst := h e (List.mem_cons_self ..)
      cases more with
      | nil =>
          have hlast := ListSpelling.last e.chars [] e hfirst isBlankText_nil
          rw [List.append_nil] at hlast
          rw [charsAll]
          exact hlast
      | cons next rest =>
          have hrest := ih (List.cons_ne_nil _ _) fun f hf => h f (List.mem_cons_of_mem _ hf)
          -- The space behind the comma goes to the next argument.
          have hmore := ListSpelling.more e.chars [] _ e _ hfirst isBlankText_nil
            (hrest.blanks isBlankText_space)
          rw [List.append_nil, List.singleton_append] at hmore
          rw [charsAll]
          · exact hmore
          · exact List.cons_ne_nil _ _

/-- The printed form of a name spells it. -/
theorem spelling_name {word : String} (hword : IsName word.toList) :
    Spelling (name word).chars (name word) := by
  have h := Spelling.name word.toList hword
  rw [String.ofList_toList] at h
  rw [chars]
  exact h

/-- The printed form of a call spells it, if its arguments do. -/
theorem spelling_call {callee : String} {arguments : List Expr} (hword : IsName callee.toList)
    (h : ∀ e ∈ arguments, ArgumentSpelling e.chars e) :
    Spelling (call callee arguments).chars (call callee arguments) := by
  rw [chars]
  by_cases hnone : arguments = []
  · have hempty := Spelling.callEmpty callee.toList [] [] hword isBlankText_nil isBlankText_nil
    rw [String.ofList_toList, List.append_nil] at hempty
    rw [hnone, charsAll]
    exact hempty
  · have hcall := Spelling.call callee.toList [] (charsAll arguments) arguments hword
      isBlankText_nil (listSpelling_charsAll hnone h)
    rw [String.ofList_toList, List.append_nil] at hcall
    exact hcall

/-- The printed form of an expression spells it, as an argument and, unless it is a
    placeholder, by itself. -/
theorem Printable.spelled {e : Expr} (h : e.Printable) :
    ArgumentSpelling e.chars e ∧ ((∀ c, e ≠ .placeholder c) → Spelling e.chars e) := by
  -- An argument that is no placeholder is spelled by itself, with no blanks in front.
  have hnested : ∀ {e : Expr}, Spelling e.chars e →
      ArgumentSpelling e.chars e ∧ ((∀ c, e ≠ .placeholder c) → Spelling e.chars e) :=
    fun {e} hs => ⟨.nested [] e.chars e isBlankText_nil hs, fun _ => hs⟩
  induction h with
  | placeholder c hvisible =>
      refine ⟨?_, fun hno => absurd rfl (hno c)⟩
      rw [chars]
      exact .placeholder [] c isBlankText_nil hvisible
  | name word hword => exact hnested (spelling_name hword)
  | call callee arguments hword _ ih =>
      exact hnested (spelling_call hword fun e he => (ih e he).1)

mutual

/-- What is spelled can be printed. -/
theorem printable_of_spelling {t : List Char} {e : Expr} : Spelling t e → e.Printable
  | .name word hword => .name _ (by rwa [String.toList_ofList])
  | .callEmpty word gap inside hword _ _ => .call _ [] (by rwa [String.toList_ofList]) nofun
  | .call word gap inside es hword _ hinside =>
      .call _ es (by rwa [String.toList_ofList]) (printable_of_listSpelling hinside)

theorem printable_of_argumentSpelling {t : List Char} {e : Expr} :
    ArgumentSpelling t e → e.Printable
  | .placeholder before c _ hvisible => .placeholder c hvisible
  | .nested before s e _ hs => printable_of_spelling hs

theorem printable_of_listSpelling {t : List Char} {es : List Expr} :
    ListSpelling t es → ∀ e ∈ es, e.Printable
  | .last s behind e hs _, f, hf => by
      rw [List.mem_singleton.mp hf]
      exact printable_of_argumentSpelling hs
  | .more s behind rest e es hs _ hrest, f, hf => by
      rcases List.mem_cons.mp hf with hfirst | hmore
      · rw [hfirst]
        exact printable_of_argumentSpelling hs
      · exact printable_of_listSpelling hrest f hmore

end

/-- No text spells a placeholder by itself. -/
theorem Spelling.ne_placeholder {t : List Char} {e : Expr} (h : Spelling t e) (c : Char) :
    e ≠ .placeholder c := by
  cases h with
  | name word hword => exact nofun
  | callEmpty word gap inside => exact nofun
  | call word gap inside es => exact nofun

/-- What spells an expression ends visibly, with a name or a parenthesis. -/
theorem Spelling.ends {t : List Char} {e : Expr} (h : Spelling t e) :
    ∃ front last, t = front ++ [last] ∧ Text.isBlank last = false := by
  cases h with
  | name word hword =>
      cases hword with
      | intro c rest hstart hpart =>
          refine ⟨_, _, (List.dropLast_concat_getLast (List.cons_ne_nil c rest)).symm, ?_⟩
          refine visible_of_isNamePart ?_
          rcases List.mem_cons.mp (List.getLast_mem (List.cons_ne_nil c rest)) with hfirst | hmore
          · rw [hfirst]
            exact isNamePart_of_isNameStart hstart
          · exact hpart _ hmore
  | callEmpty word gap inside => exact ⟨_, ')', rfl, by decide⟩
  | call word gap inside es => exact ⟨_, ')', rfl, by decide⟩

end Expr

namespace LegendLine

/-- A line can be printed if its symbol is visible and its expression can be printed and is
    no placeholder. -/
structure Printable (line : LegendLine) : Prop where
  symbol : Text.isBlank line.symbol = false
  expr : line.expr.Printable
  root : ∀ c, line.expr ≠ .placeholder c

/-- The printed form of a line: the symbol, a colon and a space, and the expression. -/
def printed (line : LegendLine) : NumberedLine :=
  ⟨line.number, line.symbol :: ':' :: ' ' :: line.expr.text.toList⟩

/-- The printed form of a line spells it. -/
theorem spelling_printed {line : LegendLine} (h : line.Printable) :
    Spelling (Text.trim line.printed.text) line.symbol line.expr := by
  have hexpr := h.expr.spelled.2 h.root
  have hline := Spelling.intro line.symbol [] [' '] line.expr.chars [] line.expr h.symbol
    isBlankText_nil isBlankText_space hexpr isBlankText_nil
  simp only [List.append_nil, List.cons_append, List.nil_append] at hline
  rcases hexpr.ends with ⟨front, last, hchars, hlast⟩
  -- The line starts with its symbol and ends with its expression, so nothing is trimmed.
  have htrim := trim_of_visible (':' :: ' ' :: front) h.symbol hlast
  rw [List.cons_append, List.cons_append, List.cons_append, ← hchars] at htrim
  unfold printed Expr.text
  rw [String.toList_ofList, htrim]
  exact hline

/-- A line that is read can be printed. -/
theorem printable_of_read {source : NumberedLine} {line : LegendLine}
    (h : read source = .ok line) : line.Printable := by
  have hspelling := (read_eq_ok_iff.mp h).2
  rcases line with ⟨symbol, e, number⟩
  generalize Text.trim source.text = trimmed at hspelling
  cases hspelling with
  | intro symbol before inside t behind e hsymbol _ _ hs _ =>
      exact ⟨hsymbol, Expr.printable_of_spelling hs, hs.ne_placeholder⟩

/-- A printed line is read as the line, exactly if it can be printed. -/
theorem read_printed_iff {line : LegendLine} : read line.printed = .ok line ↔ line.Printable := by
  constructor
  · exact printable_of_read
  · intro h
    exact read_eq_ok_iff.mpr ⟨rfl, spelling_printed h⟩

end LegendLine

/-- For any symbol, expression and number, the printed line is read as the line it was made
    of, exactly if the line can be printed. Every line that is read from any text can be
    printed, so that printing it and reading it again changes nothing. -/
theorem readLine_printed :
    (∀ line : LegendLine, Legend.readLine line.printed = .ok line ↔ line.Printable) ∧
      ∀ (source : NumberedLine) (line : LegendLine), Legend.readLine source = .ok line →
        line.Printable ∧ Legend.readLine line.printed = .ok line := by
  refine ⟨fun line => ?_, fun source line h => ?_⟩
  · rw [Legend.readLine_eq_ok_iff]
    exact LegendLine.read_printed_iff
  · rw [Legend.readLine_eq_ok_iff] at h ⊢
    have hprintable := LegendLine.printable_of_read h
    exact ⟨hprintable, LegendLine.read_printed_iff.mpr hprintable⟩

/-- A line that is full of signs of the grammar: the symbol is a colon, and a parenthesis and a
    comma are referred to. -/
def signsLine : LegendLine := ⟨':', .call "T" [.placeholder ')', .call "U" [.placeholder ',']], 3⟩

/-- It is read from a text with other blanks, and then from its printed form. -/
theorem signs_readLine_printed :
    Legend.readLine ⟨3, " : :T( @),U(@, ) ) ".toList⟩ = .ok signsLine ∧
      signsLine.printed.text = ":: T(@), U(@,))".toList ∧
      signsLine.Printable ∧ Legend.readLine signsLine.printed = .ok signsLine :=
  have hread : Legend.readLine ⟨3, " : :T( @),U(@, ) ) ".toList⟩ = .ok signsLine := by
    decide +kernel
  ⟨hread, by decide +kernel, readLine_printed.2 _ _ hread⟩

end PuzzleLevel
