import PuzzleLevel.Compile
import PuzzleLevel.Proofs.Legend.Reader

/-!
# The Reader and the Grammar of Legend Lines

The reader accepts exactly the texts of the grammar, and no text spells two lines.

A reader in the middle of a line sees more than the spelling it is to take, so what
is spelled is read back only in front of certain texts. A name ends only where no
name can go on, and a bare name is read as such only when no parenthesis follows.
What may `Follow` an expression is therefore blanks, and then the end of the text, a
comma, or a parenthesis that closes. That is also all that ever stands behind one in
a line. With it, there is one lemma for each way to put a spelling together, and the
induction is on how it was put together.

That a text spells at most one line is not shown by looking at spellings. The reader
finds every spelling and gives one answer.

## Main definitions

* `Expr.EndsName`, `Expr.Follows`: What may stand behind a name and an expression.
* `Expr.CallRead`, `Expr.ArgumentRead`, `Expr.ArgumentsRead`: What is spelled is read.

## Theorems

* `readName_spelling`: A spelled name is read.
* `readCall_spelling`, `readArgument_spelling`, `readArguments_spelling`: A spelled
  expression is read.
* `read_eq_ok_iff`, `readParts_eq_ok_iff`: The reader accepts what the grammar spells.
* `Spelling.unique`: A text spells at most one line.
* `readLine_grammar`: What becomes of any line, spelled or not.
-/

namespace PuzzleLevel

namespace Expr

/-- No name goes on with this text. -/
def EndsName (rest : List Char) : Prop :=
  ∀ c, rest.head? = some c → isNamePart c = false

theorem takeWhile_append_ends {name rest : List Char} (hname : ∀ d ∈ name, isNamePart d = true)
    (hrest : EndsName rest) :
    (name ++ rest).takeWhile isNamePart = name ∧ (name ++ rest).dropWhile isNamePart = rest := by
  rw [List.takeWhile_append_of_pos hname, List.dropWhile_append_of_pos hname]
  cases rest with
  | nil => exact ⟨List.append_nil _, rfl⟩
  | cons c more =>
      have hc : ¬ isNamePart c = true := by
        rw [hrest c rfl]
        exact Bool.false_ne_true
      rw [List.takeWhile_cons_of_neg hc, List.dropWhile_cons_of_neg hc, List.append_nil]
      exact ⟨rfl, rfl⟩

theorem readName_spelling {before name rest : List Char} (hbefore : IsBlankText before)
    (hname : IsName name) (hrest : EndsName rest) :
    ∃ h, readName (before ++ (name ++ rest)) = .ok (String.ofList name, ⟨rest, h⟩) := by
  cases hname with
  | intro c tail hstart hpart =>
      rcases Text.next?_spaces (tail ++ rest) hbefore
        (visible_of_isNamePart (isNamePart_of_isNameStart hstart)) with ⟨h, hnext⟩
      rcases takeWhile_append_ends hpart hrest with ⟨htake, hdrop⟩
      rw [List.cons_append]
      refine ⟨by simp only [List.length_append, List.length_cons]; omega, ?_⟩
      unfold readName Text.nextVisible?
      rw [hnext]
      simp only [hstart, if_true, htake, hdrop]

/-- What may stand behind an expression: blanks, and then nothing, a comma or a
    parenthesis that closes. -/
def Follows (rest : List Char) : Prop :=
  ∃ blanks tail, IsBlankText blanks ∧ rest = blanks ++ tail ∧
    ∀ c, tail.head? = some c → c = ',' ∨ c = ')'

theorem follows_blanks {blanks : List Char} (h : IsBlankText blanks) : Follows blanks :=
  ⟨blanks, [], h, (List.append_nil _).symm, nofun⟩

theorem follows_cons {blanks : List Char} {c : Char} (rest : List Char) (h : IsBlankText blanks)
    (hc : c = ',' ∨ c = ')') : Follows (blanks ++ c :: rest) := by
  refine ⟨blanks, c :: rest, h, rfl, fun d hd => ?_⟩
  rw [List.head?_cons, Option.some.injEq] at hd
  rwa [← hd]

/-- Where a blank or a character of no name stands, a name ends. -/
theorem endsName_append {blanks rest : List Char} (hblanks : IsBlankText blanks)
    (hrest : EndsName rest) : EndsName (blanks ++ rest) := by
  cases blanks with
  | nil => exact hrest
  | cons c more =>
      intro d hd
      rw [List.cons_append, List.head?_cons, Option.some.injEq] at hd
      rw [Bool.eq_false_iff, ← hd]
      intro hpart
      have hblank := hblanks c (List.mem_cons_self ..)
      rw [visible_of_isNamePart hpart] at hblank
      exact Bool.false_ne_true hblank

theorem endsName_cons {c : Char} (rest : List Char) (hc : isNamePart c = false) :
    EndsName (c :: rest) := by
  intro d hd
  rw [List.head?_cons, Option.some.injEq] at hd
  rwa [← hd]

theorem endsName_of_follows {rest : List Char} (h : Follows rest) : EndsName rest := by
  rcases h with ⟨blanks, tail, hblanks, rfl, htail⟩
  refine endsName_append hblanks fun c hc => ?_
  rcases htail c hc with rfl | rfl
  · decide
  · decide

/-- No parenthesis that opens follows an expression. -/
theorem next_ne_open_of_follows {rest inner : List Char} {h₁ : inner.length < rest.length}
    (h : Follows rest) : Text.nextVisible? rest ≠ some ('(', ⟨inner, h₁⟩) := by
  intro hopen
  rcases h with ⟨blanks, tail, hblanks, rfl, htail⟩
  cases tail with
  | nil =>
      have hnone : Text.nextVisible? (blanks ++ []) = none :=
        (Text.next?_eq_none_iff _ _).mpr (hblanks.append isBlankText_nil)
      rw [hnone] at hopen
      exact absurd hopen (by simp only [reduceCtorEq, not_false_eq_true])
  | cons c more =>
      have hc := htail c rfl
      have hvisible : Text.isBlank c = false := by
        rcases hc with rfl | rfl
        · decide
        · decide
      rcases Text.next?_spaces more hblanks hvisible with ⟨h, hnext⟩
      rw [Text.nextVisible?, hnext, Option.some.injEq, Prod.mk.injEq] at hopen
      rcases hc with rfl | rfl
      · exact absurd hopen.1 (by decide)
      · exact absurd hopen.1 (by decide)

theorem readCall_name {s rest : List Char} {callee : String} {h : rest.length < s.length}
    (hname : readName s = .ok (callee, ⟨rest, h⟩)) (hrest : Follows rest) :
    readCall s = .ok (.name callee, ⟨rest, h⟩) := by
  rw [readCall, hname]
  simp only []
  split
  · rename_i inner h₁ hopen
    exact absurd hopen (next_ne_open_of_follows hrest)
  · rfl

theorem readCall_empty {s rest inner after : List Char} {callee : String}
    {h : rest.length < s.length} {h₁ : inner.length < rest.length}
    {h₂ : after.length < inner.length} (hname : readName s = .ok (callee, ⟨rest, h⟩))
    (hopen : Text.nextVisible? rest = some ('(', ⟨inner, h₁⟩))
    (hclose : Text.nextVisible? inner = some (')', ⟨after, h₂⟩)) :
    readCall s = .ok (.call callee [], ⟨after, by omega⟩) := by
  rw [readCall, hname]
  simp only [hopen, hclose]

theorem readCall_arguments {s rest inner after tail : List Char} {callee : String} {c : Char}
    {es : List Expr} {h : rest.length < s.length} {h₁ : inner.length < rest.length}
    {h₂ : after.length < inner.length} {h₃ : tail.length < inner.length}
    (hname : readName s = .ok (callee, ⟨rest, h⟩))
    (hopen : Text.nextVisible? rest = some ('(', ⟨inner, h₁⟩))
    (hfirst : Text.nextVisible? inner = some (c, ⟨tail, h₃⟩)) (hc : c ≠ ')')
    (hread : readArguments callee inner = .ok (es, ⟨after, h₂⟩)) :
    readCall s = .ok (.call callee es, ⟨after, by omega⟩) := by
  rw [readCall, hname]
  simp only [hopen, hfirst, hread]
  split
  · rename_i hclose
    exact absurd (Prod.mk.inj (Option.some.inj hclose)).1 hc
  · rfl

theorem readArgument_placeholder {s rest : List Char} {c : Char}
    {h : (c :: rest).length < s.length}
    (hsign : Text.nextVisible? s = some ('@', ⟨c :: rest, h⟩)) (hc : Text.isBlank c = false) :
    readArgument s = .ok (.placeholder c, ⟨rest, Nat.lt_trans (Nat.lt_succ_self _) h⟩) := by
  rw [readArgument, hsign]
  simp only [hc, Bool.false_eq_true, if_false]

theorem readArgument_nested {s rest : List Char} {c : Char} {h : rest.length < s.length}
    (hfirst : Text.nextVisible? s = some (c, ⟨rest, h⟩)) (hc : c ≠ '@') :
    readArgument s = readCall s := by
  rw [readArgument, hfirst]
  split
  · rename_i hsign
    exact absurd (Prod.mk.inj (Option.some.inj hsign)).1 hc
  · rename_i hsign
    exact absurd (Prod.mk.inj (Option.some.inj hsign)).1 hc
  · rfl

theorem readArguments_last {s rest after : List Char} {callee : String} {e : Expr}
    {h : rest.length < s.length} {h₁ : after.length < rest.length}
    (hread : readArgument s = .ok (e, ⟨rest, h⟩))
    (hclose : Text.nextVisible? rest = some (')', ⟨after, h₁⟩)) :
    readArguments callee s = .ok ([e], ⟨after, by omega⟩) := by
  rw [readArguments, hread]
  simp only [hclose]

theorem readArguments_more {s rest next after : List Char} {callee : String} {e : Expr}
    {es : List Expr} {h : rest.length < s.length} {h₁ : next.length < rest.length}
    {h₂ : after.length < next.length} (hread : readArgument s = .ok (e, ⟨rest, h⟩))
    (hcomma : Text.nextVisible? rest = some (',', ⟨next, h₁⟩))
    (hmore : readArguments callee next = .ok (es, ⟨after, h₂⟩)) :
    readArguments callee s = .ok (e :: es, ⟨after, by omega⟩) := by
  rw [readArguments, hread]
  simp only [hcomma, hmore]

/-- A spelled call is read behind blanks, in front of what may follow it. -/
def CallRead (t : List Char) (e : Expr) : Prop :=
  ∀ before rest, IsBlankText before → Follows rest →
    ∃ h, readCall (before ++ (t ++ rest)) = .ok (e, ⟨rest, h⟩)

/-- A spelled argument is read in front of what may follow it. -/
def ArgumentRead (t : List Char) (e : Expr) : Prop :=
  ∀ rest, Follows rest → ∃ h, readArgument (t ++ rest) = .ok (e, ⟨rest, h⟩)

/-- Spelled arguments are read in front of a parenthesis that closes. -/
def ArgumentsRead (t : List Char) (es : List Expr) : Prop :=
  ∀ callee rest, ∃ h, readArguments callee (t ++ ')' :: rest) = .ok (es, ⟨rest, h⟩)

theorem IsName.first {word : List Char} (h : IsName word) :
    ∃ c tail, word = c :: tail ∧ isNameStart c = true := by
  cases h with
  | intro c tail hstart _ => exact ⟨c, tail, rfl, hstart⟩

/-- An expression that is no placeholder starts with its name. -/
theorem Spelling.first {t : List Char} {e : Expr} (h : Spelling t e) :
    ∃ c tail, t = c :: tail ∧ isNameStart c = true := by
  cases h with
  | name word hword => exact IsName.first hword
  | callEmpty word gap inside hword =>
      rcases IsName.first hword with ⟨c, tail, rfl, hstart⟩
      exact ⟨c, _, rfl, hstart⟩
  | call word gap inside es hword =>
      rcases IsName.first hword with ⟨c, tail, rfl, hstart⟩
      exact ⟨c, _, rfl, hstart⟩

/-- Arguments start visibly, and not with a parenthesis. -/
theorem ArgumentSpelling.first {t : List Char} {e : Expr} (h : ArgumentSpelling t e) :
    ∃ before c tail, IsBlankText before ∧ t = before ++ c :: tail ∧ Text.isBlank c = false ∧
      c ≠ ')' := by
  cases h with
  | placeholder before c hbefore _ => exact ⟨before, '@', [c], hbefore, rfl, by decide, by decide⟩
  | nested before s _ hbefore hs =>
      rcases hs.first with ⟨c, tail, rfl, hstart⟩
      refine ⟨before, c, tail, hbefore, rfl,
        visible_of_isNamePart (isNamePart_of_isNameStart hstart), ?_⟩
      rintro rfl
      exact absurd hstart (by decide)

theorem ListSpelling.first {t : List Char} {es : List Expr} (h : ListSpelling t es) :
    ∃ before c tail, IsBlankText before ∧ t = before ++ c :: tail ∧ Text.isBlank c = false ∧
      c ≠ ')' := by
  cases h with
  | last s behind e hs =>
      rcases hs.first with ⟨before, c, tail, hbefore, rfl, hc⟩
      exact ⟨before, c, _, hbefore, List.append_assoc .., hc⟩
  | more s behind rest e more hs =>
      rcases hs.first with ⟨before, c, tail, hbefore, rfl, hc⟩
      refine ⟨before, c, tail ++ (behind ++ ',' :: rest), hbefore, ?_, hc⟩
      rw [List.append_assoc, List.append_assoc, List.cons_append]

theorem callRead_name {word : List Char} (hword : IsName word) :
    CallRead word (.name (String.ofList word)) := by
  intro before rest hbefore hrest
  rcases readName_spelling hbefore hword (endsName_of_follows hrest) with ⟨h, hname⟩
  exact ⟨h, readCall_name hname hrest⟩

theorem call_append (word gap inside rest : List Char) :
    word ++ gap ++ '(' :: inside ++ [')'] ++ rest =
      word ++ (gap ++ '(' :: (inside ++ ')' :: rest)) := by
  simp only [List.append_assoc, List.cons_append, List.nil_append]

/-- A name in front of its parenthesis is read, and so is the parenthesis. -/
theorem readName_open {before word gap : List Char} (inner : List Char)
    (hbefore : IsBlankText before) (hword : IsName word) (hgap : IsBlankText gap) :
    ∃ h h₁, readName (before ++ (word ++ (gap ++ '(' :: inner))) =
        .ok (String.ofList word, ⟨gap ++ '(' :: inner, h⟩) ∧
      Text.nextVisible? (gap ++ '(' :: inner) = some ('(', ⟨inner, h₁⟩) := by
  have hopens : EndsName ('(' :: inner) := endsName_cons inner (by decide)
  rcases readName_spelling hbefore hword (endsName_append hgap hopens) with ⟨h, hname⟩
  rcases Text.next?_spaces inner hgap (show Text.isBlank '(' = false by decide) with ⟨h₁, hopen⟩
  exact ⟨h, h₁, hname, hopen⟩

theorem callRead_empty {word gap inside : List Char} (hword : IsName word)
    (hgap : IsBlankText gap) (hinside : IsBlankText inside) :
    CallRead (word ++ gap ++ '(' :: inside ++ [')']) (.call (String.ofList word) []) := by
  intro before rest hbefore _
  rcases readName_open (inside ++ ')' :: rest) hbefore hword hgap with ⟨h, h₁, hname, hopen⟩
  rcases Text.next?_spaces rest hinside (show Text.isBlank ')' = false by decide) with
    ⟨h₂, hclose⟩
  rw [call_append]
  exact ⟨_, readCall_empty hname hopen hclose⟩

theorem callRead_arguments {word gap inside : List Char} {es : List Expr} (hword : IsName word)
    (hgap : IsBlankText gap) (hinside : ListSpelling inside es)
    (hread : ArgumentsRead inside es) :
    CallRead (word ++ gap ++ '(' :: inside ++ [')']) (.call (String.ofList word) es) := by
  intro before rest hbefore _
  rcases readName_open (inside ++ ')' :: rest) hbefore hword hgap with ⟨h, h₁, hname, hopen⟩
  rcases hread (String.ofList word) rest with ⟨h₂, harguments⟩
  -- The arguments are not taken for none, because they start with no parenthesis.
  rcases hinside.first with ⟨blanks, c, tail, hblanks, hsplit, hvisible, hc⟩
  have hfirst := Text.next?_spaces (tail ++ ')' :: rest) hblanks hvisible
  rw [← List.cons_append, ← List.append_assoc, ← hsplit] at hfirst
  rcases hfirst with ⟨h₃, hfirst⟩
  rw [call_append]
  exact ⟨_, readCall_arguments hname hopen hfirst hc harguments⟩

theorem argumentRead_placeholder {before : List Char} {c : Char} (hbefore : IsBlankText before)
    (hvisible : Text.isBlank c = false) :
    ArgumentRead (before ++ ['@', c]) (.placeholder c) := by
  intro rest _
  rcases Text.next?_spaces (c :: rest) hbefore (show Text.isBlank '@' = false by decide) with
    ⟨h, hsign⟩
  rw [List.append_assoc]
  exact ⟨_, readArgument_placeholder hsign hvisible⟩

theorem argumentRead_nested {before s : List Char} {e : Expr} (hbefore : IsBlankText before)
    (hs : Spelling s e) (hread : CallRead s e) : ArgumentRead (before ++ s) e := by
  intro rest hrest
  rcases hs.first with ⟨c, tail, rfl, hstart⟩
  have hvisible := visible_of_isNamePart (isNamePart_of_isNameStart hstart)
  have hsign : c ≠ '@' := by
    rintro rfl
    exact absurd hstart (by decide)
  rcases Text.next?_spaces (tail ++ rest) hbefore hvisible with ⟨h, hfirst⟩
  rw [List.append_assoc, List.cons_append, readArgument_nested hfirst hsign]
  exact hread before rest hbefore hrest

theorem argumentsRead_last {s behind : List Char} {e : Expr} (hread : ArgumentRead s e)
    (hbehind : IsBlankText behind) : ArgumentsRead (s ++ behind) [e] := by
  intro callee rest
  rcases hread _ (follows_cons rest hbehind (Or.inr rfl)) with ⟨h, hargument⟩
  rcases Text.next?_spaces rest hbehind (show Text.isBlank ')' = false by decide) with
    ⟨h₁, hclose⟩
  rw [List.append_assoc]
  exact ⟨_, readArguments_last hargument hclose⟩

theorem argumentsRead_more {s behind more : List Char} {e : Expr} {es : List Expr}
    (hread : ArgumentRead s e) (hbehind : IsBlankText behind) (hmore : ArgumentsRead more es) :
    ArgumentsRead (s ++ behind ++ ',' :: more) (e :: es) := by
  intro callee rest
  rcases hmore callee rest with ⟨h₂, hnext⟩
  rcases hread _ (follows_cons (more ++ ')' :: rest) hbehind (Or.inl rfl)) with ⟨h, hargument⟩
  rcases Text.next?_spaces (more ++ ')' :: rest) hbehind
    (show Text.isBlank ',' = false by decide) with ⟨h₁, hcomma⟩
  rw [List.append_assoc, List.append_assoc, List.cons_append]
  exact ⟨_, readArguments_more hargument hcomma hnext⟩

mutual

theorem readCall_spelling {t : List Char} {e : Expr} : Spelling t e → CallRead t e
  | .name word hword => callRead_name hword
  | .callEmpty word gap inside hword hgap hinside => callRead_empty hword hgap hinside
  | .call word gap inside es hword hgap hinside =>
      callRead_arguments hword hgap hinside (readArguments_spelling hinside)

theorem readArgument_spelling {t : List Char} {e : Expr} : ArgumentSpelling t e → ArgumentRead t e
  | .placeholder before c hbefore hvisible => argumentRead_placeholder hbefore hvisible
  | .nested before s e hbefore hs => argumentRead_nested hbefore hs (readCall_spelling hs)

theorem readArguments_spelling {t : List Char} {es : List Expr} :
    ListSpelling t es → ArgumentsRead t es
  | .last s behind e hs hbehind => argumentsRead_last (readArgument_spelling hs) hbehind
  | .more s behind rest e es hs hbehind hrest =>
      argumentsRead_more (readArgument_spelling hs) hbehind (readArguments_spelling hrest)

end

/-- The reader of expressions accepts what the grammar spells, with blanks around it. -/
theorem read_eq_ok_iff {s : List Char} {e : Expr} :
    read s = .ok e ↔ ∃ before t behind, IsBlankText before ∧ Spelling t e ∧
      IsBlankText behind ∧ s = before ++ (t ++ behind) := by
  constructor
  · fun_cases read s with
    | case1 hnone => exact nofun
    | case2 first hfirst fault hcall => exact nofun
    | case3 first hfirst found rest hlength hcall hend =>
        intro he
        rw [Except.ok.injEq] at he
        rcases (readers_sound s).1 found rest hlength hcall with ⟨before, t, hbefore, ht, hs⟩
        exact ⟨before, t, rest, hbefore, he ▸ ht, (Text.next?_eq_none_iff _ _).mp hend, hs⟩
    | case4 first hfirst found rest hlength hcall c after hend => exact nofun
  · rintro ⟨before, t, behind, hbefore, ht, hbehind, rfl⟩
    have hcall := readCall_spelling ht before behind hbefore (follows_blanks hbehind)
    have hend : Text.nextVisible? behind = none := (Text.next?_eq_none_iff _ _).mpr hbehind
    rcases ht.first with ⟨c, tail, rfl, hstart⟩
    rcases Text.next?_spaces (tail ++ behind) hbefore
      (visible_of_isNamePart (isNamePart_of_isNameStart hstart)) with ⟨h₁, hfirst⟩
    rw [List.cons_append] at hcall ⊢
    rcases hcall with ⟨h, hcall⟩
    unfold read
    rw [Text.nextVisible?, hfirst]
    simp only [hcall, hend]

end Expr

namespace LegendLine

/-- The reader of lines accepts what the grammar spells, once it is trimmed. -/
theorem readParts_eq_ok_iff {s : List Char} {symbol : Char} {e : Expr} :
    readParts s = .ok (symbol, e) ↔ Spelling (Text.trim s) symbol e := by
  constructor
  · fun_cases readParts s with
    | case1 htrim => exact nofun
    | case2 found rest htrim body hrest =>
        intro he
        cases hread : Expr.read body with
        | error fault =>
            rw [hread] at he
            exact absurd he (by simp only [Except.map, reduceCtorEq, not_false_eq_true])
        | ok expr =>
            rw [hread, Except.map, Except.ok.injEq, Prod.mk.injEq] at he
            rcases he with ⟨rfl, rfl⟩
            rcases Expr.read_eq_ok_iff.mp hread with
              ⟨inside, t, behind, hinside, ht, hbehind, hbody⟩
            rcases trimStart_split rest with ⟨before, hbefore, hsplit⟩
            -- The blanks before the sign and inside it are the ones the reader skipped.
            rw [htrim, hsplit, hrest, hbody]
            have hspelling := Spelling.intro found before inside t behind expr
              (visible_of_trim htrim) hbefore hinside ht hbehind
            simp only [List.append_assoc, List.cons_append] at hspelling
            exact hspelling
    | case3 found rest htrim hrest => exact nofun
  · intro h
    generalize htrim : Text.trim s = trimmed at h
    cases h with
    | intro symbol before inside t behind e hsymbol hbefore hinside ht hbehind =>
        have hread : Expr.read (inside ++ (t ++ behind)) = .ok e :=
          Expr.read_eq_ok_iff.mpr ⟨inside, t, behind, hinside, ht, hbehind, rfl⟩
        have hrest := trimStart_blanks (inside ++ (t ++ behind)) hbefore
          (show Text.isBlank ':' = false by decide)
        simp only [List.append_assoc, List.cons_append] at htrim
        unfold readParts
        rw [htrim]
        simp only [hrest, hread, Except.map]

/-- A text spells at most one line. -/
theorem Spelling.unique {s : List Char} {a b : Char} {e f : Expr}
    (ha : Spelling (Text.trim s) a e) (hb : Spelling (Text.trim s) b f) : a = b ∧ e = f := by
  rw [← readParts_eq_ok_iff] at ha hb
  rw [ha, Except.ok.injEq, Prod.mk.injEq] at hb
  exact hb

/-- A line is read with its number and what it spells. -/
theorem read_eq_ok_iff {line : NumberedLine} {parsed : LegendLine} :
    read line = .ok parsed ↔
      parsed.number = line.number ∧ Spelling (Text.trim line.text) parsed.symbol parsed.expr := by
  rw [← readParts_eq_ok_iff]
  unfold read
  cases hparts : readParts line.text with
  | error fault => simp only [Except.map, reduceCtorEq, and_false]
  | ok parts =>
      rcases parts with ⟨symbol, e⟩
      rcases parsed with ⟨symbol', e', number⟩
      simp only [Except.map, Except.ok.injEq, LegendLine.mk.injEq, Prod.mk.injEq]
      constructor
      · rintro ⟨rfl, rfl, rfl⟩
        exact ⟨rfl, rfl, rfl⟩
      · rintro ⟨rfl, rfl, rfl⟩
        exact ⟨rfl, rfl, rfl⟩

end LegendLine

theorem Legend.readLine_eq_ok_iff {line : NumberedLine} {parsed : LegendLine} :
    readLine line = .ok parsed ↔ LegendLine.read line = .ok parsed := by
  unfold readLine
  cases LegendLine.read line with
  | error fault => simp only [reduceCtorEq]
  | ok found => simp only [Except.ok.injEq]

/-- A line is read exactly if its text, without the blanks around it, is spelled by
    the grammar; then it is read as what it spells, of which there is one. Any other
    text is a fault of form, reported with the number of the line. -/
theorem readLine_grammar (number : Nat) (text : List Char) :
    (∀ line, Legend.readLine ⟨number, text⟩ = .ok line ↔
        line.number = number ∧
          LegendLine.Spelling (Text.trim text) line.symbol line.expr) ∧
      (∀ a b e f, LegendLine.Spelling (Text.trim text) a e →
        LegendLine.Spelling (Text.trim text) b f → a = b ∧ e = f) ∧
      ((¬ ∃ symbol e, LegendLine.Spelling (Text.trim text) symbol e) →
        ∃ fault, Legend.readLine ⟨number, text⟩ = .error (.line number fault) ∧
          (CompileError.legend (.line number fault)).kind = "format") := by
  refine ⟨fun line => ?_, fun a b e f => LegendLine.Spelling.unique, fun hnone => ?_⟩
  · rw [Legend.readLine_eq_ok_iff, LegendLine.read_eq_ok_iff]
  · unfold Legend.readLine
    cases hread : LegendLine.read ⟨number, text⟩ with
    | error fault => exact ⟨fault, rfl, rfl⟩
    | ok parsed =>
        exact absurd ⟨parsed.symbol, parsed.expr, (LegendLine.read_eq_ok_iff.mp hread).2⟩ hnone

-- A comma and a parenthesis that closes can be the targets of placeholders.
example : (LegendLine.readParts "T : Warp( @, , @) )".toList).toOption =
    some ('T', .call "Warp" [.placeholder ',', .placeholder ')']) := by decide +kernel

end PuzzleLevel
