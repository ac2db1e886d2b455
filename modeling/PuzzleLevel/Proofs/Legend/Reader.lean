import PuzzleLevel.Legend.Grammar
import PuzzleLevel.Legend.Line

/-!
# What the Reader of Legend Lines Takes

The reader of legend lines goes from left to right and looks one character ahead.
The grammar says which texts spell which expression and knows of no reader. This
module shows that what the reader takes is always a spelling of what it makes of
it; the other direction is in `PuzzleLevel.Proofs.Legend.Grammar`.

There is one lemma for each reader, which takes the readers it calls to be right.
`readers_sound` ties them together by induction on the length of the text, because
what a reader hands on is shorter than what it was given.

## Main definitions

* `Expr.CallSound`, `Expr.ArgumentSound`, `Expr.ArgumentsSound`: What a reader takes
  spells what it makes of it.

## Theorems

* `visible_of_isNamePart`: Nothing that a name is made of is blank.
* `visible_of_trim`: A trimmed text starts visibly.
* `readName_split`: A name is read from its spelling.
* `readers_sound`: What is read was spelled.
-/

namespace PuzzleLevel

theorem isBlankText_nil : IsBlankText [] := fun _ h => absurd h List.not_mem_nil

theorem IsBlankText.append {s t : List Char} (hs : IsBlankText s) (ht : IsBlankText t) :
    IsBlankText (s ++ t) := by
  intro c hc
  rcases List.mem_append.mp hc with hc | hc
  · exact hs c hc
  · exact ht c hc

theorem isBlank_bounds {c : Char} (h : Text.isBlank c = true) : c.toNat ≤ 32 ∨ 133 ≤ c.toNat := by
  simp only [Text.isBlank, Text.blankRanges, List.any_cons, List.any_nil, Bool.or_eq_true,
    Bool.and_eq_true, decide_eq_true_eq, Bool.or_false] at h
  omega

theorem isNamePart_bounds {c : Char} (h : Expr.isNamePart c = true) :
    48 ≤ c.toNat ∧ c.toNat ≤ 122 := by
  unfold Expr.isNamePart at h
  delta Char.isAlphanum Char.isAlpha Char.isUpper Char.isLower Char.isDigit at h
  simp only [Bool.or_eq_true, Bool.and_eq_true, decide_eq_true_eq, ge_iff_le,
    UInt32.le_iff_toNat_le] at h
  change (((65 ≤ c.toNat ∧ c.toNat ≤ 90) ∨ (97 ≤ c.toNat ∧ c.toNat ≤ 122)) ∨
    (48 ≤ c.toNat ∧ c.toNat ≤ 57)) ∨ c = '_' at h
  rcases h with h | rfl
  · omega
  · decide

theorem visible_of_isNamePart {c : Char} (h : Expr.isNamePart c = true) :
    Text.isBlank c = false := by
  rw [Bool.eq_false_iff]
  intro hblank
  have hlow := isNamePart_bounds h
  have hhigh := isBlank_bounds hblank
  omega

theorem isNamePart_of_isNameStart {c : Char} (h : Expr.isNameStart c = true) :
    Expr.isNamePart c = true := by
  simp only [Expr.isNameStart, Expr.isNamePart, Char.isAlphanum, Bool.or_eq_true] at h ⊢
  rcases h with h | h
  · exact Or.inl (Or.inl h)
  · exact Or.inr h

/-- Blanks in front of something visible are all that is skipped. -/
theorem trimStart_blanks {before : List Char} {c : Char} (rest : List Char)
    (hbefore : IsBlankText before) (hc : Text.isBlank c = false) :
    Text.trimStart (before ++ c :: rest) = c :: rest := by
  unfold Text.trimStart Text.skip
  rw [List.dropWhile_append_of_pos hbefore,
    List.dropWhile_cons_of_neg (by rw [hc]; exact Bool.false_ne_true)]

theorem trimStart_split (s : List Char) :
    ∃ before, IsBlankText before ∧ s = before ++ Text.trimStart s :=
  ⟨s.takeWhile Text.isBlank, List.all_eq_true.mp List.all_takeWhile,
    List.takeWhile_append_dropWhile.symm⟩

/-- What is left of a text that is trimmed starts visibly. -/
theorem visible_of_trim {s rest : List Char} {c : Char} (h : Text.trim s = c :: rest) :
    Text.isBlank c = false := by
  have hprefix : Text.trim s <+: Text.trimStart s := by
    unfold Text.trim Text.trimEnd
    rw [← List.reverse_suffix, List.reverse_reverse]
    exact List.dropWhile_suffix _
  have hhead : (Text.trimStart s).head? = some c := by
    rcases hprefix with ⟨behind, hbehind⟩
    rw [← hbehind, h]
    rfl
  have hvisible := List.head?_dropWhile_not Text.isBlank s
  unfold Text.trimStart Text.skip at hhead
  rw [hhead] at hvisible
  exact hvisible

namespace Expr

theorem readName_split {s rest : List Char} {word : String} {hlength : rest.length < s.length}
    (h : readName s = .ok (word, ⟨rest, hlength⟩)) :
    ∃ before name, IsBlankText before ∧ IsName name ∧ word = String.ofList name ∧
      s = before ++ (name ++ rest) := by
  revert h
  fun_cases readName s with
  | case1 hnone => exact nofun
  | case2 c tail htail hnext hstart =>
      intro h
      rw [Except.ok.injEq, Prod.mk.injEq, Subtype.mk.injEq] at h
      rcases Text.next?_split hnext with ⟨before, hbefore, _, hsplit⟩
      refine ⟨before, c :: tail.takeWhile isNamePart, hbefore,
        .intro _ _ hstart fun d hd => ?_, h.1.symm, ?_⟩
      · exact (List.all_eq_true.mp List.all_takeWhile) d hd
      · rw [← h.2, List.cons_append, List.takeWhile_append_dropWhile]
        exact hsplit
  | case3 c tail htail hnext hstart => exact nofun

/-- What a call is read from spells it, behind blanks. -/
def CallSound (s : List Char) : Prop :=
  ∀ e rest h, readCall s = .ok (e, ⟨rest, h⟩) →
    ∃ before t, IsBlankText before ∧ Spelling t e ∧ s = before ++ (t ++ rest)

/-- What an argument is read from spells it. -/
def ArgumentSound (s : List Char) : Prop :=
  ∀ e rest h, readArgument s = .ok (e, ⟨rest, h⟩) → ∃ t, ArgumentSpelling t e ∧ s = t ++ rest

/-- What the arguments of a call are read from spells them, up to a parenthesis. -/
def ArgumentsSound (callee : String) (s : List Char) : Prop :=
  ∀ es rest h, readArguments callee s = .ok (es, ⟨rest, h⟩) →
    ∃ t, ListSpelling t es ∧ s = t ++ ')' :: rest

theorem callSound_of_arguments {s : List Char}
    (harguments : ∀ callee inner, inner.length < s.length → ArgumentsSound callee inner) :
    CallSound s := by
  intro e rest hrest
  -- A call ends behind empty parentheses, behind its arguments, or behind a mere name.
  fun_cases readCall s with
  | case1 fault hname => exact nofun
  | case2 callee afterName h hname inner h₁ hopen after h₂ hclose =>
      intro he
      rw [Except.ok.injEq, Prod.mk.injEq, Subtype.mk.injEq] at he
      rcases he with ⟨rfl, rfl⟩
      rcases readName_split hname with ⟨before, name, hbefore, hword, rfl, hs⟩
      rcases Text.next?_split hopen with ⟨gap, hgap, _, hafterName⟩
      rcases Text.next?_split hclose with ⟨inside, hinside, _, hinner⟩
      refine ⟨before, _, hbefore, .callEmpty name gap inside hword hgap hinside, ?_⟩
      rw [hs, hafterName, hinner]
      simp only [List.append_assoc, List.cons_append, List.nil_append]
  | case3 callee afterName h hname inner h₁ hopen fault harguments hclose => exact nofun
  | case4 callee afterName h hname inner h₁ hopen es after h₂ hread hclose =>
      intro he
      rw [Except.ok.injEq, Prod.mk.injEq, Subtype.mk.injEq] at he
      rcases he with ⟨rfl, rfl⟩
      rcases readName_split hname with ⟨before, name, hbefore, hword, rfl, hs⟩
      rcases Text.next?_split hopen with ⟨gap, hgap, _, hafterName⟩
      rcases harguments _ inner (Nat.lt_trans h₁ h) es _ _ hread with ⟨inside, hinside, hinner⟩
      refine ⟨before, _, hbefore, .call name gap inside es hword hgap hinside, ?_⟩
      rw [hs, hafterName, hinner]
      simp only [List.append_assoc, List.cons_append, List.nil_append]
  | case5 callee afterName h hname hopen =>
      intro he
      rw [Except.ok.injEq, Prod.mk.injEq, Subtype.mk.injEq] at he
      rcases he with ⟨rfl, rfl⟩
      rcases readName_split hname with ⟨before, name, hbefore, hword, rfl, hs⟩
      refine ⟨before, name, hbefore, .name name hword, ?_⟩
      rw [hs]

theorem argumentSound_of_call {s : List Char} (hcall : CallSound s) : ArgumentSound s := by
  intro e rest hrest
  fun_cases readArgument s with
  | case1 h hsign => exact nofun
  | case2 c after h hsign hblank => exact nofun
  | case3 c after h hsign hblank =>
      intro he
      rw [Except.ok.injEq, Prod.mk.injEq, Subtype.mk.injEq] at he
      rcases he with ⟨rfl, rfl⟩
      rcases Text.next?_split hsign with ⟨before, hbefore, _, hs⟩
      refine ⟨_, .placeholder before c hbefore (Bool.eq_false_iff.mpr hblank), ?_⟩
      rw [hs]
      simp only [List.append_assoc, List.cons_append, List.nil_append]
  | case4 hend hsign =>
      intro he
      rcases hcall e rest hrest he with ⟨before, t, hbefore, ht, hs⟩
      refine ⟨before ++ t, .nested before t e hbefore ht, ?_⟩
      rw [List.append_assoc]
      exact hs

theorem argumentsSound_of_parts {callee : String} {s : List Char} (hfirst : ArgumentSound s)
    (hmore : ∀ next, next.length < s.length → ArgumentsSound callee next) :
    ArgumentsSound callee s := by
  intro es rest hrest
  fun_cases readArguments callee s with
  | case1 fault hread => exact nofun
  | case2 e after h hread hend => exact nofun
  | case3 e after h hread behind h₁ hclose =>
      intro he
      rw [Except.ok.injEq, Prod.mk.injEq, Subtype.mk.injEq] at he
      rcases he with ⟨rfl, rfl⟩
      rcases hfirst e _ _ hread with ⟨t, ht, hs⟩
      rcases Text.next?_split hclose with ⟨gap, hgap, _, hafter⟩
      refine ⟨_, .last t gap e ht hgap, ?_⟩
      rw [hs, hafter, List.append_assoc]
  | case4 e after h hread next h₁ hcomma fault hnext => exact nofun
  | case5 e after h hread next h₁ hcomma more behind h₂ hnext =>
      intro he
      rw [Except.ok.injEq, Prod.mk.injEq, Subtype.mk.injEq] at he
      rcases he with ⟨rfl, rfl⟩
      rcases hfirst e _ _ hread with ⟨t, ht, hs⟩
      rcases Text.next?_split hcomma with ⟨gap, hgap, _, hafter⟩
      rcases hmore next (Nat.lt_trans h₁ h) more _ _ hnext with ⟨inside, hinside, hsplit⟩
      refine ⟨_, .more t gap inside e more ht hgap hinside, ?_⟩
      rw [hs, hafter, hsplit]
      simp only [List.append_assoc, List.cons_append]
  | case6 e after h hread c behind hclose hcomma hnext => exact nofun

/-- What is read was spelled, because each reader hands on less than it was given. -/
theorem readers_sound (s : List Char) :
    CallSound s ∧ ArgumentSound s ∧ ∀ callee, ArgumentsSound callee s := by
  induction hlength : s.length using Nat.strongRecOn generalizing s with
  | _ n ih =>
      have hcall : CallSound s :=
        callSound_of_arguments fun callee inner hinner =>
          (ih inner.length (hlength ▸ hinner) inner rfl).2.2 callee
      have hargument : ArgumentSound s := argumentSound_of_call hcall
      refine ⟨hcall, hargument, fun callee => argumentsSound_of_parts hargument ?_⟩
      exact fun next hnext => (ih next.length (hlength ▸ hnext) next rfl).2.2 callee

end Expr

end PuzzleLevel
