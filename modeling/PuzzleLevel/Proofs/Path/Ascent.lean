import PuzzleLevel.Proofs.Path

/-!
# Going Up a Path

From a path to its parent, from there to the parent of that, and on: this is a matter of
the text alone, so nothing outside of the path can bring it to an end. What does is that a
parent has fewer characters than its path. The last name is dropped with the parent, and
as a name that counts is not empty, it is a real part of the text.

An absolute path ends at the root in this way and any other at the empty path. Nothing
else is without a parent, not even a lone dot, which is below the empty path.

`ancestors` counts its steps beforehand, by the characters of the path. Since no way up has
more steps than that, the count never cuts one short, and `ancestors` has the equations of
a function that does not count. With them a property of all ways up is proved from the top
down, by `ascend`.

## Main definitions

* `Path.up?`: The path that is some number of steps above another.
* `Path.IsRoot`: An absolute path without a name.

## Theorems

* `Path.length_of_parent?`: A parent is shorter than its path.
* `Path.ascend`: What holds at the top and goes from each parent down to its path holds of
  every path.
* `Path.parent?_eq_none_iff`: Only the root and the empty path have no parent.
* `Path.ancestors_of_top`, `Path.ancestors_of_parent?`: The ancestors of a path are those
  of its parent and the path itself.
* `Path.exists_top`: A way up ends where nothing is above.
-/

namespace PuzzleLevel

namespace Path

/-- The path that is a number of steps above a path: itself, its parent, the parent of
    that, and so on. -/
def up? (p : Path) : (steps : Nat) → Option Path
  | 0 => some p
  | steps + 1 =>
    match p.parent? with
    | some q => up? q steps
    | none => none

/-- An absolute path without a name. -/
structure IsRoot (p : Path) : Prop where
  absolute : p.isAbsolute = true
  silent : ∀ s ∈ segments p.chars, isSilent s = true

/-- Joining some but not all of the segments of a text, from the first one on, gives a
    shorter text. -/
theorem length_joinSegments_lt {pieces : List (List Char)} {cs : List Char} (hcs : cs ≠ [])
    (h : pieces <+: segments cs) (hne : pieces ≠ segments cs) :
    (joinSegments pieces).length < cs.length := by
  have hprefix := joinSegments_isPrefix h
  refine Nat.lt_of_le_of_ne hprefix.length_le ?_
  intro hlength
  have hjoin := hprefix.eq_of_length hlength
  -- A text that is joined of pieces has these pieces and no others.
  cases pieces with
  | nil => exact hcs hjoin.symm
  | cons s more =>
      have hpieces := segments_joinSegments (s :: more) (List.cons_ne_nil _ _)
        fun t ht => noSlash_of_mem_segments (h.subset ht)
      rw [hjoin] at hpieces
      exact hne hpieces.symm

/-- A parent is shorter than its path. -/
theorem length_of_parent? {p q : Path} (h : p.parent? = some q) :
    q.chars.length < p.chars.length := by
  have hchars := congrArg List.length (front_append_rest p)
  rw [List.length_append] at hchars
  unfold parent? at h
  cases hnames : p.reversedNames with
  | nil =>
      -- The parent of a dot has nothing left of it.
      rw [hnames] at h
      simp only [Option.ite_none_right_eq_some, Option.some.injEq] at h
      rcases h with ⟨hfront, rfl⟩
      rw [hfront, List.length_singleton] at hchars
      rw [List.length_nil]
      omega
  | cons last before =>
      rw [hnames] at h
      simp only [Option.some.injEq] at h
      have hfewer : (before.dropWhile isSilent).reverse.length < (segments p.rest).length := by
        have hle := (reversedNames_isPrefix p).length_le
        have hdrop := (List.dropWhile_suffix isSilent (l := before)).length_le
        rw [List.length_reverse, hnames, List.length_cons] at hle
        rw [List.length_reverse]
        omega
      have hrest : p.rest ≠ [] := by
        intro hnil
        rw [reversedNames, ← rest.eq_1, hnil] at hnames
        exact absurd hnames (List.cons_ne_nil _ _).symm
      have hlt := length_joinSegments_lt hrest (parentNames_isPrefix hnames)
        fun heq => absurd (congrArg List.length heq) (Nat.ne_of_lt hfewer)
      rw [← h, List.length_append]
      omega

/-- Induction on the way up: what holds of every path without a parent, and of every path
    of whose parent it holds, holds of all paths. -/
@[elab_as_elim] theorem ascend {motive : Path → Prop} (p : Path)
    (top : ∀ p, p.parent? = none → motive p)
    (step : ∀ p q, p.parent? = some q → motive q → motive p) : motive p := by
  generalize hlength : p.chars.length = n
  induction n using Nat.strongRecOn generalizing p with
  | ind n ih =>
      cases hparent : p.parent? with
      | none => exact top p hparent
      | some q =>
          have hlt := length_of_parent? hparent
          rw [hlength] at hlt
          exact step p q hparent (ih q.chars.length hlt q rfl)

theorem reversedNames_eq_nil_iff {p : Path} :
    p.reversedNames = [] ↔ ∀ s ∈ segments p.rest, isSilent s = true := by
  rw [reversedNames, ← rest.eq_1, List.dropWhile_eq_nil_iff]
  simp only [List.mem_reverse]

/-- The root is a path that is led by a slash and has no names behind it. -/
theorem isRoot_iff {p : Path} : p.IsRoot ↔ p.front = ['/'] ∧ p.reversedNames = [] := by
  have hsegments : p.chars = '/' :: p.rest → segments p.chars = [] :: segments p.rest := by
    intro hchars
    rw [hchars, segments, if_pos rfl]
  rw [reversedNames_eq_nil_iff]
  constructor
  · intro h
    have hhead : p.chars.head? = some '/' := of_decide_eq_true h.absolute
    rcases front_cases p with ⟨hfront, hchars⟩ | ⟨hfront, _⟩ | ⟨_, _, hrelative, _⟩
    · refine ⟨hfront, fun s hs => h.silent s ?_⟩
      rw [hsegments hchars]
      exact List.mem_cons_of_mem _ hs
    · -- A dot in front is no slash.
      rw [← front_append_rest p, hfront, List.singleton_append, List.head?_cons,
        Option.some.injEq] at hhead
      exact absurd hhead (by decide)
    · exact absurd hhead hrelative
  · intro h
    rcases front_cases p with ⟨_, hchars⟩ | ⟨hfront, _⟩ | ⟨hfront, _⟩
    · refine ⟨?_, ?_⟩
      · rw [isAbsolute, hchars]
        rfl
      · rw [hsegments hchars, List.forall_mem_cons]
        exact ⟨rfl, h.2⟩
    · exact absurd (hfront.symm.trans h.1) (by decide)
    · exact absurd (hfront.symm.trans h.1) (by decide)

/-- A path with neither a front nor a name is empty. -/
theorem eq_empty_of_front {p : Path} (hfront : p.front = []) (hnames : p.reversedNames = []) :
    p = ⟨[]⟩ := by
  rcases front_cases p with ⟨hslash, _⟩ | ⟨hdot, _⟩ | ⟨_, hrest, hhead, hdot, hdots⟩
  · exact absurd (hslash.symm.trans hfront) (by decide)
  · exact absurd (hdot.symm.trans hfront) (by decide)
  · rw [reversedNames_eq_nil_iff, hrest] at hnames
    rcases p with ⟨cs⟩
    cases hsegments : segments cs with
    | nil => exact absurd hsegments (segments_ne_nil cs)
    | cons s more =>
        have hsilent := hnames s (hsegments ▸ List.mem_cons_self ..)
        have hchars := eq_of_segments hsegments
        rw [isSilent, Bool.or_eq_true, decide_eq_true_eq, decide_eq_true_eq] at hsilent
        rw [hchars] at hhead hdot hdots ⊢
        -- Whether the first segment is empty or a dot, more behind it would make it a front.
        rcases hsilent with rfl | rfl
        · cases more with
          | nil => rfl
          | cons t more => exact absurd rfl hhead
        · cases more with
          | nil => exact absurd rfl hdot
          | cons t more => exact absurd rfl (hdots _)

/-- Only the root and the empty path have no parent. -/
theorem parent?_eq_none_iff {p : Path} : p.parent? = none ↔ p = ⟨[]⟩ ∨ p.IsRoot := by
  have hnone : p.parent? = none ↔ p.reversedNames = [] ∧ p.front ≠ ['.'] := by
    unfold parent?
    cases p.reversedNames with
    | nil => simp only [ite_eq_right_iff, reduceCtorEq, imp_false, true_and, ne_eq]
    | cons last before => simp only [reduceCtorEq, false_and]
  rw [hnone, isRoot_iff]
  constructor
  · intro h
    rcases front_cases p with ⟨hfront, _⟩ | ⟨hfront, _⟩ | ⟨hfront, _⟩
    · exact Or.inr ⟨hfront, h.1⟩
    · exact absurd hfront h.2
    · exact Or.inl (eq_empty_of_front hfront h.1)
  · intro h
    rcases h with rfl | ⟨hfront, hnames⟩
    · exact ⟨rfl, by decide⟩
    · exact ⟨hnames, by rw [hfront]; decide⟩

/-- A path without a parent is its own only ancestor. -/
theorem ancestors_of_top {p : Path} (h : p.parent? = none) : p.ancestors = [p] := by
  rw [ancestors, ancestorsUpTo, h]

/-- How many steps are allowed does not matter if there are more than characters. -/
theorem ancestorsUpTo_eq {p : Path} {limit more : Nat} (h : p.chars.length < limit)
    (hmore : p.chars.length < more) : ancestorsUpTo limit p = ancestorsUpTo more p := by
  induction p using ascend generalizing limit more with
  | top p hparent =>
      cases limit with
      | zero => omega
      | succ limit =>
          cases more with
          | zero => omega
          | succ more => rw [ancestorsUpTo, ancestorsUpTo, hparent]
  | step p q hparent ih =>
      have hlt := length_of_parent? hparent
      cases limit with
      | zero => omega
      | succ limit =>
          cases more with
          | zero => omega
          | succ more =>
              rw [ancestorsUpTo, ancestorsUpTo, hparent]
              simp only [List.cons.injEq, true_and]
              exact ih (by omega) (by omega)

/-- The ancestors of a path are the path itself and those of its parent. -/
theorem ancestors_of_parent? {p q : Path} (h : p.parent? = some q) :
    p.ancestors = p :: q.ancestors := by
  have hlt := length_of_parent? h
  rw [ancestors, ancestorsUpTo, h, ancestors]
  simp only [List.cons.injEq, true_and]
  exact ancestorsUpTo_eq hlt (Nat.lt_succ_self _)

/-- A way up has a last path. It has no parent, and it is absolute if the way starts from an
    absolute path. -/
theorem exists_top (p : Path) :
    ∃ height top, p.up? height = some top ∧ top.parent? = none ∧
      top.isAbsolute = p.isAbsolute ∧ ∀ steps, (p.up? steps).isSome = true ↔ steps ≤ height := by
  induction p using ascend with
  | top p h =>
      refine ⟨0, p, rfl, h, rfl, ?_⟩
      intro steps
      cases steps with
      | zero => exact iff_of_true rfl (Nat.le_refl 0)
      | succ steps =>
          rw [up?, h]
          exact iff_of_false Bool.false_ne_true (Nat.not_succ_le_zero steps)
  | step p q h ih =>
      rcases ih with ⟨height, top, htop, hparent, habsolute, hheight⟩
      refine ⟨height + 1, top, ?_, hparent, ?_, ?_⟩
      · rw [up?, h]
        exact htop
      · rw [habsolute, (names_of_parent? h).2]
      · intro steps
        cases steps with
        | zero => exact iff_of_true rfl (Nat.zero_le _)
        | succ steps =>
            rw [up?, h, Nat.succ_le_succ_iff]
            exact hheight steps

end Path

end PuzzleLevel
