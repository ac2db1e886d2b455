import PuzzleLevel.Proofs.Occurrences.Index

/-!
# Where a Character Stands

A map is given by its rows, which need not have one length. `charAt?` reads it at a
position, and the list of the occurrences of a character is right in both ways: it
holds a position exactly if the character is read there.

A reference from a legend is good if there is one occurrence. What it is bound to is
then a place that the map itself tells: the character stands there and nowhere else.

The order of the list is that of a reader who goes row by row. No position comes before
itself in this order, so none is listed twice, and the number of occurrences is the number
of places. The order also leaves no choice of the list, so two maps that have a character
at the same places are the same to every reference to it.

A reference that is not good misses, and it can miss in two ways. `Misses` says which of
them is reported, by the places and not by a list that the program keeps of them.

## Main definitions

* `charAt?`: The character at a position.
* `StandsOnlyAt`: A character stands at one position and nowhere else.
* `ListsPlaces`: A list has the places of a character, in the order of reading.
* `Misses`: What is reported of a character without a single place.

## Theorems

* `mem_occurrences`: Where a character occurs is where it is read.
* `listsPlaces_occurrences`: The occurrences of a character are its places, in order.
* `occurrences_eq_singleton_iff`: A character has one occurrence exactly if it stands only
  there.
* `standsOnlyAt_of_occurrences`: A character with one occurrence stands only there.
* `occurrences_congr`: Maps that have a character at the same places list it alike.
* `lookup_eq_ok_iff`: A reference is bound exactly to the only place of its character.
* `lookup_eq_error_iff`: It fails exactly if the character has no single place.
* `occurrences_of_lookup`: A reference that is bound has one occurrence.
-/

namespace PuzzleLevel

/-- The character at a position of a map, if the position lies in one of its rows. -/
def charAt? (rows : List (List Char)) (p : Position) : Option Char :=
  (rows[p.row]?).bind fun cells => cells[p.column]?

/-- A character stands at one position of a map and nowhere else. -/
structure StandsOnlyAt (rows : List (List Char)) (c : Char) (p : Position) : Prop where
  /-- It stands there. -/
  here : charAt? rows p = some c
  /-- It stands nowhere else. -/
  only : ∀ q, charAt? rows q = some c → q = p

theorem mem_occurrencesInRow {row : Nat} {cells : List Char} {c : Char} {p : Position} :
    p ∈ occurrencesInRow row cells c ↔ p.row = row ∧ cells[p.column]? = some c := by
  unfold occurrencesInRow
  rw [List.mem_filterMap]
  constructor
  · rintro ⟨⟨d, column⟩, hmem, hp⟩
    simp only [Option.ite_none_right_eq_some, Option.some.injEq] at hp
    rcases hp with ⟨rfl, rfl⟩
    exact ⟨rfl, List.mem_zipIdx_iff_getElem?.mp hmem⟩
  · rintro ⟨rfl, hcell⟩
    exact ⟨(c, p.column), List.mem_zipIdx_iff_getElem?.mpr hcell, if_pos rfl⟩

/-- Where a character occurs is where it is read. -/
theorem mem_occurrences {rows : List (List Char)} {c : Char} {p : Position} :
    p ∈ occurrences rows c ↔ charAt? rows p = some c := by
  unfold occurrences charAt?
  rw [List.mem_flatMap, Option.bind_eq_some_iff]
  constructor
  · rintro ⟨⟨cells, row⟩, hmem, hp⟩
    rcases mem_occurrencesInRow.mp hp with ⟨rfl, hcell⟩
    exact ⟨cells, List.mem_zipIdx_iff_getElem?.mp hmem, hcell⟩
  · rintro ⟨cells, hrow, hcell⟩
    exact ⟨(cells, p.row), List.mem_zipIdx_iff_getElem?.mpr hrow,
      mem_occurrencesInRow.mpr ⟨rfl, hcell⟩⟩

/-- A character that is read somewhere in a row of the map is read at a position. -/
theorem exists_charAt? {rows : List (List Char)} {row : List Char} {c : Char} (hrow : row ∈ rows)
    (hc : c ∈ row) : ∃ p, charAt? rows p = some c := by
  rcases List.getElem?_of_mem hrow with ⟨i, hi⟩
  rcases List.getElem?_of_mem hc with ⟨j, hj⟩
  refine ⟨⟨i, j⟩, ?_⟩
  rw [charAt?, hi, Option.bind_some, hj]

/-- A list has the places of a character, in the order in which a reader meets them. -/
structure ListsPlaces (rows : List (List Char)) (c : Char) (places : List Position) : Prop where
  ordered : places.Pairwise Position.Before
  exact : ∀ p, p ∈ places ↔ charAt? rows p = some c

theorem Position.not_before_self (p : Position) : ¬ p.Before p := by
  unfold Before
  omega

theorem zipIdx_increasing {α : Type} (items : List α) :
    items.zipIdx.Pairwise fun a b => a.2 < b.2 := by
  rw [← List.pairwise_map (f := Prod.snd) (R := (· < ·)), List.zipIdx_map_snd]
  exact List.pairwise_lt_range'

theorem occurrencesInRow_ordered (row : Nat) (cells : List Char) (c : Char) :
    (occurrencesInRow row cells c).Pairwise Position.Before := by
  unfold occurrencesInRow
  rw [List.pairwise_filterMap]
  refine (zipIdx_increasing cells).imp fun {a b} hlt p hp q hq => ?_
  simp only [Option.ite_none_right_eq_some, Option.some.injEq] at hp hq
  -- Within one row the column decides.
  rw [← hp.2, ← hq.2]
  exact Or.inr ⟨rfl, hlt⟩

/-- The occurrences of a character are its places, in the order of reading. -/
theorem listsPlaces_occurrences (rows : List (List Char)) (c : Char) :
    ListsPlaces rows c (occurrences rows c) := by
  refine ⟨?_, fun p => mem_occurrences⟩
  unfold occurrences
  rw [List.pairwise_flatMap]
  refine ⟨fun cells _ => occurrencesInRow_ordered _ _ _, ?_⟩
  refine (zipIdx_increasing rows).imp fun {a b} hlt p hp q hq => ?_
  -- Of two rows the upper one comes first, whatever the columns are.
  rw [Position.Before, (mem_occurrencesInRow.mp hp).1, (mem_occurrencesInRow.mp hq).1]
  exact Or.inl hlt

/-- Two lists of the places of a character are one. -/
theorem ListsPlaces.unique {rows : List (List Char)} {c : Char} {places others : List Position}
    (h : ListsPlaces rows c places) (hothers : ListsPlaces rows c others) : others = places := by
  have hnodup : ∀ {list : List Position}, list.Pairwise Position.Before → list.Nodup := by
    intro list hordered
    refine hordered.imp ?_
    rintro p _ hbefore rfl
    exact p.not_before_self hbefore
  have hsame : ∀ p, p ∈ others ↔ p ∈ places := by
    intro p
    rw [hothers.exact, h.exact]
  have hperm := (List.perm_ext_iff_of_nodup (hnodup hothers.ordered) (hnodup h.ordered)).mpr hsame
  -- Neither of two positions comes before the other and behind it.
  refine hperm.eq_of_pairwise (fun p q _ _ hpq hqp => ?_) hothers.ordered h.ordered
  unfold Position.Before at hpq hqp
  omega

/-- Maps that have a character at the same places list its occurrences alike. -/
theorem occurrences_congr {rows other : List (List Char)} {c : Char}
    (h : ∀ p, charAt? other p = some c ↔ charAt? rows p = some c) :
    occurrences other c = occurrences rows c := by
  rcases listsPlaces_occurrences other c with ⟨hordered, hexact⟩
  have hplaces : ListsPlaces rows c (occurrences other c) := by
    refine ⟨hordered, fun p => ?_⟩
    rw [hexact, h]
  exact (listsPlaces_occurrences rows c).unique hplaces

/-- A character has one occurrence exactly if it stands there and nowhere else. -/
theorem occurrences_eq_singleton_iff {rows : List (List Char)} {c : Char} {p : Position} :
    occurrences rows c = [p] ↔ StandsOnlyAt rows c p := by
  constructor
  · intro h
    refine ⟨?_, fun q hq => ?_⟩
    · rw [← mem_occurrences, h]
      exact List.mem_singleton_self p
    · rw [← mem_occurrences, h] at hq
      exact List.mem_singleton.mp hq
  · intro h
    rcases listsPlaces_occurrences rows c with ⟨hordered, hexact⟩
    cases hplaces : occurrences rows c with
    | nil =>
        rw [hplaces] at hexact
        exact absurd ((hexact p).mpr h.here) List.not_mem_nil
    | cons first more =>
        rw [hplaces] at hordered hexact
        have hall : ∀ q ∈ first :: more, q = p := fun q hq => h.only q ((hexact q).mp hq)
        have hfirst := hall first (List.mem_cons_self ..)
        cases more with
        | nil => rw [hfirst]
        | cons second rest =>
            -- A second place would be the first one again, and come before itself.
            have hsecond := hall second (List.mem_cons_of_mem _ (List.mem_cons_self ..))
            have hbefore := (List.pairwise_cons.mp hordered).1 second (List.mem_cons_self ..)
            rw [hfirst, hsecond] at hbefore
            exact absurd hbefore p.not_before_self

/-- A character with one occurrence stands only there. -/
theorem standsOnlyAt_of_occurrences {rows : List (List Char)} {c : Char} {p : Position}
    (h : occurrences rows c = [p]) : StandsOnlyAt rows c p :=
  occurrences_eq_singleton_iff.mp h

/-- A reference that is bound has one occurrence. -/
theorem occurrences_of_lookup {rows : List (List Char)} {symbol c : Char} {p : Position}
    (h : lookup rows symbol c = .ok p) : occurrences rows c = [p] := by
  rw [lookup_eq] at h
  cases hfound : occurrences rows c with
  | nil =>
      rw [hfound] at h
      exact absurd h (by simp only [reduceCtorEq, not_false_eq_true])
  | cons first more =>
      rw [hfound] at h
      cases more with
      | nil =>
          rw [Except.ok.injEq] at h
          rw [h]
      | cons second rest => exact absurd h (by simp only [reduceCtorEq, not_false_eq_true])

/-- A reference is bound exactly to the only place of its character. -/
theorem lookup_eq_ok_iff {rows : List (List Char)} {symbol c : Char} {p : Position} :
    lookup rows symbol c = .ok p ↔ StandsOnlyAt rows c p := by
  constructor
  · intro h
    exact standsOnlyAt_of_occurrences (occurrences_of_lookup h)
  · intro h
    rw [lookup_eq, occurrences_eq_singleton_iff.mpr h]

/-- What is reported of a reference to a character that has no single place. -/
inductive Misses (rows : List (List Char)) (symbol c : Char) : ReferenceError → Prop
  /-- The character stands nowhere in the map. -/
  | absent (hnowhere : ∀ p, charAt? rows p ≠ some c) : Misses rows symbol c (.unresolved symbol c)
  /-- It stands at several places, of which the number and the first are given. -/
  | repeated (first second : Position) (more : List Position)
      (hplaces : ListsPlaces rows c (first :: second :: more)) :
      Misses rows symbol c (.ambiguous symbol c (first :: second :: more).length first)

/-- A reference fails exactly if its character has no single place, and as that says. -/
theorem lookup_eq_error_iff {rows : List (List Char)} {symbol c : Char} {error : ReferenceError} :
    lookup rows symbol c = .error error ↔ Misses rows symbol c error := by
  have hplaces := listsPlaces_occurrences rows c
  constructor
  · rw [lookup_eq]
    intro h
    cases hfound : occurrences rows c with
    | nil =>
        rw [hfound] at h hplaces
        rw [Except.error.injEq] at h
        rw [← h]
        exact .absent fun p hp => absurd ((hplaces.exact p).mpr hp) List.not_mem_nil
    | cons first more =>
        rw [hfound] at h hplaces
        cases more with
        | nil => exact absurd h (by simp only [reduceCtorEq, not_false_eq_true])
        | cons second rest =>
            rw [Except.error.injEq] at h
            rw [← h]
            exact .repeated first second rest hplaces
  · intro h
    cases h with
    | absent hnowhere =>
        have hnone : ListsPlaces rows c [] :=
          ⟨.nil, fun p => ⟨fun hp => absurd hp List.not_mem_nil, fun hp => absurd hp (hnowhere p)⟩⟩
        rw [lookup_eq, hnone.unique hplaces]
    | repeated first second more hlisted =>
        rw [lookup_eq, hlisted.unique hplaces]
        rfl

end PuzzleLevel
