import Mathlib.Algebra.BigOperators.Group.Finset.Basic
import PuzzleLevel.Proofs.Occurrences

/-!
# An Index Is Exact

Whatever a legend refers to is looked up in an index of the map, so a place that the index
lacks, has twice or has under a wrong character would bind a tile to a wrong cell. Nothing
of this happens, and what the index is compared with for that is the map alone.

That the places of each character are right leaves one thing open that only all characters
together can tell: no cell is lost between them. The counts of the characters of a map add
up to the number of its cells, because counting what is found of a character by its
position is counting the character in the text of the map.

Of the three answers to a reference the last one needs the order of the places. Two
different places are enough for it, but it names the first of all, and there is a first one
because the places are listed from the first to the last.

## Main definitions

* `StandsFirstAt`: A character stands at one position and at none before it.
* `StandsTwice`: A character stands at two positions.
* `PositionIndex.IsExact`: An index says where the characters of a map stand.

## Theorems

* `length_occurrences`: A character occurs as often as the text of the map holds it.
* `ListsPlaces.standsFirst`: The first of the places of a character comes before the others.
* `lookup_eq_unresolved_iff`: A reference is unresolved exactly if its character is nowhere.
* `standsTwice_iff_lookup`: A reference is ambiguous exactly if there are two places.
* `PositionIndex.isExact_ofRows`: The index of a map is exact.
-/

namespace PuzzleLevel

/-- A character stands at one position of a map and at none that is read before. -/
structure StandsFirstAt (rows : List (List Char)) (c : Char) (p : Position) : Prop where
  /-- It stands there. -/
  here : charAt? rows p = some c
  /-- Where else it stands comes later. -/
  first : ∀ q, charAt? rows q = some c → q = p ∨ p.Before q

/-- A character stands at two positions of a map, if not at more. -/
def StandsTwice (rows : List (List Char)) (c : Char) : Prop :=
  ∃ p q, p ≠ q ∧ charAt? rows p = some c ∧ charAt? rows q = some c

/-- A character occurs in a row as often as the row holds it. -/
theorem length_occurrencesInRow (row : Nat) (cells : List Char) (c : Char) :
    (occurrencesInRow row cells c).length = cells.count c := by
  have hsome : ∀ cell : Char × Nat,
      (if cell.1 = c then some (⟨row, cell.2⟩ : Position) else none).isSome = (cell.1 == c) := by
    intro cell
    by_cases h : cell.1 = c
    · rw [if_pos h, beq_iff_eq.mpr h]
      rfl
    · rw [if_neg h, beq_eq_false_iff_ne.mpr h]
      rfl
  calc (occurrencesInRow row cells c).length
      = cells.zipIdx.countP (fun cell => cell.1 == c) := by
        rw [occurrencesInRow, List.length_filterMap_eq_countP]
        exact List.countP_congr fun cell _ => by rw [hsome cell]
    _ = (cells.zipIdx.map Prod.fst).count c := by
        rw [List.count, List.countP_map]
        rfl
    _ = cells.count c := by rw [List.zipIdx_map_fst]

/-- A character occurs in a map as often as the text of the map holds it. -/
theorem length_occurrences (rows : List (List Char)) (c : Char) :
    (occurrences rows c).length = rows.flatten.count c := by
  calc (occurrences rows c).length
      = (rows.zipIdx.map fun pair => pair.1.count c).sum := by
        rw [occurrences, List.length_flatMap]
        simp only [length_occurrencesInRow]
    _ = ((rows.zipIdx.map Prod.fst).map (List.count c)).sum := by
        rw [List.map_map]
        rfl
    _ = rows.flatten.count c := by rw [List.zipIdx_map_fst, List.count_flatten]

/-- The first of the places of a character comes before the others. -/
theorem ListsPlaces.standsFirst {rows : List (List Char)} {c : Char} {first : Position}
    {more : List Position} (h : ListsPlaces rows c (first :: more)) :
    StandsFirstAt rows c first := by
  refine ⟨(h.exact first).mp (List.mem_cons_self ..), ?_⟩
  intro q hq
  rcases List.mem_cons.mp ((h.exact q).mpr hq) with hfirst | hmore
  · exact Or.inl hfirst
  · exact Or.inr ((List.pairwise_cons.mp h.ordered).1 q hmore)

/-- A reference is unresolved exactly if its character stands nowhere. -/
theorem lookup_eq_unresolved_iff {rows : List (List Char)} {symbol c : Char} :
    lookup rows symbol c = .error (.unresolved symbol c) ↔ ∀ p, charAt? rows p ≠ some c := by
  constructor
  · intro h
    cases lookup_eq_error_iff.mp h with
    | absent hnowhere => exact hnowhere
  · intro h
    exact lookup_eq_error_iff.mpr (.absent h)

/-- A reference is ambiguous exactly if its character stands at two positions. What is
    reported is how often it occurs and where it stands first. -/
theorem standsTwice_iff_lookup {rows : List (List Char)} {symbol c : Char} :
    StandsTwice rows c ↔
      ∃ first, StandsFirstAt rows c first ∧
        lookup rows symbol c =
          .error (.ambiguous symbol c (occurrences rows c).length first) := by
  have hplaces := listsPlaces_occurrences rows c
  constructor
  · intro h
    rcases h with ⟨p, q, hne, hp, hq⟩
    have hpmem := mem_occurrences.mpr hp
    have hqmem := mem_occurrences.mpr hq
    -- Two different positions are not both in a list that has fewer than two.
    rcases hfound : occurrences rows c with _ | ⟨first, _ | ⟨second, more⟩⟩
    · rw [hfound] at hpmem
      exact absurd hpmem List.not_mem_nil
    · rw [hfound, List.mem_singleton] at hpmem hqmem
      exact absurd (hpmem.trans hqmem.symm) hne
    · rw [hfound] at hplaces
      exact ⟨first, hplaces.standsFirst,
        lookup_eq_error_iff.mpr (.repeated first second more hplaces)⟩
  · intro h
    rcases h with ⟨first, hfirst, hlookup⟩
    have hmisses := lookup_eq_error_iff.mp hlookup
    generalize (occurrences rows c).length = n at hmisses
    cases hmisses with
    | repeated _ second more hlisted =>
        have hbefore : first.Before second :=
          (List.pairwise_cons.mp hlisted.ordered).1 second (List.mem_cons_self ..)
        refine ⟨first, second, ?_, hfirst.here, ?_⟩
        · intro heq
          rw [← heq] at hbefore
          exact first.not_before_self hbefore
        · exact (hlisted.exact second).mp (List.mem_cons_of_mem _ (List.mem_cons_self ..))

namespace PositionIndex

/-- An index says of every character where it stands in a map, and nothing else. -/
structure IsExact (index : PositionIndex) (rows : List (List Char)) : Prop where
  /-- A character has its places, each once and in the order of reading. -/
  lists : ∀ c, ListsPlaces rows c (index.positions c)
  /-- The characters of the map share out all its cells. -/
  total : ∑ c ∈ rows.flatten.toFinset, index.count c = rows.flatten.length
  /-- A reference is bound exactly to the only place of its target. -/
  bound : ∀ symbol target p,
    index.lookup symbol target = .ok p ↔ StandsOnlyAt rows target p
  /-- It is unresolved exactly if its target stands nowhere. -/
  unresolved : ∀ symbol target,
    index.lookup symbol target = .error (.unresolved symbol target) ↔
      ∀ p, charAt? rows p ≠ some target
  /-- It is ambiguous exactly if its target stands at two places, and is then reported with
      the number of them all and the first. -/
  ambiguous : ∀ symbol target,
    StandsTwice rows target ↔
      ∃ first, StandsFirstAt rows target first ∧
        index.lookup symbol target = .error (.ambiguous symbol target (index.count target) first)

theorem count_ofRows (rows : List (List Char)) (c : Char) :
    (ofRows rows).count c = (occurrences rows c).length := by
  rw [count, positions_ofRows]

/-- The counts of the characters of a map add up to the number of its cells. -/
theorem sum_count_ofRows (rows : List (List Char)) :
    ∑ c ∈ rows.flatten.toFinset, (ofRows rows).count c = rows.flatten.length := by
  rw [← List.sum_toFinset_count_eq_length rows.flatten]
  exact Finset.sum_congr rfl fun c _ => by rw [count_ofRows, length_occurrences]

/-- The index of a map is exact. -/
theorem isExact_ofRows (rows : List (List Char)) : (ofRows rows).IsExact rows where
  lists c := by
    rw [positions_ofRows]
    exact listsPlaces_occurrences rows c
  total := sum_count_ofRows rows
  bound _ _ _ := lookup_eq_ok_iff
  unresolved _ _ := lookup_eq_unresolved_iff
  ambiguous symbol target := by
    rw [count_ofRows]
    exact standsTwice_iff_lookup

example : (ofRows ["#S#".toList, "F".toList]).positions '#' = [⟨0, 0⟩, ⟨0, 2⟩] := by decide

end PositionIndex

end PuzzleLevel
