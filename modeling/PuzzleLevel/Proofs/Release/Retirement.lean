import PuzzleLevel.Proofs.Release.Promotion

/-!
# Retirement

The last phase of a release removes the files of levels that are gone. A file that
is missing is no reason to stop, so success alone does not say that there is
nothing left: a path on whose way a directory is missing counts as a missing file,
too. What rules this out is that the phases before it have led to the directory.

## Main definitions

* `Retired`: What a store is like after retirement.

## Theorems

* `retire_ok`: Retirement that succeeds leaves a retired store.
* `retire_error`: Retirement that fails leaves a retired front.
* `retire_of_present`: When retirement succeeds.
-/

namespace PuzzleLevel

/-- The step that removes the file of an identifier. -/
def retiring (directory : Path) (id : String) : Step :=
  ⟨.remove (levelPath directory id), levelPath directory id⟩

/-- What a store is like after the files of identifiers were removed from a
    directory. -/
structure Retired (directory : Path) (ids : List String) (before after : Store) : Prop where
  /-- No directory is lost. -/
  keeps : before.KeepsDirectories after
  /-- Every path can be followed. -/
  locate : ∀ id ∈ ids, after.locate (levelPath directory id) =
    .ok (levelPlace (before.place directory) id)
  /-- No file is left. -/
  gone : ∀ id ∈ ids, after.find? (levelPlace (before.place directory) id) = none
  /-- Other locations are as they were. -/
  other : ∀ l, (∀ id ∈ ids, l ≠ levelPlace (before.place directory) id) →
    after.find? l = before.find? l

/-- A removal that leaves nothing at the place of a file and changes nothing else
    retires it. -/
theorem retired_singleton {directory : Path} {id : String} {before after : Store}
    (hkeeps : before.KeepsDirectories after)
    (hlocate : before.locate (levelPath directory id) =
      .ok (levelPlace (before.place directory) id))
    (hgone : after.find? (levelPlace (before.place directory) id) = none)
    (hother : ∀ l, l ≠ levelPlace (before.place directory) id → after.find? l = before.find? l) :
    Retired directory [id] before after := by
  refine ⟨hkeeps, fun other ho => ?_, fun other ho => ?_,
    fun l hl => hother l (hl id (List.mem_cons_self ..))⟩
  · rw [List.mem_singleton.mp ho]
    exact hkeeps.locate_eq hlocate
  · rw [List.mem_singleton.mp ho]
    exact hgone

/-- Removing the file of one identifier is refused, or nothing is there
    afterwards. -/
theorem run_retiring {store : Store} {directory : Path} (hleads : store.LeadsToDirectory directory)
    {id : String} (hslash : '/' ∉ id.toList) :
    (∃ fault, (retiring directory id).operation.run store = (store, some fault)) ∨
      ∃ after, (retiring directory id).operation.run store = (after, none) ∧
        Retired directory [id] store after := by
  have hplace := place_levelPath store directory hslash
  rcases Operation.run_remove store (levelPath directory id) with
    ⟨fault, hrun⟩ | ⟨hnone, hrun⟩ | ⟨content, hlocate, hfile, hrun⟩
  · exact Or.inl ⟨fault, hrun⟩
  · refine Or.inr ⟨store, hrun, ?_⟩
    -- The directory is there, so it is the file that is missing.
    rcases hnone with hmissing | ⟨hlocate, hnone⟩
    · exact absurd hmissing (hleads.locate_child_ne_notFound _ (isName_json hslash))
    · rw [hplace] at hlocate hnone
      exact retired_singleton (.refl store) hlocate hnone fun _ _ => rfl
  · rw [hplace] at hlocate hfile hrun
    refine Or.inr ⟨_, hrun, retired_singleton ⟨rfl, fun l hl => ?_⟩ hlocate
      (Store.find?_erase_self _ _ (levelPlace_ne_nil _ _))
      fun l hl => Store.find?_erase_other _ _ _ hl⟩
    rw [Store.find?_erase_other _ _ _ fun he => ?_, hl]
    rw [he, hfile] at hl
    exact absurd hl (by simp only [Option.some.injEq, reduceCtorEq, not_false_eq_true])

/-- One more identifier in front of retired ones. -/
theorem retired_cons {directory : Path} {id : String} {more : List String}
    {before mid after : Store} (hfirst : Retired directory [id] before mid)
    (hmore : Retired directory more mid after) : Retired directory (id :: more) before after := by
  rcases hmore with ⟨keeps, locate, gone, other⟩
  rw [hfirst.keeps.place_eq] at locate gone other
  have hother : ∀ l, l ≠ levelPlace (before.place directory) id → mid.find? l = before.find? l :=
    fun l hl => hfirst.other l fun d hd => by rwa [List.mem_singleton.mp hd]
  refine ⟨hfirst.keeps.trans keeps, fun d hd => ?_, fun d hd => ?_, fun l hl => ?_⟩
  · rcases List.mem_cons.mp hd with rfl | hd
    · exact keeps.locate_eq (hfirst.locate d (List.mem_cons_self ..))
    · exact locate d hd
  · by_cases hmem : d ∈ more
    · exact gone d hmem
    · rcases List.mem_cons.mp hd with rfl | hd
      · rw [other _ fun e he hplace => hmem (by rwa [levelPlace_inj hplace])]
        exact hfirst.gone d (List.mem_cons_self ..)
      · exact absurd hd hmem
  · rw [other l fun d hd => hl d (List.mem_cons_of_mem _ hd),
      hother l (hl id (List.mem_cons_self ..))]

theorem retired_nil (directory : Path) (store : Store) : Retired directory [] store store :=
  ⟨.refl store, fun _ h => absurd h List.not_mem_nil, fun _ h => absurd h List.not_mem_nil,
    fun _ _ => rfl⟩

/-- Retirement that succeeds leaves a retired store. -/
theorem retire_ok {directory : Path} {ids : List String} (hslash : ∀ id ∈ ids, '/' ∉ id.toList)
    {before after : Store} (hleads : before.LeadsToDirectory directory)
    (h : Step.runAll before (ids.map (retiring directory)) = (after, none)) :
    Retired directory ids before after := by
  induction ids generalizing before with
  | nil =>
      rw [← (Prod.mk.inj h).1]
      exact retired_nil directory before
  | cons id more ih =>
      rw [List.map_cons] at h
      rcases run_retiring hleads (hslash id (List.mem_cons_self ..)) with
        ⟨fault, hrun⟩ | ⟨mid, hrun, hfirst⟩
      · rw [Step.runAll_cons_error _ hrun] at h
        exact absurd (Prod.mk.inj h).2 (by simp only [reduceCtorEq, not_false_eq_true])
      · rw [Step.runAll_cons_ok _ hrun] at h
        exact retired_cons hfirst (ih (fun d hd => hslash d (List.mem_cons_of_mem _ hd))
          (hfirst.keeps.leadsToDirectory hleads) h)

/-- Retirement that fails stops at an identifier and leaves those before it
    retired. -/
theorem retire_error {directory : Path} {ids : List String}
    (hslash : ∀ id ∈ ids, '/' ∉ id.toList) {before after : Store} {error : OutputError}
    (hleads : before.LeadsToDirectory directory)
    (h : Step.runAll before (ids.map (retiring directory)) = (after, some error)) :
    ∃ front id behind, ids = front ++ id :: behind ∧ error.path = levelPath directory id ∧
      Retired directory front before after := by
  have hmake : ∀ (id : String) (made : Path),
      (retiring directory id).operation ≠ .ensureDirectory made := fun id made => by
    simp only [retiring, ne_eq, reduceCtorEq, not_false_eq_true]
  rcases Step.runAll_map_error hmake h with ⟨front, id, behind, hsplit, hpath, hfront⟩
  refine ⟨front, id, behind, hsplit, hpath, retire_ok (fun d hd => hslash d ?_) hleads hfront⟩
  rw [hsplit]
  exact List.mem_append_left _ hd

/-- Retirement succeeds if every path can be followed and no directory is in the
    way. -/
theorem retire_of_present {directory : Path} {ids : List String}
    (hslash : ∀ id ∈ ids, '/' ∉ id.toList) {before : Store}
    (hleads : before.LeadsToDirectory directory)
    (h : ∀ id ∈ ids,
      before.locate (levelPath directory id) = .ok (levelPlace (before.place directory) id) ∧
      before.find? (levelPlace (before.place directory) id) ≠ some .directory) :
    ∃ after, Step.runAll before (ids.map (retiring directory)) = (after, none) := by
  induction ids generalizing before with
  | nil => exact ⟨before, rfl⟩
  | cons id more ih =>
      have hs := hslash id (List.mem_cons_self ..)
      rcases h id (List.mem_cons_self ..) with ⟨hlocate, hdir⟩
      rw [← place_levelPath before directory hs] at hlocate hdir
      rcases run_retiring hleads hs with ⟨fault, hrun⟩ | ⟨mid, hrun, hfirst⟩
      · -- A removal of what is no directory cannot fail.
        have hok := (Operation.remove_ok hlocate hdir).1
        rw [show (Operation.remove (levelPath directory id)).run before = (before, some fault)
          from hrun] at hok
        exact absurd hok (by simp only [reduceCtorEq, not_false_eq_true])
      · rw [List.map_cons, Step.runAll_cons_ok _ hrun]
        refine ih (fun d hd => hslash d (List.mem_cons_of_mem _ hd))
          (hfirst.keeps.leadsToDirectory hleads) fun d hd => ?_
        rcases h d (List.mem_cons_of_mem _ hd) with ⟨hlocate', hdir'⟩
        rw [hfirst.keeps.place_eq]
        refine ⟨hfirst.keeps.locate_eq hlocate', ?_⟩
        -- What was removed before is not there any more, which does not stop a removal.
        by_cases he : d = id
        · rw [he, hfirst.gone id (List.mem_cons_self ..)]
          simp only [ne_eq, reduceCtorEq, not_false_eq_true]
        · rw [hfirst.other _ fun other ho hplace => he (by
            rw [levelPlace_inj hplace, List.mem_singleton.mp ho])]
          exact hdir'

end PuzzleLevel
