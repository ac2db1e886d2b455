import PuzzleLevel.Proofs.Directory

/-!
# What a Change Can Change

The four changes of a store, each described by its outcomes. All but the making of
directories are atomic here: they do what they are for, or they report a fault and
leave the store alone. Later proofs cite these outcomes and never look into the
operations again.

A change is about few locations, and all others are kept. These locations depend
on the text of the paths and on where relative paths start, which no change
alters, so they can be told for a whole list of changes before the first is made.

## Main definitions

* `Operation.touches`: The locations that a change is about.
* `Operation.way`: The locations where a change may make directories.
* `Operation.applyAll`: The store after a list of changes.

## Theorems

* `run_write`, `run_move`, `run_remove`: The outcomes of a change.
* `write_ok`, `move_ok`, `remove_ok`: When a change is not refused.
* `run_kept`: A change keeps every location that it is not about.
* `run_keepsDirectories`: A change takes no directory away.
* `applyAll_kept`: Changes keep every location that none of them is about.
-/

namespace PuzzleLevel

namespace Operation

/-- The locations that a change is about. -/
def touches (store : Store) : Operation → List Location
  | .ensureDirectory _ => []
  | .write p _ => [store.place p]
  | .move source target => [store.place source, store.place target]
  | .remove p => [store.place p]

/-- The locations where a change may make directories. -/
def way (store : Store) : Operation → List Location
  | .ensureDirectory directory => directory.ancestors.map store.place
  | .write _ _ => []
  | .move _ _ => []
  | .remove _ => []

/-- The store after a list of changes, whether they fail or not. -/
def applyAll (store : Store) : List Operation → Store
  | [] => store
  | operation :: more => applyAll (operation.run store).1 more

theorem applyAll_append (store : Store) (a b : List Operation) :
    applyAll store (a ++ b) = applyAll (applyAll store a) b := by
  induction a generalizing store with
  | nil => rfl
  | cons operation a ih => exact ih _

theorem touches_eq_of_here {before after : Store} (h : after.here = before.here)
    (operation : Operation) : operation.touches after = operation.touches before := by
  cases operation <;> simp only [touches, Store.place_eq_of_here h]

theorem way_eq_of_here {before after : Store} (h : after.here = before.here)
    (operation : Operation) : operation.way after = operation.way before := by
  cases operation with
  | ensureDirectory directory =>
      exact List.map_congr_left fun p _ => Store.place_eq_of_here h p
  | write p text => rfl
  | move source target => rfl
  | remove p => rfl

/-- Writing a file puts it at its place if nothing is missing and no directory
    stands there. -/
theorem write_ok {store : Store} {p : Path} (text : String)
    (hlocate : store.locate p = .ok (store.place p))
    (hdir : store.find? (store.place p) ≠ some .directory) :
    (write p text).run store = (store.put (store.place p) (.file (.text text)), none) := by
  rw [run, Store.writeFile, hlocate]
  cases hfind : store.find? (store.place p) with
  | none => simp only [hfind]
  | some entry =>
      cases entry with
      | directory => exact absurd hfind hdir
      | file content => simp only [hfind]

/-- Writing a file is refused or puts it at its place. -/
theorem run_write (store : Store) (p : Path) (text : String) :
    (∃ fault, (write p text).run store = (store, some fault)) ∨
      (store.locate p = .ok (store.place p) ∧ store.find? (store.place p) ≠ some .directory ∧
        (write p text).run store = (store.put (store.place p) (.file (.text text)), none)) := by
  cases hlocate : store.locate p with
  | error fault => exact Or.inl ⟨fault, by rw [run, Store.writeFile, hlocate]⟩
  | ok location =>
      rcases Store.locate_eq_place hlocate with rfl
      by_cases hdir : store.find? (store.place p) = some .directory
      · refine Or.inl ⟨.isDirectory, ?_⟩
        rw [run, Store.writeFile, hlocate]
        simp only [hdir]
      · exact Or.inr ⟨rfl, hdir, write_ok text hlocate hdir⟩

/-- Moving takes what stands at one place to another if nothing is missing and no
    directory stands there. -/
theorem move_ok {store : Store} {source target : Path} {entry : Entry}
    (hsource : store.locate source = .ok (store.place source))
    (htarget : store.locate target = .ok (store.place target))
    (hentry : store.find? (store.place source) = some entry)
    (hdir : store.find? (store.place target) ≠ some .directory) :
    (move source target).run store =
      ((store.erase (store.place source)).put (store.place target) entry, none) := by
  rw [run, Store.moveFile, hsource, htarget]
  cases hgoal : store.find? (store.place target) with
  | none => simp only [hentry, hgoal]
  | some other =>
      cases other with
      | directory => exact absurd hgoal hdir
      | file content => simp only [hentry, hgoal]

/-- Moving is refused or takes what stands at one place to another one, where no
    directory stands. -/
theorem run_move (store : Store) (source target : Path) :
    (∃ fault, (move source target).run store = (store, some fault)) ∨
      (∃ entry, store.locate source = .ok (store.place source) ∧
        store.locate target = .ok (store.place target) ∧
        store.find? (store.place source) = some entry ∧
        store.find? (store.place target) ≠ some .directory ∧
        (move source target).run store =
          ((store.erase (store.place source)).put (store.place target) entry, none)) := by
  cases hsource : store.locate source with
  | error fault =>
      exact Or.inl ⟨fault, by rw [run, Store.moveFile, hsource]⟩
  | ok start =>
      cases htarget : store.locate target with
      | error fault =>
          exact Or.inl ⟨fault, by rw [run, Store.moveFile, hsource, htarget]⟩
      | ok goal =>
          -- Both paths can be followed, so what matters is what stands at their ends.
          rcases Store.locate_eq_place hsource with rfl
          rcases Store.locate_eq_place htarget with rfl
          cases hstart : store.find? (store.place source) with
          | none =>
              refine Or.inl ⟨.notFound, ?_⟩
              rw [run, Store.moveFile, hsource, htarget]
              simp only [hstart]
          | some entry =>
              by_cases hdir : store.find? (store.place target) = some .directory
              · refine Or.inl ⟨.isDirectory, ?_⟩
                rw [run, Store.moveFile, hsource, htarget]
                simp only [hstart, hdir]
              · exact Or.inr ⟨entry, rfl, rfl, rfl, hdir, move_ok hsource htarget hstart hdir⟩

/-- What can be followed and is no directory is gone once it is removed. -/
theorem remove_ok {store : Store} {p : Path} (hlocate : store.locate p = .ok (store.place p))
    (hdir : store.find? (store.place p) ≠ some .directory) :
    ((remove p).run store).2 = none ∧
      ((remove p).run store).1.find? (store.place p) = none := by
  rw [run, Store.removeFile, hlocate]
  cases hfind : store.find? (store.place p) with
  | none =>
      simp only [hfind, and_self]
  | some entry =>
      cases entry with
      | directory => exact absurd hfind hdir
      | file content =>
          simp only [hfind, true_and]
          exact Store.find?_erase_self _ _ (Store.ne_nil_of_find?_ne_directory hdir)

/-- Removing a file is refused, finds nothing to remove, or removes it. -/
theorem run_remove (store : Store) (p : Path) :
    (∃ fault, (remove p).run store = (store, some fault)) ∨
      ((store.locate p = .error .notFound ∨
          (store.locate p = .ok (store.place p) ∧ store.find? (store.place p) = none)) ∧
        (remove p).run store = (store, none)) ∨
      (∃ content, store.locate p = .ok (store.place p) ∧
        store.find? (store.place p) = some (.file content) ∧
        (remove p).run store = (store.erase (store.place p), none)) := by
  cases hlocate : store.locate p with
  | error fault =>
      -- Only a path that leads nowhere is forgiven.
      have hremove : store.removeFile p = (store, some fault) := by
        rw [Store.removeFile, hlocate]
      by_cases hfault : fault = .notFound
      · refine Or.inr (Or.inl ⟨Or.inl (by rw [hfault]), ?_⟩)
        rw [run, hremove, hfault]
      · refine Or.inl ⟨fault, ?_⟩
        rw [run, hremove]
        cases fault with
        | notFound => exact absurd rfl hfault
        | _ => rfl
  | ok location =>
      have hplace := Store.locate_eq_place hlocate
      rw [← hplace]
      cases hfind : store.find? location with
      | none =>
          -- What is not there is forgiven as well.
          have hremove : store.removeFile p = (store, some .notFound) := by
            rw [Store.removeFile, hlocate]
            simp only [hfind]
          refine Or.inr (Or.inl ⟨Or.inr ⟨rfl, rfl⟩, ?_⟩)
          rw [run, hremove]
      | some entry =>
          cases entry with
          | directory =>
              have hremove : store.removeFile p = (store, some .isDirectory) := by
                rw [Store.removeFile, hlocate]
                simp only [hfind]
              exact Or.inl ⟨.isDirectory, by rw [run, hremove]⟩
          | file content =>
              have hremove : store.removeFile p = (store.erase location, none) := by
                rw [Store.removeFile, hlocate]
                simp only [hfind]
              exact Or.inr (Or.inr ⟨content, rfl, rfl, by rw [run, hremove]⟩)

/-- Making a directory where needed makes it, if that is no fault. -/
theorem ensureDirectory_eq {store : Store} {p : Path} (h : (store.makeDirectories p).2 = none) :
    (ensureDirectory p).run store = ((store.makeDirectories p).1, none) := by
  rw [run]
  by_cases hempty : p.chars.isEmpty = true
  · have hnone : store.makeDirectories p = (store, none) := by
      rw [Store.makeDirectories, Path.ancestors, Path.ancestorsUpTo, Store.makeDirectoriesAlong,
        if_pos hempty]
    rw [hempty, Bool.true_or, if_pos rfl, hnone]
  · by_cases hpresent : store.present p = true
    · rw [hpresent, Bool.or_true, if_pos rfl, Store.makeDirectories_of_present hpresent]
    · rw [if_neg (by rw [Bool.or_eq_true, not_or]; exact ⟨hempty, hpresent⟩), ← h]

theorem run_ensureDirectory (store : Store) (directory : Path) :
    Store.Grows (directory.ancestors.map store.place) store
      ((ensureDirectory directory).run store).1 := by
  rw [run]
  by_cases h : (directory.chars.isEmpty || store.present directory) = true
  · rw [if_pos h]
    exact Store.Grows.refl _ _
  · rw [if_neg h]
    exact Store.makeDirectories_grows store directory

theorem run_here (store : Store) (operation : Operation) :
    (operation.run store).1.here = store.here := by
  cases operation with
  | ensureDirectory directory => exact (run_ensureDirectory store directory).here_eq
  | write p text =>
      rcases run_write store p text with ⟨fault, h⟩ | ⟨_, _, h⟩
      · rw [h]
      · rw [h]; rfl
  | move source target =>
      rcases run_move store source target with ⟨fault, h⟩ | ⟨entry, _, _, _, _, h⟩
      · rw [h]
      · rw [h]; rfl
  | remove p =>
      rcases run_remove store p with ⟨fault, h⟩ | ⟨_, h⟩ | ⟨content, _, _, h⟩
      · rw [h]
      · rw [h]
      · rw [h]; rfl

/-- A change keeps every location that it is not about. -/
theorem run_kept {store : Store} {operation : Operation} {location : Location}
    (h : location ∉ operation.touches store) :
    Store.Kept (operation.way store) store (operation.run store).1 location := by
  cases operation with
  | ensureDirectory directory => exact (run_ensureDirectory store directory).kept location
  | write p text =>
      rw [touches, List.mem_singleton] at h
      rcases run_write store p text with ⟨fault, hrun⟩ | ⟨_, _, hrun⟩
      · rw [hrun]
        exact Store.kept_refl _ _ _
      · rw [hrun]
        exact Or.inl (Store.find?_put_other _ _ _ _ h)
  | move source target =>
      rw [touches, List.mem_cons, List.mem_singleton, not_or] at h
      rcases run_move store source target with ⟨fault, hrun⟩ | ⟨entry, _, _, _, _, hrun⟩
      · rw [hrun]
        exact Store.kept_refl _ _ _
      · rw [hrun]
        refine Or.inl ?_
        rw [Store.find?_put_other _ _ _ _ h.2, Store.find?_erase_other _ _ _ h.1]
  | remove p =>
      rw [touches, List.mem_singleton] at h
      rcases run_remove store p with ⟨fault, hrun⟩ | ⟨_, hrun⟩ | ⟨content, _, _, hrun⟩
      · rw [hrun]
        exact Store.kept_refl _ _ _
      · rw [hrun]
        exact Store.kept_refl _ _ _
      · rw [hrun]
        exact Or.inl (Store.find?_erase_other _ _ _ h)

/-- A change takes no directory away, unless it moves one. -/
theorem run_keepsDirectories {store : Store} {operation : Operation}
    (hmove : ∀ source target, operation = .move source target →
      store.find? (store.place source) ≠ some .directory) :
    store.KeepsDirectories (operation.run store).1 := by
  refine ⟨run_here store operation, fun location hdir => ?_⟩
  -- A location that the change is about is no directory, or the change fails.
  by_cases htouch : location ∈ operation.touches store
  · cases operation with
    | ensureDirectory directory => exact absurd htouch List.not_mem_nil
    | write p text =>
        rw [List.mem_singleton.mp htouch] at hdir ⊢
        rcases run_write store p text with ⟨fault, hrun⟩ | ⟨_, hne, hrun⟩
        · rw [hrun]
          exact hdir
        · exact absurd hdir hne
    | move source target =>
        rcases run_move store source target with ⟨fault, hrun⟩ | ⟨entry, _, _, _, hne, hrun⟩
        · rw [hrun]
          exact hdir
        · rw [touches, List.mem_cons, List.mem_singleton] at htouch
          rcases htouch with rfl | rfl
          · exact absurd hdir (hmove source target rfl)
          · exact absurd hdir hne
    | remove p =>
        rw [List.mem_singleton.mp htouch] at hdir ⊢
        rcases run_remove store p with ⟨fault, hrun⟩ | ⟨_, hrun⟩ | ⟨content, _, hfile, hrun⟩
        · rw [hrun]
          exact hdir
        · rw [hrun]
          exact hdir
        · rw [hfile] at hdir
          exact absurd hdir (by simp only [Option.some.injEq, reduceCtorEq, not_false_eq_true])
  · exact Store.find?_of_kept (run_kept htouch) hdir

/-- A removal changes nothing elsewhere. -/
theorem find?_remove_other (store : Store) (p : Path) {l : Location} (h : l ≠ store.place p) :
    ((remove p).run store).1.find? l = store.find? l := by
  have htouch : l ∉ (remove p).touches store := fun hl => h (List.mem_singleton.mp hl)
  rcases run_kept htouch with hkept | ⟨hway, _⟩
  · exact hkept
  · exact absurd hway List.not_mem_nil

theorem remove_keepsDirectories (store : Store) (p : Path) :
    store.KeepsDirectories ((remove p).run store).1 :=
  run_keepsDirectories fun _ _ he => by cases he

/-- Changes that move nothing take no directory away. -/
theorem applyAll_keepsDirectories {store : Store} {operations : List Operation}
    (h : ∀ operation ∈ operations, ∀ source target, operation ≠ .move source target) :
    store.KeepsDirectories (applyAll store operations) := by
  induction operations generalizing store with
  | nil => exact .refl store
  | cons operation more ih =>
      have hfirst : store.KeepsDirectories (operation.run store).1 :=
        run_keepsDirectories fun source target he =>
          absurd he (h operation (List.mem_cons_self ..) source target)
      exact hfirst.trans (ih fun other ho => h other (List.mem_cons_of_mem _ ho))

/-- Changes keep every location that none of them is about. -/
theorem applyAll_kept {way : List Location} {store : Store} {operations : List Operation}
    {location : Location} (htouch : ∀ operation ∈ operations, location ∉ operation.touches store)
    (hway : ∀ operation ∈ operations, operation.way store ⊆ way) :
    Store.Kept way store (applyAll store operations) location := by
  induction operations generalizing store with
  | nil => exact Store.kept_refl _ _ _
  | cons operation more ih =>
      have hhere := run_here store operation
      have hfirst : Store.Kept way store (operation.run store).1 location :=
        Store.kept_mono (hway operation (List.mem_cons_self ..))
          (run_kept (htouch operation (List.mem_cons_self ..)))
      refine Store.kept_trans hfirst (ih (fun other ho => ?_) fun other ho => ?_)
      · rw [touches_eq_of_here hhere]
        exact htouch other (List.mem_cons_of_mem _ ho)
      · rw [way_eq_of_here hhere]
        exact hway other (List.mem_cons_of_mem _ ho)

end Operation

end PuzzleLevel
