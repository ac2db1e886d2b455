import PuzzleLevel.Proofs.Release.Artifacts
import PuzzleLevel.Proofs.Release.Steps

/-!
# Staging

The first phase of a release writes every artifact under its staging name and
touches nothing else. `Staged` says what a store is like when a list of contents
has been staged: each staging file is there with a text that was staged under its
name, and every other location is kept. It says "a text" because two contents
may share a name; then the later one is what remains.

When an artifact cannot be staged, the ones before it are discarded, so the store
is the one before but for directories made on the way and for the staging places,
at which nothing is left of what was staged. `stage_error` puts it as a staged
prefix followed by a discard.

## Main definitions

* `Staged`: What a store is like after staging.
* `wayTo`: Where staging may make directories.

## Theorems

* `stage_ok`: Staging that succeeds leaves a staged store.
* `stage_error`: Staging that fails discards a staged prefix.
* `discard_find?`: What is discarded is gone.
-/

namespace PuzzleLevel

/-- The locations where a release into a directory may make directories. -/
def wayTo (store : Store) (directory : Path) : List Location :=
  directory.bare.ancestors.map store.place

/-- What a store is like after contents were staged in a directory. -/
structure Staged (directory : Path) (contents : List (String × String)) (before after : Store) :
    Prop where
  /-- No directory is lost. -/
  keeps : before.KeepsDirectories after
  /-- Locations other than the staging places are kept. -/
  kept : ∀ l, (∀ c ∈ contents, l ≠ stagedPlace (before.place directory) c.1) →
    Store.Kept (wayTo before directory) before after l
  /-- At each staging place stands a text that was staged there. -/
  file : ∀ c ∈ contents, ∃ d ∈ contents, d.1 = c.1 ∧
    after.find? (stagedPlace (before.place directory) c.1) = some (.file (.text d.2))
  /-- Each staging path can be followed. -/
  locate : ∀ c ∈ contents,
    after.locate (Artifact.ofName directory c).staged =
      .ok (stagedPlace (before.place directory) c.1)

theorem wayTo_eq_of_here {before after : Store} (h : after.here = before.here)
    (directory : Path) : wayTo after directory = wayTo before directory :=
  List.map_congr_left fun p _ => Store.place_eq_of_here h p

theorem staged_nil (directory : Path) (store : Store) : Staged directory [] store store :=
  ⟨.refl store, fun _ _ => Store.kept_refl _ _ _, fun _ h => absurd h List.not_mem_nil,
    fun _ h => absurd h List.not_mem_nil⟩

namespace Artifact

/-- Staging one artifact makes its directory and writes it, or it stops after
    directories were made. -/
theorem runAll_staging (store : Store) (directory : Path) {content : String × String}
    (h : '/' ∉ content.1.toList) :
    ∃ made, Store.Grows (wayTo store directory) store made ∧
      ((∃ fault, Step.runAll store (ofName directory content).staging =
          (made, some ⟨(ofName directory content).staged, fault⟩)) ∨
        (made.find? (stagedPlace (store.place directory) content.1) ≠ some .directory ∧
          made.locate (ofName directory content).staged =
            .ok (stagedPlace (store.place directory) content.1) ∧
          Step.runAll store (ofName directory content).staging =
            (made.put (stagedPlace (store.place directory) content.1)
              (.file (.text content.2)), none))) := by
  have hgrows := Operation.run_ensureDirectory store directory.bare
  rw [staging, parent?_staged directory h]
  rcases hmake : (Operation.ensureDirectory directory.bare).run store with ⟨made, _ | fault⟩
  · rw [hmake] at hgrows
    refine ⟨made, hgrows, ?_⟩
    rw [Step.runAll_cons_ok _ hmake]
    have hplace : made.place (ofName directory content).staged =
        stagedPlace (store.place directory) content.1 := by
      rw [place_staged made directory h, Store.place_eq_of_here hgrows.here_eq]
    -- With the directory there, the write alone decides.
    rcases Operation.run_write made (ofName directory content).staged content.2 with
      ⟨fault, hwrite⟩ | ⟨hlocate, hdir, hwrite⟩
    · exact Or.inl ⟨fault, Step.runAll_cons_error _ hwrite⟩
    · rw [hplace] at hlocate hdir hwrite
      refine Or.inr ⟨hdir, hlocate, ?_⟩
      rw [Step.runAll_cons_ok _ hwrite, Step.runAll_nil]
  · rw [hmake] at hgrows
    exact ⟨made, hgrows, Or.inl ⟨fault, Step.runAll_cons_error _ hmake⟩⟩

end Artifact

/-- One more content in front of staged ones. -/
theorem staged_cons {directory : Path} {content : String × String}
    {more : List (String × String)} {before made after : Store}
    (hgrows : Store.Grows (wayTo before directory) before made)
    (hdir : made.find? (stagedPlace (before.place directory) content.1) ≠ some .directory)
    (hlocate : made.locate (Artifact.ofName directory content).staged =
      .ok (stagedPlace (before.place directory) content.1))
    (hmore : Staged directory more
      (made.put (stagedPlace (before.place directory) content.1) (.file (.text content.2))) after) :
    Staged directory (content :: more) before after := by
  set home := before.place directory with hhome
  set written := made.put (stagedPlace home content.1) (.file (.text content.2)) with hwritten
  -- The write has not moved the directory.
  have hhere : written.here = before.here := hgrows.here_eq
  have hplace : written.place directory = home := Store.place_eq_of_here hhere directory
  have hway : wayTo written directory = wayTo before directory := wayTo_eq_of_here hhere directory
  have hfind : written.find? (stagedPlace home content.1) = some (.file (.text content.2)) :=
    Store.find?_put_self _ _ _ (Store.ne_nil_of_find?_ne_directory hdir)
  have hkeeps : made.KeepsDirectories written := by
    refine ⟨rfl, fun l hl => ?_⟩
    have hne : l ≠ stagedPlace home content.1 := fun he => hdir (he ▸ hl)
    rw [hwritten, Store.find?_put_other _ _ _ _ hne, hl]
  refine ⟨(hgrows.keepsDirectories.trans hkeeps).trans hmore.keeps, fun l hl => ?_,
    fun c hc => ?_, fun c hc => ?_⟩
  · -- Neither the directories nor the write changed anything else.
    have hne := hl content (List.mem_cons_self ..)
    have hfirst : Store.Kept (wayTo before directory) before written l :=
      Store.kept_trans (hgrows.kept l) (Or.inl (Store.find?_put_other _ _ _ _ hne))
    have hrest := hmore.kept l fun c hc => by
      rw [hplace]
      exact hl c (List.mem_cons_of_mem _ hc)
    rw [hway] at hrest
    exact Store.kept_trans hfirst hrest
  · -- A later content of the same name is what remains, if there is one.
    by_cases hlater : ∃ d ∈ more, d.1 = c.1
    · rcases hlater with ⟨d, hd, hdc⟩
      rcases hmore.file d hd with ⟨e, he, hed, hfile⟩
      rw [hplace, hdc] at hfile
      exact ⟨e, List.mem_cons_of_mem _ he, hed.trans hdc, hfile⟩
    · rcases List.mem_cons.mp hc with rfl | hc
      · refine ⟨c, List.mem_cons_self .., rfl, ?_⟩
        refine Store.find?_of_kept (hmore.kept _ fun d hd he => ?_) hfind
        rw [hplace] at he
        exact hlater ⟨d, hd, (stagedPlace_inj he).symm⟩
      · exact absurd ⟨c, hc, rfl⟩ hlater
  · -- The staging file can still be followed, because no directory is lost.
    rcases List.mem_cons.mp hc with rfl | hc
    · exact (hkeeps.trans hmore.keeps).locate_eq hlocate
    · have hlater := hmore.locate c hc
      rw [hplace] at hlater
      exact hlater

namespace Release

/-- Staging that succeeds leaves a staged store. -/
theorem stage_ok {directory : Path} {contents : List (String × String)}
    (hslash : ∀ c ∈ contents, '/' ∉ c.1.toList) {before after : Store} {written : List Path}
    (h : stage before written (contents.map (Artifact.ofName directory)) = (after, none)) :
    Staged directory contents before after := by
  induction contents generalizing before written with
  | nil =>
      rw [← (Prod.mk.inj h).1]
      exact staged_nil directory before
  | cons content more ih =>
      rcases Artifact.runAll_staging before directory (hslash content (List.mem_cons_self ..)) with
        ⟨made, hgrows, ⟨fault, hrun⟩ | ⟨hdir, hlocate, hrun⟩⟩
      · rw [List.map_cons, stage, hrun] at h
        exact absurd (Prod.mk.inj h).2 (by simp only [reduceCtorEq, not_false_eq_true])
      · rw [List.map_cons, stage, hrun] at h
        exact staged_cons hgrows hdir hlocate
          (ih (fun c hc => hslash c (List.mem_cons_of_mem _ hc)) h)

/-- Staging that fails stops at an artifact, after directories were made for it,
    and discards the staged prefix before it. -/
theorem stage_error {directory : Path} {contents : List (String × String)}
    (hslash : ∀ c ∈ contents, '/' ∉ c.1.toList) {before after : Store} {written : List Path}
    {error : OutputError}
    (h : stage before written (contents.map (Artifact.ofName directory)) = (after, some error)) :
    ∃ front content behind staged made, contents = front ++ content :: behind ∧
      error.path = (Artifact.ofName directory content).staged ∧
      Staged directory front before staged ∧
      Store.Grows (wayTo before directory) staged made ∧
      after = discard made
        (written ++ front.map fun c => (Artifact.ofName directory c).staged) := by
  induction contents generalizing before written with
  | nil => exact absurd (Prod.mk.inj h).2 (by simp only [reduceCtorEq, not_false_eq_true])
  | cons content more ih =>
      rcases Artifact.runAll_staging before directory (hslash content (List.mem_cons_self ..)) with
        ⟨made, hgrows, ⟨fault, hrun⟩ | ⟨hdir, hlocate, hrun⟩⟩
      · -- The first content is the one that is refused.
        rw [List.map_cons, stage, hrun] at h
        simp only [Prod.mk.injEq, Option.some.injEq] at h
        refine ⟨[], content, more, before, made, rfl, ?_, staged_nil directory before, hgrows, ?_⟩
        · rw [← h.2]
        · rw [← h.1, List.map_nil, List.append_nil]
      · -- It was staged, so a later one is refused.
        rw [List.map_cons, stage, hrun] at h
        rcases ih (fun c hc => hslash c (List.mem_cons_of_mem _ hc)) h with
          ⟨front, stopped, behind, staged, made', hmore, herror, hstaged, hgrows', hafter⟩
        refine ⟨content :: front, stopped, behind, staged, made', by rw [hmore]; rfl, herror,
          staged_cons hgrows hdir hlocate hstaged, ?_, ?_⟩
        · rwa [wayTo_eq_of_here (show (Store.put _ _ _).here = before.here from hgrows.here_eq)]
            at hgrows'
        · rw [hafter, List.map_cons, List.append_assoc]
          rfl

theorem discard_eq (store : Store) (paths : List Path) :
    discard store paths = Operation.applyAll store (paths.map .remove) := by
  induction paths generalizing store with
  | nil => rfl
  | cons path more ih => exact ih _

/-- Discarding keeps every location that no discarded path leads to. -/
theorem discard_kept {store : Store} {paths : List Path} {location : Location}
    (h : ∀ p ∈ paths, location ≠ store.place p) :
    (discard store paths).find? location = store.find? location := by
  induction paths generalizing store with
  | nil => rfl
  | cons first more ih =>
      rw [discard, ih fun p hp => ?_, Operation.find?_remove_other store first
        (h first (List.mem_cons_self ..))]
      rw [(Operation.remove_keepsDirectories store first).place_eq]
      exact h p (List.mem_cons_of_mem _ hp)

/-- What can be followed and is no directory is gone once it is discarded. -/
theorem discard_find? {store : Store} {paths : List Path}
    (h : ∀ p ∈ paths, store.locate p = .ok (store.place p) ∧
      store.find? (store.place p) ≠ some .directory) {p : Path} (hp : p ∈ paths) :
    (discard store paths).find? (store.place p) = none := by
  induction paths generalizing store p with
  | nil => exact absurd hp List.not_mem_nil
  | cons first more ih =>
      have hkeeps := Operation.remove_keepsDirectories store first
      rcases h first (List.mem_cons_self ..) with ⟨hlocate, hdir⟩
      have hgone := (Operation.remove_ok hlocate hdir).2
      rw [discard]
      -- A path may lead where another does; then the later removal finds nothing.
      by_cases hlater : ∃ q ∈ more, store.place q = store.place p
      · rcases hlater with ⟨q, hq, hqp⟩
        rw [← hqp, ← hkeeps.place_eq q]
        refine ih (fun r hr => ?_) hq
        rcases h r (List.mem_cons_of_mem _ hr) with ⟨hlocate', hdir'⟩
        rw [hkeeps.place_eq]
        refine ⟨hkeeps.locate_eq hlocate', ?_⟩
        by_cases he : store.place r = store.place first
        · -- The removal has already taken it away.
          rw [he, hgone]
          simp only [ne_eq, reduceCtorEq, not_false_eq_true]
        · rw [Operation.find?_remove_other store first he]
          exact hdir'
      · rw [discard_kept fun q hq he => hlater ⟨q, hq, by rw [← hkeeps.place_eq q, he]⟩]
        rcases List.mem_cons.mp hp with rfl | hp
        · exact hgone
        · exact absurd ⟨p, hp, rfl⟩ hlater

end Release

end PuzzleLevel
