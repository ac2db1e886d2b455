import PuzzleLevel.Proofs.Release.Crash
import PuzzleLevel.Proofs.Release.Success

/-!
# Releasing the Same Again

A release that was not stopped leaves everything in place and nothing staged. It can be
made again from there: the directory is there, the names have just been found to be short
enough, and where files are to be put there are the same files. `Standing` says of a store
that a release stands in it, and this is all that a second run asks for.

The second run retires nothing, because it reads the index that the first one wrote. What
it stages it moves over the same texts, and what it makes is there already. So it ends
where it began, location by location. The two stores need not be the same as values, as
the order of the entries in a store tells the order in which they were written.

## Main definitions

* `Standing`: A store in which a release stands.

## Theorems

* `standing_of_run_ok`: A release that was not stopped stands.
* `Standing.stages`, `Standing.promotes`: It can be staged and promoted again.
* `Standing.run`: Releasing what stands changes nothing.
-/

namespace PuzzleLevel

namespace Release

/-- A store in which a release stands: everything is in place, and nothing is staged. -/
structure Standing (release : Release) (store : Store) : Prop where
  /-- No identifier has a slash in it. -/
  slash : ∀ id ∈ release.order, '/' ∉ id.toList
  /-- No name stands twice. -/
  nodup : (release.contents.map Prod.fst).Nodup
  /-- The directory is there. -/
  leads : store.LeadsToDirectory release.directory
  /-- Everything is in place. -/
  file : ∀ c ∈ release.contents, InPlace (release.home store) store c
  /-- Nothing is staged. -/
  unstaged : ∀ c ∈ release.contents, store.find? (stagedPlace (release.home store) c.1) = none
  /-- Every path can be followed. -/
  locate : ∀ c ∈ release.contents,
    store.locate (levelPath release.directory c.1) = .ok (levelPlace (release.home store) c.1)
  /-- So can that of every staging file. -/
  locateStaged : ∀ c ∈ release.contents,
    store.locate (Artifact.ofName release.directory c).staged =
      .ok (stagedPlace (release.home store) c.1)

variable {release : Release} {store : Store}

-- A name that could be followed once can be followed wherever the directory is there.
theorem locate_child_again {before after : Store} {p : Path} {name : String} {l : Location}
    (hname : Path.IsName name.toList) (hbefore : before.locate (p.child name) = .ok l)
    (hleads : after.LeadsToDirectory p) :
    after.locate (p.child name) = .ok (after.place p ++ [name.toList]) := by
  rcases (Store.locate_child_iff hname).mp hbefore with ⟨_, hfault, hlong, _⟩
  exact (Store.locate_child_iff hname).mpr ⟨hleads, hfault, hlong, rfl⟩

/-- A release that was not stopped stands, if it retired none of its own names. -/
theorem standing_of_run_ok {before after : Store} {outputs : List Path}
    (hslash : ∀ id ∈ release.order, '/' ∉ id.toList)
    (hstays : ∀ c ∈ release.contents, c.1 ∉ release.leaving before)
    (h : release.run before = (after, .ok outputs)) : release.Standing after := by
  have hcontents : ∀ c ∈ release.contents, '/' ∉ c.1.toList :=
    fun c hc => noSlash_of_mem_contents hslash hc
  have hreleased := (run_ok hslash h).1
  have hhome : release.home after = release.home before := hreleased.keeps.place_eq _
  refine ⟨hslash, hreleased.nodup, hreleased.leads, fun c hc => ?_, fun c hc => ?_,
    fun c hc => ?_, fun c hc => ?_⟩
  · rw [hhome]
    exact hreleased.file c hc (hstays c hc)
  · rw [hhome]
    exact hreleased.unstaged c hc
  · rw [hhome]
    exact hreleased.locate c hc
  · -- The staging file could be followed when it was staged.
    rcases phases_of_run_ok hslash h with ⟨_, staged, _, _, hstaged, _, _⟩
    have hlocate := hstaged.locate c hc
    rw [staged_ofName _ (hcontents c hc)] at hlocate ⊢
    rw [locate_child_again (isName_stagedName (hcontents c hc)) hlocate
      (Store.leadsToDirectory_bare.mpr hreleased.leads), Store.place_bare]
    rfl

namespace Standing

variable (h : release.Standing store)

include h

theorem noSlash : ∀ c ∈ release.contents, '/' ∉ c.1.toList :=
  fun _ hc => noSlash_of_mem_contents h.slash hc

/-- The bare path of the directory can be used, because a longer one can. -/
theorem usable : release.directory.bare.chars = [] ∨
    Store.pathFault? release.directory.bare = none := by
  have hname := isName_stagedName (h.noSlash _ release.mem_contents_index)
  have hlocate := h.locateStaged _ release.mem_contents_index
  rw [staged_ofName _ (h.noSlash _ release.mem_contents_index)] at hlocate
  rcases (Store.locate_child_iff hname).mp hlocate with ⟨_, hfault, _, _⟩
  rcases Path.prefix_child release.directory.bare _ hname with ⟨more, hmore⟩
  by_cases hempty : release.directory.bare.chars = []
  · exact Or.inl hempty
  · exact Or.inr (Store.pathFault?_front hmore.symm hempty hfault)

/-- A release that stands can be staged. -/
theorem stages : ∃ staged, stage store [] release.artifacts = (staged, none) := by
  rw [artifacts_eq]
  refine stage_of_unblocked h.noSlash h.usable h.leads (fun c hc => ⟨h.locateStaged c hc, ?_⟩) []
  rw [show store.find? (stagedPlace (store.place release.directory) c.1) = none
    from h.unstaged c hc]
  simp only [ne_eq, reduceCtorEq, not_false_eq_true]

/-- It can be promoted then: where its files go, there are files. -/
theorem promotes {staged : Store}
    (hstaged : Staged release.directory release.contents store staged) :
    ∃ promoted, Step.runAll staged release.promotion = (promoted, none) := by
  rw [promotion_eq]
  refine promote_of_staged h.noSlash h.nodup (fun c hc => ?_) fun c hc => ?_
  · rw [hstaged.keeps.place_eq]
    rcases hstaged.file c hc with ⟨d, _, _, hfile⟩
    exact ⟨hstaged.locate c hc, _, hfile⟩
  · rw [hstaged.keeps.place_eq]
    refine ⟨hstaged.keeps.locate_eq (h.locate c hc), ?_⟩
    rw [find?_of_staged h.leads hstaged fun _ _ => levelPlace_ne_stagedPlace _ _ _,
      show store.find? (levelPlace (store.place release.directory) c.1) = _ from h.file c hc]
    simp only [ne_eq, Option.some.injEq, reduceCtorEq, not_false_eq_true]

theorem run_succeeds :
    release.run store = ((release.run store).1, .ok (release.artifacts.map Artifact.path)) := by
  rcases h.stages with ⟨staged, hstage⟩
  have hstaged := stage_ok h.noSlash (artifacts_eq release ▸ hstage)
  rcases h.promotes hstaged with ⟨promoted, hpromote⟩
  -- The index lists the levels of this release, so none of them leaves.
  have hnone : release.retirement (previousOrder store release.directory) = [] := by
    rw [retirement_eq, ← leaving, leaving_eq_nil (h.file _ release.mem_contents_index),
      List.map_nil]
  rw [Release.run, hstage]
  simp only [hnone, List.append_nil, hpromote]

/-- Releasing what stands succeeds and changes nothing. -/
theorem run : ∃ again,
    release.run store = (again, .ok (release.artifacts.map Artifact.path)) ∧
      again.here = store.here ∧ ∀ l, again.find? l = store.find? l := by
  have hrun := h.run_succeeds
  have hreleased := (run_ok h.slash hrun).1
  rw [leaving_eq_nil (h.file _ release.mem_contents_index)] at hreleased
  refine ⟨_, hrun, hreleased.keeps.here_eq, fun l => ?_⟩
  by_cases hlevel : ∃ c ∈ release.contents, l = levelPlace (release.home store) c.1
  · -- The same text was put there again.
    rcases hlevel with ⟨c, hc, rfl⟩
    exact (hreleased.file c hc List.not_mem_nil).trans (h.file c hc).symm
  · by_cases hstage : ∃ c ∈ release.contents, l = stagedPlace (release.home store) c.1
    · rcases hstage with ⟨c, hc, rfl⟩
      rw [hreleased.unstaged c hc, h.unstaged c hc]
    · -- All else is kept, and the way to the directory is there.
      exact find?_of_kept_of_leads h.leads (hreleased.kept l
        (fun c hc => ⟨fun he => hlevel ⟨c, hc, he⟩, fun he => hstage ⟨c, hc, he⟩⟩)
        fun _ hid => absurd hid List.not_mem_nil)

end Standing

end Release

end PuzzleLevel
