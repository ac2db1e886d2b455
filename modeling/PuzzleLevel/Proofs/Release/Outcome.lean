import Mathlib.Data.List.Nodup
import PuzzleLevel.Proofs.Release.Retirement

/-!
# How a Release Ends

A release ends in one of four ways: it is stopped while it stages, while it
promotes or while it retires, or it is not stopped. `Interrupted` has a
constructor for each of the first three, with what is then known of every
location, and `Released` is the fourth.

Stopped while it stages, a release has changed nothing but staging places and
directories on the way. Stopped while it promotes, it has put complete texts in
the place of some artifacts, and there is no way back. Stopped while it retires,
all artifacts are in place and some of the files that are gone from the order are
still there.

No artifact is half written in any of these cases, because it comes to its place by
a move, when all of it has been written. A staging file can be, on a disk that is
full: the one at which the release stopped, since only those before it are discarded.
No write of a store does half of its work, so this cannot come out of `run` here.
`Interrupted` makes room for it all the same, and promises of that one staging place
only what is true on every disk.

## Main definitions

* `Interrupted`: What a release that was stopped has left.
* `Advanced`: What it has left behind staging.
* `Released`: What a release that was not stopped has left.

## Theorems

* `previousOrder_of_not_leads`: Without a directory there is no old index.
* `interrupted_of_stage`, `interrupted_of_promotion`, `interrupted_of_retirement`: What is
  left behind each phase that is stopped.
* `run_error`: A release that is stopped is interrupted.
* `phases_of_run_ok`: A release that is not stopped has gone through its phases.
* `run_ok`: A release that is not stopped is released.
* `Released.entryAt`: Every artifact is found by its path.
-/

namespace PuzzleLevel

/-- The content stands in a directory under its name. -/
def InPlace (home : Location) (store : Store) (content : String × String) : Prop :=
  store.find? (levelPlace home content.1) = some (.file (.text content.2))

/-- A location is neither the place nor the staging place of a content. -/
def Apart (home : Location) (contents : List (String × String)) (l : Location) : Prop :=
  ∀ c ∈ contents, l ≠ levelPlace home c.1 ∧ l ≠ stagedPlace home c.1

/-- Where there is no directory there is no old index. -/
theorem previousOrder_of_not_leads {store : Store} {directory : Path}
    (h : ¬ store.LeadsToDirectory directory) : previousOrder store directory = [] := by
  have hname : Path.IsName indexFileName.toList := isName_json (by decide : '/' ∉ indexName.toList)
  rw [previousOrder, Store.readText, Store.entryAt]
  cases hlocate : store.locate (directory.child indexFileName) with
  | error fault => rfl
  | ok location => exact absurd ((Store.locate_child_iff hname).mp hlocate).1 h

namespace Release

/-- Where the files of a release go. -/
def home (release : Release) (store : Store) : Location :=
  store.place release.directory

/-- The identifiers that a release retires from a store. -/
def leaving (release : Release) (store : Store) : List String :=
  release.retired (previousOrder store release.directory)

/-- What a release that was stopped has left, by the path that is blamed. -/
inductive Interrupted (release : Release) (before after : Store) : Path → Prop
  /-- While `stopped` was staged: what was staged before it is gone, and all else
      is kept. Only in its own staging place there may be a file with what was written
      until then. -/
  | staging (front : List (String × String)) (stopped : String × String)
      (behind : List (String × String)) :
      release.contents = front ++ stopped :: behind →
      (∀ c ∈ front, after.find? (stagedPlace (release.home before) c.1) = none) →
      (∀ l, (∀ c ∈ front, l ≠ stagedPlace (release.home before) c.1) →
        Store.Kept (wayTo before release.directory) before after l ∨
          l = stagedPlace (release.home before) stopped.1 ∧
            ∃ content, after.find? l = some (.file content)) →
      Interrupted release before after (Artifact.ofName release.directory stopped).staged
  /-- While `stopped` was promoted: what comes before it is in place, and all else
      but the staging places is kept. -/
  | promotion (front : List (String × String)) (stopped : String × String)
      (behind : List (String × String)) :
      release.contents = front ++ stopped :: behind →
      (∀ c ∈ front, ∃ d ∈ release.contents, d.1 = c.1 ∧ InPlace (release.home before) after d) →
      (∀ l, (∀ c ∈ release.contents, l ≠ stagedPlace (release.home before) c.1) →
        (∀ c ∈ front, l ≠ levelPlace (release.home before) c.1) →
        Store.Kept (wayTo before release.directory) before after l) →
      Interrupted release before after (Artifact.ofName release.directory stopped).path
  /-- While `stopped` was retired: everything is in place, what leaves before it is
      gone, and all else is kept. -/
  | retirement (front : List String) (stopped : String) (behind : List String) :
      release.leaving before = front ++ stopped :: behind →
      (∀ c ∈ release.contents, c.1 ∉ front → InPlace (release.home before) after c) →
      (∀ id ∈ front, after.find? (levelPlace (release.home before) id) = none) →
      (∀ l, Apart (release.home before) release.contents l →
        (∀ id ∈ front, l ≠ levelPlace (release.home before) id) →
        Store.Kept (wayTo before release.directory) before after l) →
      Interrupted release before after (levelPath release.directory stopped)

/-- What a release has left behind staging, when the contents in `front` were
    promoted and then the identifiers in `ids` retired. -/
structure Advanced (release : Release) (front : List (String × String)) (ids : List String)
    (before after : Store) : Prop where
  /-- No directory is lost. -/
  keeps : before.KeepsDirectories after
  /-- What was promoted is in place unless it was retired. -/
  file : ∀ c ∈ front, c.1 ∉ ids →
    ∃ d ∈ release.contents, d.1 = c.1 ∧ InPlace (release.home before) after d
  /-- No staging file is left of what was promoted. -/
  unstaged : ∀ c ∈ front, after.find? (stagedPlace (release.home before) c.1) = none
  /-- What was retired is gone. -/
  gone : ∀ id ∈ ids, after.find? (levelPlace (release.home before) id) = none
  /-- All else but the staging places is kept. -/
  kept : ∀ l, (∀ c ∈ release.contents, l ≠ stagedPlace (release.home before) c.1) →
    (∀ c ∈ front, l ≠ levelPlace (release.home before) c.1) →
    (∀ id ∈ ids, l ≠ levelPlace (release.home before) id) →
    Store.Kept (wayTo before release.directory) before after l

/-- What a release that was not stopped has left, when it retired the given
    identifiers. -/
structure Released (release : Release) (leaving : List String) (before after : Store) : Prop where
  /-- No directory is lost. -/
  keeps : before.KeepsDirectories after
  /-- The directory is there. -/
  leads : after.LeadsToDirectory release.directory
  /-- No name stands twice. -/
  nodup : (release.contents.map Prod.fst).Nodup
  /-- Everything that does not leave is in place. -/
  file : ∀ c ∈ release.contents, c.1 ∉ leaving → InPlace (release.home before) after c
  /-- No staging file is left. -/
  unstaged : ∀ c ∈ release.contents,
    after.find? (stagedPlace (release.home before) c.1) = none
  /-- What leaves is gone. -/
  gone : ∀ id ∈ leaving, after.find? (levelPlace (release.home before) id) = none
  /-- All else is kept. -/
  kept : ∀ l, Apart (release.home before) release.contents l →
    (∀ id ∈ leaving, l ≠ levelPlace (release.home before) id) →
    Store.Kept (wayTo before release.directory) before after l
  /-- Every path can be followed. -/
  locate : ∀ c ∈ release.contents,
    after.locate (levelPath release.directory c.1) = .ok (levelPlace (release.home before) c.1)
  /-- So can every path that is retired. -/
  locateLeaving : ∀ id ∈ leaving,
    after.locate (levelPath release.directory id) = .ok (levelPlace (release.home before) id)

theorem promotion_eq (release : Release) :
    release.promotion = promotionOf release.directory release.contents := by
  rw [promotion, artifacts_eq, List.map_map]
  rfl

theorem retirement_eq (release : Release) (previous : List String) :
    release.retirement previous =
      (release.retired previous).map (retiring release.directory) := rfl

/-- The content of the index of a release. -/
def indexContent (release : Release) : String × String :=
  (indexName, (release.index.document release.order).indented)

theorem mem_contents_index (release : Release) : release.indexContent ∈ release.contents :=
  List.mem_append_right _ (List.mem_singleton_self _)

theorem noSlash_of_isPlainId {id : String} (h : isPlainId id = true) : '/' ∉ id.toList := by
  intro hmem
  rw [isPlainId, Bool.and_eq_true, Bool.not_eq_true', List.any_eq_false] at h
  exact h.2 '/' hmem (by decide)

theorem noSlash_of_mem_retired {release : Release} {previous : List String} {id : String}
    (h : id ∈ release.retired previous) : '/' ∉ id.toList := by
  rw [retired, List.mem_filter, Bool.and_eq_true] at h
  exact noSlash_of_isPlainId h.2.2

theorem mem_leaving {release : Release} {before : Store} {id : String} :
    id ∈ release.leaving before ↔
      id ∈ previousOrder before release.directory ∧ id ∉ release.order ∧ isPlainId id = true := by
  rw [leaving, retired, List.mem_filter, Bool.and_eq_true, Bool.not_eq_true',
    List.contains_eq_mem, decide_eq_false_iff_not]

/-- What a release retires is neither an identifier of its own nor, if the old
    index does not list that, the name of the index. -/
theorem notMem_leaving {release : Release} {before : Store}
    (hlength : release.order.length = release.index.levels.length)
    (hprevious : indexName ∉ previousOrder before release.directory)
    {c : String × String} (hc : c ∈ release.contents) : c.1 ∉ release.leaving before := by
  intro hmem
  rcases mem_leaving.mp hmem with ⟨hlisted, hgone, _⟩
  have hname : c.1 ∈ release.order ++ [indexName] := by
    rw [← names_contents hlength]
    exact List.mem_map_of_mem hc
  rcases List.mem_append.mp hname with hid | hindex
  · exact hgone hid
  · rw [List.mem_singleton.mp hindex] at hlisted
    exact hprevious hlisted

/-- The first release into a directory retires nothing. -/
theorem leaving_of_not_leads {release : Release} {before : Store}
    (h : ¬ before.LeadsToDirectory release.directory) : release.leaving before = [] := by
  rw [leaving, retired, previousOrder_of_not_leads h, List.filter_nil]

/-- A staged store leads to the directory, because the index was staged in it. -/
theorem leads_of_staged {release : Release} (hslash : ∀ id ∈ release.order, '/' ∉ id.toList)
    {before staged : Store} (h : Staged release.directory release.contents before staged) :
    staged.LeadsToDirectory release.directory := by
  have hindex := release.mem_contents_index
  have hlocate := h.locate _ hindex
  rw [staged_ofName _ (noSlash_of_mem_contents hslash hindex)] at hlocate
  rw [← Store.leadsToDirectory_bare]
  exact ((Store.locate_child_iff
    (isName_stagedName (noSlash_of_mem_contents hslash hindex))).mp hlocate).1

/-- The phases of a release, up to the one that ends it. -/
theorem run_phases {release : Release} {before after : Store}
    {result : Except OutputError (List Path)} (h : release.run before = (after, result)) :
    (∃ error, result = .error error ∧
        stage before [] release.artifacts = (after, some error)) ∨
      ∃ staged, stage before [] release.artifacts = (staged, none) ∧
        ((∃ error, result = .error error ∧
            Step.runAll staged release.promotion = (after, some error)) ∨
          ∃ promoted, Step.runAll staged release.promotion = (promoted, none) ∧
            ((∃ error, result = .error error ∧
                Step.runAll promoted ((release.leaving before).map (retiring release.directory)) =
                  (after, some error)) ∨
              (result = .ok (release.artifacts.map Artifact.path) ∧
                Step.runAll promoted ((release.leaving before).map (retiring release.directory)) =
                  (after, none)))) := by
  rw [run] at h
  simp only [] at h
  rcases hstage : stage before [] release.artifacts with ⟨staged, _ | error⟩
  · rw [hstage] at h
    simp only [] at h
    refine Or.inr ⟨staged, rfl, ?_⟩
    -- Promotion and retirement run as one list, so it is split where the one ends.
    rcases hrun : Step.runAll staged
        (release.promotion ++ release.retirement (previousOrder before release.directory)) with
      ⟨final, ended⟩
    rw [hrun] at h
    rcases Step.runAll_append_cases hrun with ⟨error, rfl, hpromote⟩ | ⟨promoted, hpromote, hretire⟩
    · rw [Prod.mk.injEq] at h
      rw [← h.1]
      exact Or.inl ⟨error, h.2.symm, hpromote⟩
    · rw [retirement_eq] at hretire
      cases ended with
      | some error =>
          rw [Prod.mk.injEq] at h
          rw [← h.1]
          exact Or.inr ⟨promoted, hpromote, Or.inl ⟨error, h.2.symm, hretire⟩⟩
      | none =>
          rw [Prod.mk.injEq] at h
          rw [← h.1]
          exact Or.inr ⟨promoted, hpromote, Or.inr ⟨h.2.symm, hretire⟩⟩
  · -- A release that fails to stage goes no further.
    rw [hstage, Prod.mk.injEq] at h
    rw [← h.1]
    exact Or.inl ⟨error, h.2.symm, rfl⟩

-- What is discarded after a failure can all be followed, since it was just staged.
theorem discard_staged {directory : Path} {front : List (String × String)}
    (hslash : ∀ c ∈ front, '/' ∉ c.1.toList) {before staged made : Store}
    (hstaged : Staged directory front before staged)
    (hgrows : Store.Grows (wayTo before directory) staged made) :
    (∀ c ∈ front, (discard made (front.map fun c => (Artifact.ofName directory c).staged)).find?
        (stagedPlace (before.place directory) c.1) = none) ∧
      ∀ l, (∀ c ∈ front, l ≠ stagedPlace (before.place directory) c.1) →
        Store.Kept (wayTo before directory) before
          (discard made (front.map fun c => (Artifact.ofName directory c).staged)) l := by
  have hplace : ∀ c ∈ front, made.place (Artifact.ofName directory c).staged =
      stagedPlace (before.place directory) c.1 := by
    intro c hc
    rw [place_staged made directory (hslash c hc), hgrows.keepsDirectories.place_eq,
      hstaged.keeps.place_eq]
  -- Making directories above has not moved a staged file.
  have hpresent : ∀ p ∈ front.map fun c => (Artifact.ofName directory c).staged,
      made.locate p = .ok (made.place p) ∧ made.find? (made.place p) ≠ some .directory := by
    intro p hp
    rcases List.mem_map.mp hp with ⟨c, hc, rfl⟩
    rw [hplace c hc]
    refine ⟨hgrows.keepsDirectories.locate_eq (hstaged.locate c hc), ?_⟩
    rcases hstaged.file c hc with ⟨d, _, _, hfile⟩
    rw [Store.find?_of_kept (hgrows.kept _) hfile]
    simp only [ne_eq, Option.some.injEq, reduceCtorEq, not_false_eq_true]
  refine ⟨fun c hc => ?_, fun l hl => ?_⟩
  · rw [← hplace c hc]
    exact discard_find? hpresent (List.mem_map_of_mem hc)
  · have hkept : (discard made (front.map fun c => (Artifact.ofName directory c).staged)).find? l =
        made.find? l := by
      refine discard_kept fun p hp => ?_
      rcases List.mem_map.mp hp with ⟨c, hc, rfl⟩
      rw [hplace c hc]
      exact hl c hc
    exact Store.kept_trans (Store.kept_trans (hstaged.kept l hl) (hgrows.kept l)) (Or.inl hkept)

section Phases

variable {release : Release} {before staged promoted after : Store}
  {front : List (String × String)} {ids : List String}

/-- What was staged is no directory. -/
theorem staged_ne_directory (hstaged : Staged release.directory release.contents before staged) :
    ∀ c ∈ release.contents, staged.find? (stagedPlace (staged.place release.directory) c.1) ≠
      some .directory := by
  intro c hc
  rcases hstaged.file c hc with ⟨d, _, _, hfile⟩
  rw [hstaged.keeps.place_eq, hfile]
  simp only [ne_eq, Option.some.injEq, reduceCtorEq, not_false_eq_true]

/-- What was promoted is in place. -/
theorem inPlace_of_promoted (hstaged : Staged release.directory release.contents before staged)
    (hpromoted : Promoted release.directory front staged promoted) {c : String × String}
    (hc : c ∈ front) (hmem : c ∈ release.contents) :
    ∃ d ∈ release.contents, d.1 = c.1 ∧ InPlace (release.home before) promoted d := by
  rcases hpromoted.file c hc with ⟨entry, hentry, hafter⟩
  rcases hstaged.file c hmem with ⟨d, hd, hdc, hfile⟩
  rw [hstaged.keeps.place_eq] at hentry hafter
  rw [hfile, Option.some.injEq] at hentry
  refine ⟨d, hd, hdc, ?_⟩
  rw [InPlace, hdc, hentry]
  exact hafter

/-- Staging, promoting and retiring come to an advance. -/
theorem advanced_of_retired (hstaged : Staged release.directory release.contents before staged)
    (hsub : ∀ c ∈ front, c ∈ release.contents)
    (hpromoted : Promoted release.directory front staged promoted)
    (hretired : Retired release.directory ids promoted after) :
    Advanced release front ids before after := by
  rcases hretired with ⟨keeps, _, gone, other⟩
  rw [hpromoted.keeps.place_eq, hstaged.keeps.place_eq] at gone other
  refine ⟨(hstaged.keeps.trans hpromoted.keeps).trans keeps, fun c hc hstays => ?_,
    fun c hc => ?_, gone, fun l hstages hlevels hleft => ?_⟩
  · rcases inPlace_of_promoted hstaged hpromoted hc (hsub c hc) with ⟨d, hd, hdc, hplace⟩
    refine ⟨d, hd, hdc, ?_⟩
    rw [InPlace, other _ fun id hid he => hstays (by rwa [← hdc, levelPlace_inj he])]
    exact hplace
  · have hnone := hpromoted.gone c hc
    rw [hstaged.keeps.place_eq] at hnone
    rw [home, other _ fun id _ => (levelPlace_ne_stagedPlace _ _ _).symm, hnone]
  · -- Promotion changed its own places only, and so did retirement.
    have hpromote : promoted.find? l = staged.find? l := by
      refine hpromoted.other l fun c hc => ?_
      rw [hstaged.keeps.place_eq]
      exact ⟨hlevels c hc, hstages c (hsub c hc)⟩
    exact Store.kept_trans (hstaged.kept l hstages) (Or.inl ((other l hleft).trans hpromote))

/-- An advance of contents with different names puts each in place itself. -/
theorem Advanced.inPlace (h : Advanced release front ids before after)
    (hnodup : (release.contents.map Prod.fst).Nodup) (hsub : ∀ c ∈ front, c ∈ release.contents)
    {c : String × String} (hc : c ∈ front) (hstays : c.1 ∉ ids) :
    InPlace (release.home before) after c := by
  rcases h.file c hc hstays with ⟨d, hd, hdc, hplace⟩
  rwa [← List.inj_on_of_nodup_map hnodup hd (hsub c hc) hdc]

end Phases

section Stopped

variable {release : Release} (hslash : ∀ id ∈ release.order, '/' ∉ id.toList)
  {before staged promoted after : Store} {error : OutputError}

include hslash

/-- Stopped while it stages, a release has discarded what it had staged until then. -/
theorem interrupted_of_stage (h : stage before [] release.artifacts = (after, some error)) :
    release.Interrupted before after error.path := by
  rw [artifacts_eq] at h
  rcases stage_error (fun c hc => noSlash_of_mem_contents hslash hc) h with
    ⟨front, content, behind, staged, made, hsplit, hpath, hstaged, hgrows, hafter⟩
  have hfront : ∀ c ∈ front, '/' ∉ c.1.toList := fun c hc => noSlash_of_mem_contents hslash (by
    rw [hsplit]
    exact List.mem_append_left _ hc)
  rw [List.nil_append] at hafter
  rcases discard_staged hfront hstaged hgrows with ⟨hgone, hkept⟩
  rw [hpath, hafter]
  -- The write that failed has done nothing, so its staging place is kept as well.
  exact .staging front content behind hsplit hgone fun l hl => Or.inl (hkept l hl)

/-- Stopped while it promotes, it has put in place what comes first, and retired nothing. -/
theorem interrupted_of_promotion
    (hstaged : Staged release.directory release.contents before staged)
    (h : Step.runAll staged release.promotion = (after, some error)) :
    release.Interrupted before after error.path := by
  rw [promotion_eq] at h
  rcases promote_error (fun c hc => noSlash_of_mem_contents hslash hc)
      (staged_ne_directory hstaged) h with
    ⟨front, content, behind, hsplit, hpath, hpromoted⟩
  have hsub : ∀ c ∈ front, c ∈ release.contents := fun c hc => by
    rw [hsplit]
    exact List.mem_append_left _ hc
  have hadvanced := advanced_of_retired hstaged hsub hpromoted (retired_nil _ _)
  rw [hpath]
  exact .promotion front content behind hsplit
    (fun c hc => hadvanced.file c hc List.not_mem_nil)
    (fun l hstages hlevels => hadvanced.kept l hstages hlevels
      fun _ hid => absurd hid List.not_mem_nil)

/-- Stopped while it retires, it has put everything in place. -/
theorem interrupted_of_retirement
    (hstaged : Staged release.directory release.contents before staged)
    (hpromoted : Promoted release.directory release.contents staged promoted)
    (h : Step.runAll promoted ((release.leaving before).map (retiring release.directory)) =
      (after, some error)) :
    release.Interrupted before after error.path := by
  rcases retire_error (fun id hid => noSlash_of_mem_retired hid)
      (hpromoted.keeps.leadsToDirectory (leads_of_staged hslash hstaged)) h with
    ⟨front, id, behind, hsplit, hpath, hretired⟩
  have hadvanced := advanced_of_retired hstaged (fun c hc => hc) hpromoted hretired
  rw [hpath]
  exact .retirement front id behind hsplit
    (fun c hc hleft => hadvanced.inPlace hpromoted.nodup (fun c hc => hc) hc hleft)
    hadvanced.gone
    fun l hl hfront => hadvanced.kept l (fun c hc => (hl c hc).2) (fun c hc => (hl c hc).1)
      hfront

/-- A release that is stopped is interrupted. -/
theorem run_error (h : release.run before = (after, .error error)) :
    release.Interrupted before after error.path := by
  have hcontents : ∀ c ∈ release.contents, '/' ∉ c.1.toList :=
    fun c hc => noSlash_of_mem_contents hslash hc
  rcases run_phases h with ⟨stopped, he, hstage⟩ | ⟨staged, hstage, hrest⟩
  · rw [Except.error.injEq] at he
    rw [he]
    exact interrupted_of_stage hslash hstage
  · have hstaged := stage_ok hcontents (artifacts_eq release ▸ hstage)
    rcases hrest with ⟨stopped, he, hpromote⟩ | ⟨promoted, hpromote, hrest⟩
    · rw [Except.error.injEq] at he
      rw [he]
      exact interrupted_of_promotion hslash hstaged hpromote
    · rw [promotion_eq] at hpromote
      have hpromoted := promote_ok hcontents (staged_ne_directory hstaged) hpromote
      rcases hrest with ⟨stopped, he, hretire⟩ | ⟨he, _⟩
      · rw [Except.error.injEq] at he
        rw [he]
        exact interrupted_of_retirement hslash hstaged hpromoted hretire
      · exact absurd he (by simp only [reduceCtorEq, not_false_eq_true])

end Stopped

/-- A release that is not stopped has gone through its three phases. -/
theorem phases_of_run_ok {release : Release} (hslash : ∀ id ∈ release.order, '/' ∉ id.toList)
    {before after : Store} {outputs : List Path}
    (h : release.run before = (after, .ok outputs)) :
    outputs = release.artifacts.map Artifact.path ∧
      ∃ staged promoted, stage before [] release.artifacts = (staged, none) ∧
        Staged release.directory release.contents before staged ∧
        Promoted release.directory release.contents staged promoted ∧
        Retired release.directory (release.leaving before) promoted after := by
  have hcontents : ∀ c ∈ release.contents, '/' ∉ c.1.toList :=
    fun c hc => noSlash_of_mem_contents hslash hc
  rcases run_phases h with ⟨_, he, _⟩ | ⟨staged, hstage, hrest⟩
  · exact absurd he (by simp only [reduceCtorEq, not_false_eq_true])
  · have hstaged := stage_ok hcontents (artifacts_eq release ▸ hstage)
    rcases hrest with ⟨_, he, _⟩ | ⟨promoted, hpromote, hrest⟩
    · exact absurd he (by simp only [reduceCtorEq, not_false_eq_true])
    · rw [promotion_eq] at hpromote
      have hpromoted := promote_ok hcontents (staged_ne_directory hstaged) hpromote
      have hleads := hpromoted.keeps.leadsToDirectory (leads_of_staged hslash hstaged)
      rcases hrest with ⟨_, he, _⟩ | ⟨he, hretire⟩
      · exact absurd he (by simp only [reduceCtorEq, not_false_eq_true])
      · rw [Except.ok.injEq] at he
        exact ⟨he, staged, promoted, hstage, hstaged, hpromoted,
          retire_ok (fun id hid => noSlash_of_mem_retired hid) hleads hretire⟩

/-- A release that is not stopped is released. -/
theorem run_ok {release : Release} (hslash : ∀ id ∈ release.order, '/' ∉ id.toList)
    {before after : Store} {outputs : List Path}
    (h : release.run before = (after, .ok outputs)) :
    Released release (release.leaving before) before after ∧
      outputs = release.artifacts.map Artifact.path := by
  rcases phases_of_run_ok hslash h with ⟨he, staged, promoted, _, hstaged, hpromoted, hretired⟩
  refine ⟨?_, he⟩
  have hleads := hpromoted.keeps.leadsToDirectory (leads_of_staged hslash hstaged)
  have hadvanced := advanced_of_retired hstaged (fun c hc => hc) hpromoted hretired
  have hhome : promoted.place release.directory = release.home before := by
    rw [hpromoted.keeps.place_eq, hstaged.keeps.place_eq]
    rfl
  -- The directory is where it was, so each place can be told from the start.
  refine ⟨hadvanced.keeps, hretired.keeps.leadsToDirectory hleads, hpromoted.nodup,
    fun c hc hstays => hadvanced.inPlace hpromoted.nodup (fun c hc => hc) hc hstays,
    hadvanced.unstaged, hadvanced.gone,
    fun l hl hleft => hadvanced.kept l (fun c hc => (hl c hc).2) (fun c hc => (hl c hc).1)
      hleft,
    fun c hc => ?_, fun id hid => ?_⟩
  · have hlocate := hpromoted.locate c hc
    rw [hstaged.keeps.place_eq] at hlocate
    exact hretired.keeps.locate_eq hlocate
  · rw [← hhome]
    exact hretired.locate id hid

/-- The path of what does not leave leads to its text. -/
theorem Released.entryAt {release : Release} {leaving : List String} {before after : Store}
    (h : Released release leaving before after) {c : String × String} (hc : c ∈ release.contents)
    (hstays : c.1 ∉ leaving) :
    after.entryAt (levelPath release.directory c.1) = .ok (.file (.text c.2)) := by
  have hlocate := h.locate c hc
  have hfile := h.file c hc hstays
  have hplace := Store.locate_eq_place hlocate
  rw [hplace] at hlocate
  rw [InPlace, hplace] at hfile
  exact Store.entryAt_ok_iff.mpr ⟨hlocate, hfile⟩

/-- So does the path of the index, if that does not leave. -/
theorem Released.entryAt_index {release : Release} {leaving : List String} {before after : Store}
    (h : Released release leaving before after) (hstays : indexName ∉ leaving) :
    after.entryAt (release.directory.child indexFileName) =
      .ok (.file (.text (release.index.document release.order).indented)) := by
  have hentry := h.entryAt release.mem_contents_index hstays
  simp only [indexContent, levelPath_indexName] at hentry
  exact hentry

end Release

end PuzzleLevel
