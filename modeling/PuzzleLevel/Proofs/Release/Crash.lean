import PuzzleLevel.Proofs.Level.Document
import PuzzleLevel.Proofs.Release.Outcome

/-!
# Releases That Crash

What is on disk when a release stops anywhere between two of its changes. The
first few changes of a release are either all about staging, and then nothing but
staging places and directories on the way can have changed, or they are all of
staging and a front of the moves and removals. `Cut` tells these apart. No change
in that front was refused, because one that is refused leaves nothing behind, so
what is known about promotion and retirement applies to it.

The index is the last to be moved, and the removals come after it. An index that
is new therefore means that every level is in place, and an index that is old
means that nothing was removed yet. There is one way out of the second: the new
index may be the same text as the old one. Then it lists the same levels, because
the order that was written is the order that is read, and nothing is retired.

## Main definitions

* `Cut`: Where a store stands after the first few changes.
* `CrashConsistent`: What holds of a store wherever a release stops.

## Theorems

* `applyAll_performed_run`: All changes of a release lead where it leads.
* `cut_of_prefix`: The first few changes of a release leave a cut of it.
* `crash_consistent`: A release may stop anywhere.
-/

namespace PuzzleLevel

namespace Release

/-- The changes of staging are those of the steps of its artifacts, and removals of
    what was staged. -/
theorem mem_stagingPerformed {store : Store} {written : List Path} {artifacts : List Artifact}
    {operation : Operation} (h : operation ∈ stagingPerformed store written artifacts) :
    (∃ a ∈ artifacts, ∃ step ∈ a.staging, operation = step.operation) ∨
      ∃ p ∈ written ++ artifacts.map Artifact.staged, operation = .remove p := by
  induction artifacts generalizing store written with
  | nil => exact absurd h List.not_mem_nil
  | cons artifact more ih =>
      rw [stagingPerformed, List.mem_append] at h
      rcases h with h | h
      · rcases Step.mem_performed h with ⟨step, hstep, he⟩
        exact Or.inl ⟨artifact, List.mem_cons_self .., step, hstep, he⟩
      · rcases hrun : Step.runAll store artifact.staging with ⟨after, _ | error⟩
        · rw [hrun] at h
          rcases ih h with ⟨a, ha, hstep⟩ | ⟨p, hp, he⟩
          · exact Or.inl ⟨a, List.mem_cons_of_mem _ ha, hstep⟩
          · rw [List.append_assoc] at hp
            exact Or.inr ⟨p, hp, he⟩
        · rw [hrun] at h
          rcases List.mem_map.mp h with ⟨p, hp, rfl⟩
          exact Or.inr ⟨p, List.mem_append_left _ hp, rfl⟩

/-- The changes of staging lead where staging leads. -/
theorem applyAll_stagingPerformed (store : Store) (written : List Path)
    (artifacts : List Artifact) :
    Operation.applyAll store (stagingPerformed store written artifacts) =
      (stage store written artifacts).1 := by
  induction artifacts generalizing store written with
  | nil => rfl
  | cons artifact more ih =>
      rw [stagingPerformed, Operation.applyAll_append, Step.applyAll_performed, stage]
      rcases hrun : Step.runAll store artifact.staging with ⟨after, _ | error⟩
      · exact ih after _
      · exact (discard_eq after written).symm

/-- If staging succeeds, everything was written. -/
theorem write_mem_stagingPerformed {store after : Store} {written : List Path}
    {artifacts : List Artifact} (h : stage store written artifacts = (after, none))
    {a : Artifact} (ha : a ∈ artifacts) :
    .write a.staged a.text ∈ stagingPerformed store written artifacts := by
  induction artifacts generalizing store written with
  | nil => exact absurd ha List.not_mem_nil
  | cons artifact more ih =>
      rw [stage] at h
      rw [stagingPerformed, List.mem_append]
      rcases hrun : Step.runAll store artifact.staging with ⟨mid, _ | error⟩
      · rw [hrun] at h
        rcases List.mem_cons.mp ha with rfl | ha
        · refine Or.inl ?_
          -- Neither of the two steps was refused, so both were made.
          rw [Artifact.staging] at hrun ⊢
          rcases hmake : (Operation.ensureDirectory (a.staged.parent?.getD ⟨[]⟩)).run store with
            ⟨made, _ | fault⟩
          · rw [Step.performed, hmake]
            refine List.mem_cons_of_mem _ ?_
            rw [Step.performed]
            rcases (Operation.write a.staged a.text).run made with ⟨_, _ | fault⟩
            · exact List.mem_cons_self ..
            · exact List.mem_cons_self ..
          · rw [Step.runAll_cons_error _ hmake] at hrun
            exact absurd (Prod.mk.inj hrun).2 (by simp only [reduceCtorEq, not_false_eq_true])
        · exact Or.inr (ih h ha)
      · rw [hrun] at h
        exact absurd (Prod.mk.inj h).2 (by simp only [reduceCtorEq, not_false_eq_true])

/-- All changes of a release lead where it leads. -/
theorem applyAll_performed_run (release : Release) (store : Store) :
    Operation.applyAll store (release.performed store) = (release.run store).1 := by
  rw [performed, Operation.applyAll_append, applyAll_stagingPerformed, run]
  rcases hstage : stage store [] release.artifacts with ⟨staged, _ | error⟩
  · simp only []
    rw [Step.applyAll_performed]
    rcases Step.runAll staged (release.promotion ++
      release.retirement (previousOrder store release.directory)) with ⟨final, _ | error⟩
    · rfl
    · rfl
  · rfl

/-- Where a store stands after the first few changes of a release. -/
inductive Cut (release : Release) (operations : List Operation) (before after : Store) : Prop
  /-- Within staging: all but the staging places is kept. -/
  | staging :
      (∀ l, (∀ c ∈ release.contents, l ≠ stagedPlace (release.home before) c.1) →
        Store.Kept (wayTo before release.directory) before after l) →
      before.KeepsDirectories after → Cut release operations before after
  /-- Behind staging: some contents are promoted, and some identifiers retired if
      all contents are. -/
  | releasing (front : List (String × String)) (ids : List String) :
      (∀ a ∈ release.artifacts, .write a.staged a.text ∈ operations) →
      front <+: release.contents → ids <+: release.leaving before →
      (ids ≠ [] → front = release.contents) → Advanced release front ids before after →
      Cut release operations before after

/-- A change of staging is about a staging place or the way to the directory, and
    it moves nothing. -/
theorem touches_staging {release : Release} (hslash : ∀ id ∈ release.order, '/' ∉ id.toList)
    {before : Store} {operation : Operation}
    (h : operation ∈ stagingPerformed before [] release.artifacts) :
    (∀ l ∈ operation.touches before,
        ∃ c ∈ release.contents, l = stagedPlace (release.home before) c.1) ∧
      operation.way before ⊆ wayTo before release.directory ∧
      ∀ source target, operation ≠ .move source target := by
  -- All writing and discarding is at the staging places.
  have hplace : ∀ a ∈ release.artifacts, ∃ c ∈ release.contents,
      before.place a.staged = stagedPlace (release.home before) c.1 ∧
        a.staged.parent?.getD ⟨[]⟩ = release.directory.bare := by
    intro a ha
    rw [artifacts_eq] at ha
    rcases List.mem_map.mp ha with ⟨c, hc, rfl⟩
    have hs := noSlash_of_mem_contents hslash hc
    exact ⟨c, hc, place_staged before _ hs, parent?_staged _ hs⟩
  rcases mem_stagingPerformed h with ⟨a, ha, step, hstep, rfl⟩ | ⟨p, hp, rfl⟩
  · rcases hplace a ha with ⟨c, hc, hstaged, hparent⟩
    simp only [Artifact.staging, List.mem_cons, List.not_mem_nil, or_false] at hstep
    rcases hstep with rfl | rfl
    · -- Making the directory touches nothing but the way there.
      refine ⟨fun l hl => absurd hl List.not_mem_nil, ?_, fun _ _ => by
        simp only [ne_eq, reduceCtorEq, not_false_eq_true]⟩
      rw [Operation.way, hparent]
      exact List.Subset.refl _
    · -- A write touches the staging place it writes to.
      refine ⟨fun l hl => ⟨c, hc, ?_⟩, List.nil_subset _, fun _ _ => by
        simp only [ne_eq, reduceCtorEq, not_false_eq_true]⟩
      rw [List.mem_singleton.mp hl, hstaged]
  · -- So does discarding.
    rw [List.nil_append] at hp
    rcases List.mem_map.mp hp with ⟨a, ha, rfl⟩
    rcases hplace a ha with ⟨c, hc, hstaged, _⟩
    refine ⟨fun l hl => ⟨c, hc, ?_⟩, List.nil_subset _, fun _ _ => by
      simp only [ne_eq, reduceCtorEq, not_false_eq_true]⟩
    rw [List.mem_singleton.mp hl, hstaged]

theorem cut_of_prefix_staging {release : Release}
    (hslash : ∀ id ∈ release.order, '/' ∉ id.toList) {before : Store}
    {operations : List Operation}
    (h : operations <+: stagingPerformed before [] release.artifacts) :
    Cut release operations before (Operation.applyAll before operations) := by
  refine .staging (fun l hl => Operation.applyAll_kept (fun operation ho hmem => ?_)
    fun operation ho => ?_) (Operation.applyAll_keepsDirectories fun operation ho => ?_)
  · rcases (touches_staging hslash (h.subset ho)).1 l hmem with ⟨c, hc, he⟩
    exact hl c hc he
  · exact (touches_staging hslash (h.subset ho)).2.1
  · exact (touches_staging hslash (h.subset ho)).2.2

/-- A front of two lists in a row ends in the first or in the second. -/
theorem prefix_append_cases {α : Type} {a b front : List α} (h : front <+: a ++ b) :
    front <+: a ∨ ∃ more, more <+: b ∧ front = a ++ more := by
  rcases h with ⟨behind, h⟩
  rcases List.append_eq_append_iff.mp h with ⟨rest, ha, _⟩ | ⟨rest, hfront, hb⟩
  · exact Or.inl ⟨rest, ha.symm⟩
  · exact Or.inr ⟨rest, ⟨behind, hb.symm⟩, hfront⟩

-- Only staging makes directories.
theorem ne_ensureDirectory {release : Release} {previous : List String} {step : Step}
    (h : step ∈ release.promotion ++ release.retirement previous) (directory : Path) :
    step.operation ≠ .ensureDirectory directory := by
  rcases List.mem_append.mp h with h | h
  · rcases List.mem_map.mp h with ⟨a, _, rfl⟩
    simp only [Artifact.promotion, ne_eq, reduceCtorEq, not_false_eq_true]
  · rcases List.mem_map.mp h with ⟨id, _, rfl⟩
    simp only [ne_eq, reduceCtorEq, not_false_eq_true]

/-- A front of the steps behind staging that ran through is an advance: it ends among
    the moves, or all moves were made and it ends among the removals. -/
theorem advanced_of_front {release : Release} (hslash : ∀ id ∈ release.order, '/' ∉ id.toList)
    {before staged after : Store} {front : List Step}
    (hstaged : Staged release.directory release.contents before staged)
    (hfront : front <+: release.promotion ++
      release.retirement (previousOrder before release.directory))
    (hrun : Step.runAll staged front = (after, none)) :
    ∃ promoted ids, promoted <+: release.contents ∧ ids <+: release.leaving before ∧
      (ids ≠ [] → promoted = release.contents) ∧ Advanced release promoted ids before after := by
  have hcontents : ∀ c ∈ release.contents, '/' ∉ c.1.toList :=
    fun c hc => noSlash_of_mem_contents hslash hc
  rcases prefix_append_cases hfront with hpromotion | ⟨rest, hrest, hsplit⟩
  · -- It stops while promoting, so nothing was retired.
    rw [promotion_eq, promotionOf] at hpromotion
    rcases List.prefix_map_iff.mp hpromotion with ⟨promoted, hpre, rfl⟩
    have hpromoted := promote_ok (fun c hc => hcontents c (hpre.subset hc))
      (fun c hc => staged_ne_directory hstaged c (hpre.subset hc)) hrun
    exact ⟨promoted, [], hpre, List.nil_prefix, fun hne => absurd rfl hne,
      advanced_of_retired hstaged hpre.subset hpromoted (retired_nil _ _)⟩
  · -- It stops while retiring, so everything was promoted.
    rw [retirement_eq] at hrest
    rcases List.prefix_map_iff.mp hrest with ⟨ids, hpre, rfl⟩
    rw [hsplit, promotion_eq] at hrun
    rcases Step.runAll_append_cases hrun with ⟨_, he, _⟩ | ⟨promoted, hpromote, hretire⟩
    · exact absurd he (by simp only [reduceCtorEq, not_false_eq_true])
    · have hpromoted := promote_ok hcontents (staged_ne_directory hstaged) hpromote
      have hleads := hpromoted.keeps.leadsToDirectory (leads_of_staged hslash hstaged)
      have hretired :=
        retire_ok (fun id hid => noSlash_of_mem_retired (hpre.subset hid)) hleads hretire
      exact ⟨release.contents, ids, List.prefix_refl _, hpre, fun _ => rfl,
        advanced_of_retired hstaged (fun c hc => hc) hpromoted hretired⟩

/-- The first few changes of a release end within staging or behind it. -/
theorem cut_of_prefix {release : Release} (hslash : ∀ id ∈ release.order, '/' ∉ id.toList)
    {before : Store} {operations : List Operation} (h : operations <+: release.performed before) :
    Cut release operations before (Operation.applyAll before operations) := by
  rcases prefix_append_cases h with hstaging | ⟨more, hmore, hoperations⟩
  · exact cut_of_prefix_staging hslash hstaging
  · rcases hstage : stage before [] release.artifacts with ⟨staged, _ | error⟩
    · rw [hstage] at hmore
      have hwrites : ∀ a ∈ release.artifacts, .write a.staged a.text ∈ operations := by
        intro a ha
        rw [hoperations]
        exact List.mem_append_left _ (write_mem_stagingPerformed hstage ha)
      have hstore : Operation.applyAll before operations = Operation.applyAll staged more := by
        rw [hoperations, Operation.applyAll_append, applyAll_stagingPerformed, hstage]
      -- What was refused left nothing behind, so these changes are a front of the steps.
      rcases Step.performed_prefix (fun _ hstep => ne_ensureDirectory hstep) hmore with
        ⟨front, hfront, hrun⟩
      rw [← hstore] at hrun
      rw [artifacts_eq] at hstage
      have hstaged := stage_ok (fun c hc => noSlash_of_mem_contents hslash hc) hstage
      rcases advanced_of_front hslash hstaged hfront hrun with
        ⟨promoted, ids, hpre, hids, hall, hadvanced⟩
      exact .releasing promoted ids hwrites hpre hids hall hadvanced
    · -- Staging failed, so nothing follows it.
      rw [hstage, List.prefix_nil] at hmore
      rw [hmore, List.append_nil] at hoperations
      exact cut_of_prefix_staging hslash (hoperations ▸ List.prefix_refl _)

/-- What the identifiers of a release, and those that the old index lists, have to
    be like. -/
structure Proper (release : Release) (before : Store) : Prop where
  /-- Every identifier can be a part of the name of a file. -/
  plain : ∀ id ∈ release.order, isPlainId id = true
  /-- None stands twice. -/
  nodup : release.order.Nodup
  /-- Each has its level. -/
  length_eq : release.order.length = release.index.levels.length
  /-- None is called like the index. -/
  index_notMem : indexName ∉ release.order
  /-- None was called like the index. -/
  index_notListed : indexName ∉ previousOrder before release.directory

/-- What holds of a store wherever a release stops. -/
structure CrashConsistent (release : Release) (operations : List Operation)
    (before after : Store) : Prop where
  /-- While something is still to be written, nothing but the staging places has
      changed. -/
  unpublished : (∃ a ∈ release.artifacts, .write a.staged a.text ∉ operations) →
    ∀ l, (∀ c ∈ release.contents, l ≠ stagedPlace (release.home before) c.1) →
      Store.Kept (wayTo before release.directory) before after l
  /-- The index is the old one or the complete new one. -/
  index : Store.Kept (wayTo before release.directory) before after
      (levelPlace (release.home before) indexName) ∨
    InPlace (release.home before) after release.indexContent
  /-- If it has become the new one, every level is in place. -/
  complete : InPlace (release.home before) after release.indexContent →
    ¬ InPlace (release.home before) before release.indexContent →
    ∀ c ∈ release.contents, InPlace (release.home before) after c
  /-- If it is as it was, every level file that it lists is still there. -/
  listed : after.find? (levelPlace (release.home before) indexName) =
      before.find? (levelPlace (release.home before) indexName) →
    ∀ id ∈ previousOrder before release.directory,
      before.isFile (levelPath release.directory id) = true →
      after.isFile (levelPath release.directory id) = true

/-- A front of the contents with the index in it is all of them. -/
theorem eq_contents_of_index {release : Release}
    (hnodup : (release.contents.map Prod.fst).Nodup) {front : List (String × String)}
    (hfront : front <+: release.contents) (hindex : release.indexContent ∈ front) :
    front = release.contents := by
  rw [contents, List.prefix_concat_iff] at hfront
  rcases hfront with hall | hlevels
  · exact hall
  · -- The name of the index would stand twice.
    rw [contents, List.map_append, List.nodup_append] at hnodup
    exact absurd rfl (hnodup.2.2 indexName (List.mem_map_of_mem (hlevels.subset hindex)) indexName
      (List.mem_singleton_self _))

section Behind

variable {release : Release} {before after : Store} {front : List (String × String)}
  {ids : List String}

/-- If a new index is the text of the old one, nothing is retired. -/
theorem leaving_eq_nil (hold : InPlace (release.home before) before release.indexContent) :
    release.leaving before = [] := by
  by_cases hempty : previousOrder before release.directory = []
  · rw [leaving, hempty]
    rfl
  · -- An order was read, so there is an index, and it is this one.
    have hentry : ∃ text, before.entryAt (release.directory.child indexFileName) =
        .ok (.file (.text text)) := by
      rw [previousOrder, Store.readText] at hempty
      cases hentry : before.entryAt (release.directory.child indexFileName) with
      | error fault =>
          rw [hentry] at hempty
          exact absurd rfl hempty
      | ok entry =>
          rw [hentry] at hempty
          rcases entry with _ | content
          · exact absurd rfl hempty
          · cases content with
            | binary bytes => exact absurd rfl hempty
            | text text => exact ⟨text, rfl⟩
    rcases hentry with ⟨text, hentry⟩
    have hplace : before.place (release.directory.child indexFileName) =
        levelPlace (release.home before) indexName := by
      rw [← levelPath_indexName, place_levelPath before _ (by decide : '/' ∉ indexName.toList)]
      rfl
    -- That index holds the text of this release, so it lists the same identifiers.
    have hfind := (Store.entryAt_ok_iff.mp hentry).2
    rw [hplace, show before.find? (levelPlace (release.home before) indexName) = _ from hold,
      Option.some.injEq] at hfind
    rw [← hfind] at hentry
    have horder : previousOrder before release.directory = release.order := previousOrder_eq hentry
    rw [leaving, horder, retired, List.filter_eq_nil_iff]
    intro id hid
    -- Of the identifiers that it keeps, a release retires none.
    rw [List.contains_eq_mem, decide_eq_true hid]
    simp only [Bool.not_true, Bool.false_and, Bool.false_eq_true, not_false_eq_true]

section Advanced

variable (h : Advanced release front ids before after)
  (hnodup : (release.contents.map Prod.fst).Nodup) (hfront : front <+: release.contents)

include h hnodup hfront

/-- The index is kept as long as it was not promoted. -/
theorem index_kept_of_advanced (hstays : ∀ c ∈ release.contents, c.1 ∉ ids)
    (hout : release.indexContent ∉ front) :
    Store.Kept (wayTo before release.directory) before after
      (levelPlace (release.home before) indexName) := by
  refine h.kept _ (fun c _ => levelPlace_ne_stagedPlace _ _ _) (fun c hc he => hout ?_)
    fun id hid he => ?_
  · rwa [← List.inj_on_of_nodup_map hnodup (hfront.subset hc) release.mem_contents_index
      (levelPlace_inj he).symm]
  · exact hstays _ release.mem_contents_index (by rw [indexContent, levelPlace_inj he]; exact hid)

/-- Nothing was retired as long as the index is as it was. It was then not promoted,
    or promoted over the same text. -/
theorem ids_eq_nil_of_advanced (hids : ids <+: release.leaving before)
    (hall : ids ≠ [] → front = release.contents) (hstays : ∀ c ∈ release.contents, c.1 ∉ ids)
    (hsame : after.find? (levelPlace (release.home before) indexName) =
      before.find? (levelPlace (release.home before) indexName)) : ids = [] := by
  by_cases hempty : ids = []
  · exact hempty
  · have hin : release.indexContent ∈ front := by
      rw [hall hempty]
      exact release.mem_contents_index
    have hnew := h.inPlace hnodup hfront.subset hin (hstays _ release.mem_contents_index)
    rw [leaving_eq_nil (hsame.symm.trans hnew), List.prefix_nil] at hids
    exact hids

/-- A file is still a file as long as nothing was retired: it was kept or promoted
    over. -/
theorem isFile_of_advanced (hids : ids = []) {id : String}
    (hfile : before.isFile (levelPath release.directory id) = true) :
    after.isFile (levelPath release.directory id) = true := by
  rw [Store.isFile_iff] at hfile ⊢
  rcases hfile with ⟨content, hlocate, hfind⟩
  rw [h.keeps.place_eq]
  have hnone : ∀ d, d ∉ ids := fun d => by
    rw [hids]
    exact List.not_mem_nil
  by_cases hput : ∃ c ∈ front,
      before.place (levelPath release.directory id) = levelPlace (release.home before) c.1
  · rcases hput with ⟨c, hc, he⟩
    refine ⟨.text c.2, h.keeps.locate_eq hlocate, ?_⟩
    rw [he]
    exact h.inPlace hnodup hfront.subset hc (hnone c.1)
  · exact ⟨content, h.keeps.locate_eq hlocate, Store.find?_of_kept
      (h.kept _ (fun c _ => place_levelPath_ne_staged before _ id _ _)
        (fun c hc he => hput ⟨c, hc, he⟩) fun d hd => absurd hd (hnone d)) hfind⟩

end Advanced

end Behind

-- Where nothing but the staging places changed, the index did not become new.
theorem not_new_of_kept {release : Release} {before after : Store}
    (h : Store.Kept (wayTo before release.directory) before after
      (levelPlace (release.home before) indexName))
    (hnew : InPlace (release.home before) after release.indexContent) :
    InPlace (release.home before) before release.indexContent := by
  rcases h with hsame | ⟨_, _, hdir⟩
  · exact hsame.symm.trans hnew
  · rw [InPlace, indexContent, hdir] at hnew
    exact absurd hnew (by simp only [Option.some.injEq, reduceCtorEq, not_false_eq_true])

theorem crash_consistent_of_kept {release : Release} {before after : Store}
    {operations : List Operation}
    (hkept : ∀ l, (∀ c ∈ release.contents, l ≠ stagedPlace (release.home before) c.1) →
      Store.Kept (wayTo before release.directory) before after l)
    (hkeeps : before.KeepsDirectories after) :
    release.CrashConsistent operations before after := by
  have hindex := hkept (levelPlace (release.home before) indexName)
    fun c _ => levelPlace_ne_stagedPlace _ _ _
  refine ⟨fun _ => hkept, Or.inl hindex, fun hnew hold => absurd (not_new_of_kept hindex hnew) hold,
    fun _ id _ hfile => ?_⟩
  rw [Store.isFile_iff] at hfile ⊢
  rcases hfile with ⟨content, hlocate, hfind⟩
  rw [hkeeps.place_eq]
  exact ⟨content, hkeeps.locate_eq hlocate, Store.find?_of_kept
    (hkept _ fun c _ => place_levelPath_ne_staged before _ id _ _) hfind⟩

/-- A release may stop anywhere. -/
theorem crash_consistent {release : Release} {before : Store} {operations : List Operation}
    (hproper : release.Proper before) (h : operations <+: release.performed before) :
    release.CrashConsistent operations before (Operation.applyAll before operations) := by
  rcases hproper with ⟨hplain, hnodup, hlength, hindex, hprevious⟩
  have hslash : ∀ id ∈ release.order, '/' ∉ id.toList :=
    fun id hid => noSlash_of_isPlainId (hplain id hid)
  have hnames := (nodup_contents hlength).mpr ⟨hnodup, hindex⟩
  cases cut_of_prefix hslash h with
  | staging hkept hkeeps => exact crash_consistent_of_kept hkept hkeeps
  | releasing front ids hwrites hfront hids hall hadvanced =>
      -- What is promoted is never retired, so it stays in place.
      have hstays : ∀ c ∈ release.contents, c.1 ∉ ids := fun c hc hmem =>
        notMem_leaving hlength hprevious hc (hids.subset hmem)
      have hplace : ∀ c ∈ front, InPlace (release.home before) _ c := fun c hc =>
        hadvanced.inPlace hnames hfront.subset hc (hstays c (hfront.subset hc))
      have hkept := index_kept_of_advanced hadvanced hnames hfront hstays
      refine ⟨fun hopen => ?_, ?_, fun hnew hold => ?_, fun hsame id _ hfile => ?_⟩
      · -- Everything was written.
        rcases hopen with ⟨a, ha, hout⟩
        exact absurd (hwrites a ha) hout
      · by_cases hin : release.indexContent ∈ front
        · exact Or.inr (hplace _ hin)
        · exact Or.inl (hkept hin)
      · by_cases hin : release.indexContent ∈ front
        · -- The index is the last to be promoted, so everything was.
          rwa [eq_contents_of_index hnames hfront hin] at hplace
        · exact absurd (not_new_of_kept (hkept hin) hnew) hold
      · have hnone := ids_eq_nil_of_advanced hadvanced hnames hfront hids hall hstays hsame
        exact isFile_of_advanced hadvanced hnames hfront hnone hfile

section Stopped

/-- A release of one level. -/
def oneLevel : Release :=
  ⟨.ofString "out", ["a"], ⟨⟨[[.floor]], ⟨0, 0⟩⟩, []⟩⟩

/-- A directory with an index that lists another level, which is there. -/
def otherLevel : Store :=
  { entries := [(["out".toList], .directory),
      (["out".toList, "b.json".toList], .file (.text "old\n")),
      (["out".toList, "index.json".toList],
        .file (.text (oneLevel.index.document ["b"]).indented))] }

/-- A directory with the index of the release and without its level. -/
def indexOnly : Store :=
  { entries := [(["out".toList], .directory),
      (["out".toList, "index.json".toList],
        .file (.text (oneLevel.index.document ["a"]).indented))] }

theorem previousOrder_otherLevel : previousOrder otherLevel oneLevel.directory = ["b"] := by
  have hentry : otherLevel.entryAt (oneLevel.directory.child indexFileName) =
      .ok (.file (.text (oneLevel.index.document ["b"]).indented)) := by decide +kernel
  exact previousOrder_eq hentry

theorem proper_otherLevel : oneLevel.Proper otherLevel := by
  refine ⟨by decide, by decide, rfl, by decide, ?_⟩
  rw [previousOrder_otherLevel]
  decide

theorem oneLevel_crash_consistent :
    oneLevel.Proper otherLevel ∧
      (oneLevel.performed otherLevel).take 5 <+: oneLevel.performed otherLevel ∧
      oneLevel.CrashConsistent ((oneLevel.performed otherLevel).take 5) otherLevel
        (Operation.applyAll otherLevel ((oneLevel.performed otherLevel).take 5)) :=
  ⟨proper_otherLevel, List.take_prefix _ _,
    crash_consistent proper_otherLevel (List.take_prefix _ _)⟩

theorem proper_indexOnly : oneLevel.Proper indexOnly := by
  have hentry : indexOnly.entryAt (oneLevel.directory.child indexFileName) =
      .ok (.file (.text (oneLevel.index.document ["a"]).indented)) := by decide +kernel
  refine ⟨by decide, by decide, rfl, by decide, ?_⟩
  rw [previousOrder_eq hentry]
  decide

/-- Two things that do not hold wherever a release stops. The directory is made
    before anything is written, so not only staging places change; and an index
    that was there with its text says nothing about the levels. -/
theorem crash_exceptions :
    (¬ ∀ (release : Release) (before : Store) (operations : List Operation),
        release.Proper before → operations <+: release.performed before →
        (∃ a ∈ release.artifacts, .write a.staged a.text ∉ operations) →
        ∀ l, (∀ c ∈ release.contents, l ≠ stagedPlace (release.home before) c.1) →
          (Operation.applyAll before operations).find? l = before.find? l) ∧
      ¬ ∀ (release : Release) (before : Store) (operations : List Operation),
        release.Proper before → operations <+: release.performed before →
        InPlace (release.home before) (Operation.applyAll before operations)
          release.indexContent →
        ∀ c ∈ release.contents,
          InPlace (release.home before) (Operation.applyAll before operations) c := by
  constructor
  · intro h
    have hsame := h oneLevel {} ((oneLevel.performed {}).take 1)
      ⟨by decide, by decide, rfl, by decide, by decide +kernel⟩ (List.take_prefix _ _)
      (by decide +kernel) ["out".toList] (by decide +kernel)
    exact absurd hsame (by decide +kernel)
  · intro h
    have hall := h oneLevel indexOnly [] proper_indexOnly List.nil_prefix
      (by unfold InPlace; decide +kernel)
    exact absurd hall (by unfold InPlace; decide +kernel)

end Stopped

end Release

end PuzzleLevel
