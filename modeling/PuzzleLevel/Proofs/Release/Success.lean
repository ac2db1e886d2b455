import PuzzleLevel.Proofs.Release.Outcome

/-!
# When a Release Succeeds

A release of good levels should not fail for reasons of its own making. What it
needs from outside is little: the directory can be made or is there, and no name
is too long. Given that, it succeeds exactly if three things hold. No name stands
twice, which a level called like the index would bring about. Nothing that ends a
path is in a name, which only an old index can bring about. And no directory is in
the way of a file, which the directory of the release itself can be if its path
goes down and up again.

The first artifact makes the directory, and from then on making it does nothing.
So a release from a store is staged like one from the store in which the directory
was made, and that store is the one that the conditions are about.

## Main definitions

* `FitsIn`: A name and its path are short enough.
* `NamesFit`: All names of a release are.
* `Unblocked`: No directory is in the way.
* `Clear`: All of what a release needs.

## Theorems

* `stage_eq_made`: Making the directory first changes nothing.
* `Clear.stages`, `Clear.promotes`, `Clear.retires`: Each phase succeeds if nothing is
  in the way.
* `run_succeeds_iff`: When a release succeeds.
-/

namespace PuzzleLevel

/-- A name in a directory is short enough, and so is its path. -/
def FitsIn (directory : Path) (name : String) : Prop :=
  byteLength (directory.child name).chars < pathBytesBound ∧
    byteLength name.toList ≤ maxNameBytes

/-- The names of files, of staging files and of files to be removed are short
    enough. -/
structure NamesFit (directory : Path) (names leaving : List String) : Prop where
  /-- Files to be written. -/
  level : ∀ id ∈ names, FitsIn directory (id ++ ".json")
  /-- Staging files. -/
  staged : ∀ id ∈ names, FitsIn directory.bare (stagedName id)
  /-- Files to be removed. -/
  leaving : ∀ id ∈ leaving, FitsIn directory (id ++ ".json")

/-- No directory is in the place of a file that is to be written or removed. -/
structure Unblocked (store : Store) (home : Location) (names leaving : List String) : Prop where
  /-- Files to be written. -/
  level : ∀ id ∈ names, store.find? (levelPlace home id) ≠ some .directory
  /-- Staging files. -/
  staged : ∀ id ∈ names, store.find? (stagedPlace home id) ≠ some .directory
  /-- Files to be removed. -/
  leaving : ∀ id ∈ leaving, store.find? (levelPlace home id) ≠ some .directory

/-- A name that fits and has nothing in it that ends a path is found. -/
theorem locate_of_fits {store : Store} {p : Path} {name : String}
    (hleads : store.LeadsToDirectory p) (hname : Path.IsName name.toList)
    (hpath : '\x00' ∉ p.chars) (hnul : '\x00' ∉ name.toList) (hfits : FitsIn p name) :
    store.locate (p.child name) = .ok (store.place p ++ [name.toList]) := by
  rw [Store.locate_child_iff hname]
  refine ⟨hleads, ?_, hfits.2, rfl⟩
  have hfree : '\x00' ∉ (p.child name).chars := by
    rw [Path.mem_child hname (by decide), not_or]
    exact ⟨hpath, hnul⟩
  rw [Store.pathFault?, if_neg hfree, if_neg (Nat.not_le_of_lt hfits.1),
    if_neg (by rw [List.isEmpty_iff]; exact Store.child_ne_nil p name hname)]

theorem noNul_stagedName {id : String} (h : '\x00' ∉ id.toList) :
    '\x00' ∉ (stagedName id).toList := by
  rw [stagedName, String.toList_append, String.toList_append, String.toList_append]
  simp only [List.mem_append, not_or]
  exact ⟨⟨by decide, h, by decide⟩, by decide⟩

theorem noNul_json {id : String} :
    '\x00' ∉ (id ++ ".json").toList ↔ '\x00' ∉ id.toList := by
  rw [String.toList_append, List.mem_append, not_or]
  exact and_iff_left (by decide)

/-- A directory that is led to and can be named is not made again. -/
theorem ensureDirectory_of_leads {store : Store} {p : Path} (hleads : store.LeadsToDirectory p)
    (husable : p.chars = [] ∨ Store.pathFault? p = none) :
    (Operation.ensureDirectory p).run store = (store, none) := by
  rw [Operation.run]
  rcases husable with hempty | hfault
  · rw [hempty]
    rfl
  · rw [hleads.present hfault, Bool.or_true, if_pos rfl]

namespace Artifact

/-- Staging an artifact where the directory is there writes its staging file. -/
theorem runAll_staging_of_leads {store : Store} {directory : Path} {content : String × String}
    (hslash : '/' ∉ content.1.toList)
    (hensure : (Operation.ensureDirectory directory.bare).run store = (store, none))
    (hlocate : store.locate (ofName directory content).staged =
      .ok (stagedPlace (store.place directory) content.1))
    (hdir : store.find? (stagedPlace (store.place directory) content.1) ≠ some .directory) :
    Step.runAll store (ofName directory content).staging =
      (store.put (stagedPlace (store.place directory) content.1) (.file (.text content.2)),
        none) := by
  have hplace := place_staged store directory hslash
  have hwrite : (Operation.write (ofName directory content).staged content.2).run store =
      (store.put (stagedPlace (store.place directory) content.1) (.file (.text content.2)),
        none) := by
    rw [← hplace] at hlocate hdir ⊢
    exact Operation.write_ok content.2 hlocate hdir
  rw [staging, parent?_staged directory hslash, Step.runAll_cons_ok _ hensure,
    Step.runAll_cons_ok _ hwrite, Step.runAll_nil]

end Artifact

namespace Release

/-- Making the directory before staging changes nothing. -/
theorem stage_eq_made {directory : Path} {content : String × String}
    {more : List (String × String)} (hslash : '/' ∉ content.1.toList) {before made : Store}
    (hbefore : (Operation.ensureDirectory directory.bare).run before = (made, none))
    (hmade : (Operation.ensureDirectory directory.bare).run made = (made, none))
    (written : List Path) :
    stage before written ((content :: more).map (Artifact.ofName directory)) =
      stage made written ((content :: more).map (Artifact.ofName directory)) := by
  have hfirst : Step.runAll before (Artifact.ofName directory content).staging =
      Step.runAll made (Artifact.ofName directory content).staging := by
    rw [Artifact.staging, parent?_staged directory hslash]
    exact (Step.runAll_cons_ok _ hbefore).trans (Step.runAll_cons_ok _ hmade).symm
  rw [List.map_cons, stage, stage, hfirst]

/-- Staging succeeds if the directory is there and nothing is in the way. -/
theorem stage_of_unblocked {directory : Path} {contents : List (String × String)}
    (hslash : ∀ c ∈ contents, '/' ∉ c.1.toList)
    (husable : directory.bare.chars = [] ∨ Store.pathFault? directory.bare = none)
    {store : Store} (hleads : store.LeadsToDirectory directory)
    (h : ∀ c ∈ contents,
      store.locate (Artifact.ofName directory c).staged =
        .ok (stagedPlace (store.place directory) c.1) ∧
      store.find? (stagedPlace (store.place directory) c.1) ≠ some .directory)
    (written : List Path) :
    ∃ after, stage store written (contents.map (Artifact.ofName directory)) = (after, none) := by
  induction contents generalizing store written with
  | nil => exact ⟨store, rfl⟩
  | cons content more ih =>
      rcases h content (List.mem_cons_self ..) with ⟨hlocate, hdir⟩
      have hensure := ensureDirectory_of_leads (Store.leadsToDirectory_bare.mpr hleads) husable
      have hrun := Artifact.runAll_staging_of_leads (hslash content (List.mem_cons_self ..)) hensure
        hlocate hdir
      generalize hafter : store.put (stagedPlace (store.place directory) content.1)
        (.file (.text content.2)) = after at hrun
      have hother : ∀ l, l ≠ stagedPlace (store.place directory) content.1 →
          after.find? l = store.find? l := fun l hl => by
        rw [← hafter, Store.find?_put_other _ _ _ _ hl]
      -- The write put a file where no directory stood.
      have hkeeps : store.KeepsDirectories after := by
        refine ⟨by rw [← hafter]; rfl, fun l hl => ?_⟩
        rw [hother l fun he => hdir (he ▸ hl), hl]
      rw [List.map_cons, stage, hrun]
      refine ih (fun c hc => hslash c (List.mem_cons_of_mem _ hc))
        (hkeeps.leadsToDirectory hleads) (fun c hc => ?_) _
      rcases h c (List.mem_cons_of_mem _ hc) with ⟨hlocate', hdir'⟩
      rw [hkeeps.place_eq]
      refine ⟨hkeeps.locate_eq hlocate', ?_⟩
      -- The staging place of the same name now holds a file, which may be replaced.
      by_cases he : stagedPlace (store.place directory) c.1 =
          stagedPlace (store.place directory) content.1
      · rw [he, ← hafter, Store.find?_put_self _ _ _ (stagedPlace_ne_nil _ _)]
        simp only [ne_eq, Option.some.injEq, reduceCtorEq, not_false_eq_true]
      · rw [hother _ he]
        exact hdir'

/-- On the way to a directory that is there, nothing is made. -/
theorem find?_of_kept_of_leads {directory : Path} {store after : Store}
    (hleads : store.LeadsToDirectory directory) {l : Location}
    (h : Store.Kept (wayTo store directory) store after l) : after.find? l = store.find? l := by
  rcases h with hsame | ⟨hway, hnone, _⟩
  · exact hsame
  · rcases List.mem_map.mp hway with ⟨a, ha, rfl⟩
    rw [(Store.leadsToDirectory_bare.mpr hleads).directory_of_mem_ancestors ha] at hnone
    exact absurd hnone (by simp only [reduceCtorEq, not_false_eq_true])

/-- From where the directory is there, staging makes none. -/
theorem find?_of_staged {directory : Path} {contents : List (String × String)}
    {made staged : Store} (hleads : made.LeadsToDirectory directory)
    (hstaged : Staged directory contents made staged) {l : Location}
    (hl : ∀ c ∈ contents, l ≠ stagedPlace (made.place directory) c.1) :
    staged.find? l = made.find? l :=
  find?_of_kept_of_leads hleads (hstaged.kept l hl)

section Made

variable {release : Release} {before : Store}

/-- The store in which the directory of a release was made. -/
def made (release : Release) (before : Store) : Store :=
  (before.makeDirectories release.directory.bare).1

theorem made_leads (hhere : before.find? before.here = some .directory)
    (hout : (before.makeDirectories release.directory.bare).2 = none) :
    (release.made before).LeadsToDirectory release.directory := by
  rw [← Store.leadsToDirectory_bare]
  refine Store.makeDirectories_leads hhere ?_
  rw [made, ← hout]

theorem made_keeps : before.KeepsDirectories (release.made before) :=
  (Store.makeDirectories_grows before release.directory.bare).keepsDirectories

/-- The bare path can be used, because longer ones can. -/
theorem bare_usable (hout : (before.makeDirectories release.directory.bare).2 = none)
    {name : String} (hname : Path.IsName name.toList) (hfits : FitsIn release.directory.bare name) :
    release.directory.bare.chars = [] ∨ Store.pathFault? release.directory.bare = none := by
  by_cases hempty : release.directory.bare.chars = []
  · exact Or.inl hempty
  · refine Or.inr ?_
    rcases Path.prefix_child release.directory.bare name hname with ⟨more, hmore⟩
    have hlong := hfits.1
    rw [← hmore, Store.byteLength_append] at hlong
    rw [Store.pathFault?, if_neg (Store.noNul_of_makeDirectories hout), if_neg (by omega),
      if_neg (by rwa [List.isEmpty_iff])]

/-- Staging from a store succeeds exactly like staging from the one with the
    directory. -/
theorem stage_made (hslash : ∀ id ∈ release.order, '/' ∉ id.toList)
    (hhere : before.find? before.here = some .directory)
    (hout : (before.makeDirectories release.directory.bare).2 = none)
    (hfits : FitsIn release.directory.bare (stagedName indexName)) :
    stage before [] release.artifacts = stage (release.made before) [] release.artifacts := by
  have husable := bare_usable hout (isName_stagedName (by decide)) hfits
  have hleads := Store.leadsToDirectory_bare.mpr (made_leads hhere hout)
  have hmade := ensureDirectory_of_leads hleads husable
  have hbefore := Operation.ensureDirectory_eq hout
  rw [artifacts_eq]
  cases hcontents : release.contents with
  | nil => exact absurd hcontents (List.ne_nil_of_mem release.mem_contents_index)
  | cons content more =>
      have hfirst : content ∈ release.contents := by
        rw [hcontents]
        exact List.mem_cons_self ..
      exact stage_eq_made (noSlash_of_mem_contents hslash hfirst) hbefore hmade []

/-- What a release that was not stopped has left has every directory of the store
    that it started from with the directory made. -/
theorem made_keeps_of_run_ok (hslash : ∀ id ∈ release.order, '/' ∉ id.toList)
    (hhere : before.find? before.here = some .directory)
    (hout : (before.makeDirectories release.directory.bare).2 = none)
    (hfits : FitsIn release.directory.bare (stagedName indexName)) {after : Store}
    {outputs : List Path} (h : release.run before = (after, .ok outputs)) :
    (release.made before).KeepsDirectories after := by
  rcases phases_of_run_ok hslash h with ⟨_, staged, promoted, hstage, _, hpromoted, hretired⟩
  -- It was staged from there just as well.
  rw [stage_made hslash hhere hout hfits, artifacts_eq] at hstage
  have hstaged := stage_ok (fun c hc => noSlash_of_mem_contents hslash hc) hstage
  exact (hstaged.keeps.trans hpromoted.keeps).trans hretired.keeps

theorem noNul_of_locate {store : Store} {directory : Path} {id : String} {location : Location}
    (hslash : '/' ∉ id.toList) (h : store.locate (levelPath directory id) = .ok location) :
    '\x00' ∉ id.toList := by
  intro hnul
  have hmem : '\x00' ∈ (levelPath directory id).chars :=
    (Path.mem_child (isName_json hslash) (by decide)).mpr (Or.inr (by
      rw [String.toList_append]
      exact List.mem_append_left _ hnul))
  rw [Store.locate, Store.pathFault?, if_pos hmem] at h
  exact absurd h (by simp only [reduceCtorEq, not_false_eq_true])

/-- A release that succeeds had nothing in its way. -/
theorem unblocked_of_run_ok (hslash : ∀ id ∈ release.order, '/' ∉ id.toList)
    (hhere : before.find? before.here = some .directory)
    (hout : (before.makeDirectories release.directory.bare).2 = none)
    (hfits : FitsIn release.directory.bare (stagedName indexName)) {after : Store}
    {outputs : List Path} (h : release.run before = (after, .ok outputs)) :
    Unblocked (release.made before) (release.home before) (release.contents.map Prod.fst)
      (release.leaving before) := by
  have hreleased := (run_ok hslash h).1
  have hkeeps := made_keeps_of_run_ok hslash hhere hout hfits h
  refine ⟨fun id hid hdir => ?_, fun id hid hdir => ?_, fun id hid hdir => ?_⟩
  · rcases List.mem_map.mp hid with ⟨c, hc, rfl⟩
    have hafter := hkeeps.find?_eq _ hdir
    by_cases hleaves : c.1 ∈ release.leaving before
    · rw [hreleased.gone c.1 hleaves] at hafter
      exact absurd hafter (by simp only [reduceCtorEq, not_false_eq_true])
    · rw [show after.find? (levelPlace (release.home before) c.1) = some (.file (.text c.2))
        from hreleased.file c hc hleaves] at hafter
      exact absurd hafter (by simp only [Option.some.injEq, reduceCtorEq, not_false_eq_true])
  · rcases List.mem_map.mp hid with ⟨c, hc, rfl⟩
    have hafter := hkeeps.find?_eq _ hdir
    rw [hreleased.unstaged c hc] at hafter
    exact absurd hafter (by simp only [reduceCtorEq, not_false_eq_true])
  · have hafter := hkeeps.find?_eq _ hdir
    rw [hreleased.gone id hid] at hafter
    exact absurd hafter (by simp only [reduceCtorEq, not_false_eq_true])

/-- Nothing keeps a release from succeeding. -/
structure Clear (release : Release) (before : Store) : Prop where
  /-- No identifier has a slash in it. -/
  slash : ∀ id ∈ release.order, '/' ∉ id.toList
  /-- Relative paths start at a directory. -/
  here : before.find? before.here = some .directory
  /-- The directory can be made. -/
  out : (before.makeDirectories release.directory.bare).2 = none
  /-- The names are short enough. -/
  fits : NamesFit release.directory (release.contents.map Prod.fst) (release.leaving before)
  /-- No name stands twice. -/
  nodup : (release.contents.map Prod.fst).Nodup
  /-- Nothing in a name ends a path. -/
  nul : ∀ id ∈ release.contents.map Prod.fst ++ release.leaving before, '\x00' ∉ id.toList
  /-- No directory is in the way. -/
  free : Unblocked (release.made before) (release.home before) (release.contents.map Prod.fst)
    (release.leaving before)

namespace Clear

variable {staged promoted : Store}

theorem leads (h : release.Clear before) :
    (release.made before).LeadsToDirectory release.directory :=
  made_leads h.here h.out

theorem noSlash (h : release.Clear before) : ∀ c ∈ release.contents, '/' ∉ c.1.toList :=
  fun _ hc => noSlash_of_mem_contents h.slash hc

/-- What fits behind the directory and ends no path can be followed. -/
theorem locate_level (h : release.Clear before) {id : String} (hslash : '/' ∉ id.toList)
    (hnul : '\x00' ∉ id.toList) (hfits : FitsIn release.directory (id ++ ".json")) :
    (release.made before).locate (levelPath release.directory id) =
      .ok (levelPlace (release.home before) id) := by
  have hpath : '\x00' ∉ release.directory.chars := fun hmem =>
    Store.noNul_of_makeDirectories h.out (Path.mem_bare_of_mem hmem (by decide) (by decide))
  rw [levelPath, locate_of_fits h.leads (isName_json hslash) hpath (noNul_json.mpr hnul) hfits,
    made_keeps.place_eq release.directory]
  rfl

/-- Every artifact can be staged. -/
theorem stages (h : release.Clear before) :
    ∃ staged, stage (release.made before) [] release.artifacts = (staged, none) := by
  have hindex := h.fits.staged _ (List.mem_map_of_mem release.mem_contents_index)
  have husable := bare_usable h.out (isName_stagedName (by decide : '/' ∉ indexName.toList)) hindex
  rw [artifacts_eq]
  refine stage_of_unblocked h.noSlash husable h.leads (fun c hc => ?_) []
  have hname : c.1 ∈ release.contents.map Prod.fst := List.mem_map_of_mem hc
  rw [made_keeps.place_eq release.directory, staged_ofName _ (h.noSlash c hc)]
  refine ⟨?_, h.free.staged _ hname⟩
  rw [locate_of_fits (Store.leadsToDirectory_bare.mpr h.leads)
    (isName_stagedName (h.noSlash c hc)) (Store.noNul_of_makeDirectories h.out)
    (noNul_stagedName (h.nul _ (List.mem_append_left _ hname))) (h.fits.staged _ hname),
    Store.place_bare, made_keeps.place_eq release.directory]
  rfl

theorem place_of_staged
    (hstaged : Staged release.directory release.contents (release.made before) staged) :
    staged.place release.directory = release.home before := by
  rw [hstaged.keeps.place_eq, made_keeps.place_eq release.directory]
  rfl

section Behind

variable (h : release.Clear before)
  (hstaged : Staged release.directory release.contents (release.made before) staged)

include h hstaged

/-- Where a level file goes nothing has changed while it was staged. -/
theorem level_of_staged (id : String) :
    staged.find? (levelPlace (release.home before) id) =
      (release.made before).find? (levelPlace (release.home before) id) := by
  refine find?_of_staged h.leads hstaged fun c _ => ?_
  rw [made_keeps.place_eq release.directory]
  exact levelPlace_ne_stagedPlace _ _ _

/-- Every artifact can be promoted: its staging file is there, and no directory is in
    its way. -/
theorem promotes : ∃ promoted, Step.runAll staged release.promotion = (promoted, none) := by
  rw [promotion_eq]
  refine promote_of_staged h.noSlash h.nodup (fun c hc => ?_) fun c hc => ?_
  · rcases hstaged.file c hc with ⟨d, _, _, hfile⟩
    rw [place_of_staged hstaged]
    rw [made_keeps.place_eq release.directory] at hfile
    refine ⟨?_, _, hfile⟩
    have hlocate := hstaged.locate c hc
    rwa [made_keeps.place_eq release.directory] at hlocate
  · have hname : c.1 ∈ release.contents.map Prod.fst := List.mem_map_of_mem hc
    rw [place_of_staged hstaged, h.level_of_staged hstaged]
    exact ⟨hstaged.keeps.locate_eq (h.locate_level (h.noSlash c hc)
      (h.nul _ (List.mem_append_left _ hname)) (h.fits.level _ hname)), h.free.level _ hname⟩

/-- Where a level file goes there is no directory after the promotion, if there was
    none before. -/
theorem level_of_promoted (hpromoted : Promoted release.directory release.contents staged promoted)
    {id : String} (hfree : (release.made before).find? (levelPlace (release.home before) id) ≠
      some .directory) :
    promoted.find? (levelPlace (release.home before) id) ≠ some .directory := by
  by_cases hput : ∃ c ∈ release.contents, c.1 = id
  · -- A staging file was moved there.
    rcases hput with ⟨c, hc, rfl⟩
    rcases hpromoted.file c hc with ⟨entry, hentry, hafter⟩
    rcases hstaged.file c hc with ⟨d, _, _, hfile⟩
    rw [hstaged.keeps.place_eq] at hentry
    rw [place_of_staged hstaged] at hafter
    rw [hentry, Option.some.injEq] at hfile
    rw [hafter, hfile]
    simp only [ne_eq, Option.some.injEq, reduceCtorEq, not_false_eq_true]
  · rw [hpromoted.other _ fun c hc => ?_, h.level_of_staged hstaged]
    · exact hfree
    · rw [place_of_staged hstaged]
      exact ⟨fun he => hput ⟨c, hc, (levelPlace_inj he).symm⟩, levelPlace_ne_stagedPlace _ _ _⟩

/-- Everything that leaves can be retired: it is a file, or nothing. -/
theorem retires (hpromoted : Promoted release.directory release.contents staged promoted) :
    ∃ after, Step.runAll promoted
      (release.retirement (previousOrder before release.directory)) = (after, none) := by
  rw [retirement_eq]
  refine retire_of_present (fun id hid => noSlash_of_mem_retired hid)
    (hpromoted.keeps.leadsToDirectory (leads_of_staged h.slash hstaged)) fun id hid => ?_
  rw [hpromoted.keeps.place_eq, place_of_staged hstaged]
  have hlocate := h.locate_level (noSlash_of_mem_retired hid)
    (h.nul _ (List.mem_append_right _ hid)) (h.fits.leaving id hid)
  exact ⟨hpromoted.keeps.locate_eq (hstaged.keeps.locate_eq hlocate),
    h.level_of_promoted hstaged hpromoted (h.free.leaving id hid)⟩

end Behind

/-- A release with nothing in its way succeeds. -/
theorem succeeds (h : release.Clear before) : ∃ outputs, (release.run before).2 = .ok outputs := by
  have hindex := h.fits.staged _ (List.mem_map_of_mem release.mem_contents_index)
  rcases h.stages with ⟨staged, hstage⟩
  have hstaged := stage_ok h.noSlash (artifacts_eq release ▸ hstage)
  rcases h.promotes hstaged with ⟨promoted, hpromote⟩
  have hpromoted := promote_ok h.noSlash (staged_ne_directory hstaged)
    (promotion_eq release ▸ hpromote)
  rcases h.retires hstaged hpromoted with ⟨after, hretire⟩
  have hphases : Step.runAll staged (release.promotion ++
      release.retirement (previousOrder before release.directory)) = (after, none) := by
    rw [Step.runAll_append_ok _ hpromote, hretire]
  refine ⟨release.artifacts.map Artifact.path, ?_⟩
  rw [run, stage_made h.slash h.here h.out hindex, hstage]
  simp only [hphases]

end Clear

/-- A release whose directory can be made and whose names are short enough succeeds
    exactly if no name stands twice, nothing in a name ends a path, and no directory
    is in the way. -/
theorem run_succeeds_iff (hslash : ∀ id ∈ release.order, '/' ∉ id.toList)
    (hhere : before.find? before.here = some .directory)
    (hout : (before.makeDirectories release.directory.bare).2 = none)
    (hfits : NamesFit release.directory (release.contents.map Prod.fst)
      (release.leaving before)) :
    (∃ outputs, (release.run before).2 = .ok outputs) ↔
      (release.contents.map Prod.fst).Nodup ∧
        (∀ id ∈ release.contents.map Prod.fst ++ release.leaving before, '\x00' ∉ id.toList) ∧
        Unblocked (release.made before) (release.home before) (release.contents.map Prod.fst)
          (release.leaving before) := by
  have hindex := hfits.staged _ (List.mem_map_of_mem release.mem_contents_index)
  constructor
  · rintro ⟨outputs, hok⟩
    have hrun : release.run before = ((release.run before).1, .ok outputs) := by rw [← hok]
    have hreleased := (run_ok hslash hrun).1
    refine ⟨hreleased.nodup, fun id hid => ?_,
      unblocked_of_run_ok hslash hhere hout hindex hrun⟩
    rcases List.mem_append.mp hid with hid | hid
    · rcases List.mem_map.mp hid with ⟨c, hc, rfl⟩
      exact noNul_of_locate (noSlash_of_mem_contents hslash hc) (hreleased.locate c hc)
    · exact noNul_of_locate (noSlash_of_mem_retired hid) (hreleased.locateLeaving id hid)
  · rintro ⟨hnodup, hnul, hfree⟩
    exact Clear.succeeds ⟨hslash, hhere, hout, hfits, hnodup, hnul, hfree⟩

end Made

end Release

end PuzzleLevel
