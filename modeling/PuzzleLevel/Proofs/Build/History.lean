import PuzzleLevel.Proofs.Build.Success
import PuzzleLevel.Proofs.Level.Document

/-!
# What a History of Builds Leaves Behind

A build removes the files of the levels that the index before it lists and it does
not have itself. What one build writes into its index thus decides what the next
one removes, and whether anything stale is left is a question about a whole
history of builds, not about one.

A history starts where nothing stands at the output directory. Between two builds
everything may change but the entries of that directory and the way there; the
project itself, its configuration and its levels may be others. `Rebuilt` is such a
history, with the identifiers of each of its builds, and `Settled` is what every
build in it leaves for the next: a directory, and in it a complete index of the
levels that were built, with no level called like the index.

The files of plain identifiers never outlive their levels. An identifier that is
not plain is written like any other but never removed, so its file stays for
good. Level files can have such identifiers: a backslash is a character like any
other in the name of a file, and what stands before the last dot of a name may
itself be one dot or two.

## Main definitions

* `Builds`: A build with every level compiled, as a step from store to store.
* `Untouched`: What may happen between two builds.
* `Rebuilt`: A history of builds.
* `Settled`: What a build leaves for the next.
* `Accounted`: The names that a history of builds explains.

## Theorems

* `mem_names`: The names in a directory are those at which something stands.
* `find?_of_released`, `find?_of_builds`: Where something stands after one build.
* `settled_of_rebuilt`: Every build of a history leaves a settled directory.
* `names_of_rebuilt`: The names in the output directory after a history.
-/

namespace PuzzleLevel

namespace Store

theorem mem_insertName {name other : List Char} {names : List (List Char)} :
    other ∈ insertName name names ↔ other = name ∨ other ∈ names := by
  induction names with
  | nil => simp only [insertName, List.mem_singleton, List.not_mem_nil, or_false]
  | cons first more ih =>
      rw [insertName]
      by_cases hsame : name = first
      · rw [if_pos hsame, hsame, List.mem_cons, ← or_assoc, or_self]
      · rw [if_neg hsame]
        by_cases hless : name < first
        · rw [if_pos hless, List.mem_cons]
        · rw [if_neg hless, List.mem_cons, ih, List.mem_cons, or_left_comm]

theorem mem_foldr_insertName {name : List Char} {names : List (List Char)} :
    name ∈ names.foldr insertName [] ↔ name ∈ names := by
  induction names with
  | nil => rfl
  | cons first more ih => rw [List.foldr_cons, mem_insertName, ih, List.mem_cons]

/-- The names in a directory are those at which something stands. -/
theorem mem_names {store : Store} {location : Location} {name : List Char} :
    name ∈ store.names location ↔ (store.find? (location ++ [name])).isSome = true := by
  have hroot : location ++ [name] ≠ [] :=
    List.append_ne_nil_of_right_ne_nil _ (by simp only [ne_eq, reduceCtorEq, not_false_eq_true])
  rw [names, mem_foldr_insertName, List.mem_filterMap, find?, if_neg hroot, entryIn?,
    Option.isSome_map, List.find?_isSome]
  constructor
  · rintro ⟨⟨place, entry⟩, hmem, hname⟩
    refine ⟨⟨place, entry⟩, hmem, ?_⟩
    simp only [Option.ite_none_right_eq_some, Bool.and_eq_true, decide_eq_true_eq,
      List.isPrefixOf_iff_prefix] at hname
    rcases hname with ⟨⟨hlength, rest, hrest⟩, hlast⟩
    rw [decide_eq_true_eq]
    -- The rest is one name, and that is the last one.
    rw [← hrest, List.length_append, Nat.add_left_cancel_iff, List.length_eq_one_iff] at hlength
    rcases hlength with ⟨only, honly⟩
    rw [← hrest, honly, List.getLast?_concat, Option.some.injEq] at hlast
    rw [← hrest, honly, hlast]
  · rintro ⟨⟨place, entry⟩, hmem, hplace⟩
    refine ⟨⟨place, entry⟩, hmem, ?_⟩
    replace hplace : place = location ++ [name] := decide_eq_true_eq.mp hplace
    simp only [hplace, List.length_append, List.length_singleton, decide_true,
      List.isPrefixOf_iff_prefix.mpr (List.prefix_append ..), Bool.and_self, if_true,
      List.getLast?_concat]

end Store

namespace Release

variable {release : Release} {leaving : List String} {before after : Store}

/-- After a release something stands where its artifacts are, on the way to them,
    and where something stood that neither left nor was a staging place. -/
theorem find?_of_released (h : Released release leaving before after)
    (hstays : ∀ c ∈ release.contents, c.1 ∉ leaving) (l : Location) :
    (after.find? l).isSome = true ↔
      (∃ c ∈ release.contents, l = levelPlace (release.home before) c.1) ∨
        l ∈ wayTo before release.directory ∨
        ((before.find? l).isSome = true ∧
          (∀ id ∈ leaving, l ≠ levelPlace (release.home before) id) ∧
          ∀ c ∈ release.contents, l ≠ stagedPlace (release.home before) c.1) := by
  -- The way to the directory is still there, because the directory is.
  have hway : l ∈ wayTo before release.directory → after.find? l = some .directory := by
    intro hl
    rw [← wayTo_eq_of_here h.keeps.here_eq] at hl
    rcases List.mem_map.mp hl with ⟨p, hp, rfl⟩
    exact (Store.leadsToDirectory_bare.mpr h.leads).directory_of_mem_ancestors hp
  constructor
  · intro hsome
    -- What stands there is an artifact, or nothing has changed it, or it was made.
    by_cases hlevel : ∃ c ∈ release.contents, l = levelPlace (release.home before) c.1
    · exact Or.inl hlevel
    · have hleft : ∀ id ∈ leaving, l ≠ levelPlace (release.home before) id := by
        intro id hid hl
        rw [hl, h.gone id hid] at hsome
        exact absurd hsome Bool.false_ne_true
      have hstage : ∀ c ∈ release.contents, l ≠ stagedPlace (release.home before) c.1 := by
        intro c hc hl
        rw [hl, h.unstaged c hc] at hsome
        exact absurd hsome Bool.false_ne_true
      rcases h.kept l (fun c hc => ⟨fun hl => hlevel ⟨c, hc, hl⟩, hstage c hc⟩) hleft with
        hkept | ⟨hl, _, _⟩
      · rw [hkept] at hsome
        exact Or.inr (Or.inr ⟨hsome, hleft, hstage⟩)
      · exact Or.inr (Or.inl hl)
  · rintro (⟨c, hc, rfl⟩ | hl | ⟨hsome, hleft, hstage⟩)
    · -- Back, the artifacts are in place, the way is there, and all else is kept.
      rw [h.file c hc (hstays c hc)]
      rfl
    · rw [hway hl]
      rfl
    · by_cases hlevel : ∃ c ∈ release.contents, l = levelPlace (release.home before) c.1
      · rcases hlevel with ⟨c, hc, rfl⟩
        rw [h.file c hc (hstays c hc)]
        rfl
      · rcases Option.isSome_iff_exists.mp hsome with ⟨entry, hentry⟩
        rw [Store.find?_of_kept (h.kept l (fun c hc => ⟨fun hl => hlevel ⟨c, hc, hl⟩,
          hstage c hc⟩) hleft) hentry]
        rfl

end Release

/-- A build of some project into a directory that succeeds with every level
    compiled, with the identifiers of the levels in their order. -/
def Builds (out : Path) (order : List String) (before after : Store) : Prop :=
  ∃ (project : Project) (machine : Machine) (report : BuildReport),
    project.outputDirectory = out ∧
      (project.build machine false before).result = .ok report ∧
      report.isSuccess = true ∧
      report.levels.map LevelReport.id = order ∧
      (project.build machine false before).store = after

/-- What may happen to a store between two builds into a directory: anything, but
    the entries of the directory are as they were, and the path still leads there. -/
structure Untouched (out : Path) (before after : Store) : Prop where
  /-- Relative paths start where they started. -/
  here_eq : after.here = before.here
  /-- The entries are as they were. -/
  find?_eq : ∀ name, after.find? (before.place out ++ [name]) =
    before.find? (before.place out ++ [name])
  /-- The path leads where it led. -/
  leads : before.LeadsToDirectory out → after.LeadsToDirectory out

/-- Nothing stands at the end of a path or below. -/
def Missing (out : Path) (store : Store) : Prop :=
  ∀ more, store.find? (store.place out ++ more) = none

/-- A history of builds into a directory that was missing: the identifiers of the
    builds before the last, the latest of them first, those of the last build, and
    what that has left. -/
inductive Rebuilt (out : Path) : List (List String) → List String → Store → Prop
  | first {order : List String} {before after : Store} :
      Missing out before → Builds out order before after → Rebuilt out [] order after
  | next {earlier : List (List String)} {order later : List String}
      {before edited after : Store} :
      Rebuilt out earlier order before → Untouched out before edited →
      Builds out later edited after → Rebuilt out (order :: earlier) later after

/-- What a build leaves for the next: a directory, and in it the index of the
    levels that were built. -/
structure Settled (out : Path) (order : List String) (store : Store) : Prop where
  /-- The directory is there. -/
  leads : store.LeadsToDirectory out
  /-- Its index lists the levels. -/
  index : ∃ index : LevelIndex, store.entryAt (out.child indexFileName) =
    .ok (.file (.text (index.document order).indented))
  /-- No level is called like the index. -/
  free : indexName ∉ order

/-- A settled directory has the order that the next build looks for. -/
theorem previousOrder_of_settled {out : Path} {order : List String} {store : Store}
    (h : Settled out order store) : previousOrder store out = order := by
  rcases h.index with ⟨index, hindex⟩
  exact previousOrder_eq hindex

/-- What is not touched stays settled. -/
theorem settled_of_untouched {out : Path} {order : List String} {before after : Store}
    (huntouched : Untouched out before after) (h : Settled out order before) :
    Settled out order after := by
  have hname : Path.IsName indexFileName.toList := isName_json (by decide : '/' ∉ indexName.toList)
  have hleads := huntouched.leads h.leads
  have hplace := Store.place_eq_of_here huntouched.here_eq
  rcases h.index with ⟨index, hindex⟩
  rcases Store.entryAt_ok_iff.mp hindex with ⟨hlocate, hfile⟩
  rcases (Store.locate_child_iff hname).mp hlocate with ⟨_, hfault, hlong, hend⟩
  refine ⟨hleads, ⟨index, ?_⟩, h.free⟩
  rw [Store.entryAt_ok_iff, hplace, hend, huntouched.find?_eq, ← hend]
  refine ⟨?_, hfile⟩
  rw [Store.locate_child_iff hname, hplace]
  exact ⟨hleads, hfault, hlong, hend⟩

section Step

variable {out : Path} {order : List String} {before after : Store}

/-- A build is the release of its levels. -/
theorem released_of_builds (h : Builds out order before after) :
    ∃ release : Release, release.directory = out ∧ release.order = order ∧
      release.order.length = release.index.levels.length ∧
      Release.Released release (release.leaving before) before after := by
  rcases h with ⟨project, machine, report, hout, hresult, hsuccess, horder, hafter⟩
  rcases Project.build_ok_release hresult hsuccess with
    ⟨files, release, hfiles, hdir, hids, hlength, hlevels, hrun⟩
  rw [hafter] at hrun
  have hslash : ∀ id ∈ release.order, '/' ∉ id.toList := by
    rw [hids]
    exact Project.noSlash_of_mem_levelFiles hfiles
  exact ⟨release, hdir.trans hout, hlevels.symm.trans horder, hlength.symm,
    (Release.run_ok hslash hrun).1⟩

theorem here_of_builds (h : Builds out order before after) : after.here = before.here := by
  rcases released_of_builds h with ⟨release, _, _, _, hreleased⟩
  exact hreleased.keeps.here_eq

/-- A build leaves a settled directory, if the old index did not list a level called
    like the index. -/
theorem settled_of_builds (h : Builds out order before after)
    (hindex : indexName ∉ previousOrder before out) : Settled out order after := by
  rcases released_of_builds h with ⟨release, rfl, rfl, hlength, hreleased⟩
  have hstays := Release.notMem_leaving hlength hindex release.mem_contents_index
  exact ⟨hreleased.leads, ⟨release.index, hreleased.entryAt_index hstays⟩,
    ((Release.nodup_contents hlength).mp hreleased.nodup).2⟩

theorem levelPlace_eq_iff {home : Location} {name : List Char} {id : String} :
    home ++ [name] = levelPlace home id ↔ name = (id ++ ".json").toList := by
  rw [levelPlace, List.append_cancel_left_eq, List.cons.injEq, and_iff_left rfl]

theorem stagedPlace_eq_iff {home : Location} {name : List Char} {id : String} :
    home ++ [name] = stagedPlace home id ↔ name = (stagedName id).toList := by
  rw [stagedPlace, List.append_cancel_left_eq, List.cons.injEq, and_iff_left rfl]

/-- After a build something stands in the directory exactly where its artifacts are, on
    the way there, or where something stood that was neither a staging file nor the
    file of a plain identifier that is gone. -/
theorem find?_of_builds (h : Builds out order before after)
    (hindex : indexName ∉ previousOrder before out) (name : List Char) :
    (after.find? (before.place out ++ [name])).isSome = true ↔
      (∃ id ∈ order ++ [indexName], name = (id ++ ".json").toList) ∨
        before.place out ++ [name] ∈ wayTo before out ∨
        ((before.find? (before.place out ++ [name])).isSome = true ∧
          (∀ id ∈ previousOrder before out, id ∉ order → isPlainId id = true →
            name ≠ (id ++ ".json").toList) ∧
          ∀ id ∈ order ++ [indexName], name ≠ (stagedName id).toList) := by
  rcases released_of_builds h with ⟨release, rfl, rfl, hlength, hreleased⟩
  have hstays : ∀ c ∈ release.contents, c.1 ∉ release.leaving before :=
    fun c hc => Release.notMem_leaving hlength hindex hc
  rw [Release.find?_of_released hreleased hstays, ← Release.names_contents hlength]
  simp only [Release.home, ne_eq, levelPlace_eq_iff, stagedPlace_eq_iff, Release.mem_leaving,
    and_imp, List.mem_map, exists_exists_and_eq_and, forall_exists_index,
    forall_apply_eq_imp_iff₂]

end Step

/-- Where nothing stands there is no index. -/
theorem previousOrder_of_missing {out : Path} {store : Store} (h : Missing out store) :
    previousOrder store out = [] := by
  refine previousOrder_of_not_leads fun hleads => ?_
  have hnone := h []
  rw [List.append_nil, hleads.find?_eq] at hnone
  exact absurd hnone (by simp only [reduceCtorEq, not_false_eq_true])

/-- Every build of a history leaves a settled directory. -/
theorem settled_of_rebuilt {out : Path} {earlier : List (List String)} {order : List String}
    {store : Store} (h : Rebuilt out earlier order store) : Settled out order store := by
  induction h with
  | first hmissing hbuilds =>
      refine settled_of_builds hbuilds ?_
      rw [previousOrder_of_missing hmissing]
      exact List.not_mem_nil
  | next _ huntouched hbuilds ih =>
      have hedited := settled_of_untouched huntouched ih
      refine settled_of_builds hbuilds ?_
      rw [previousOrder_of_settled hedited]
      exact hedited.free

/-- Names that may stand in the output directory after a history, apart from those on
    the way there: the files of the last build, and those of earlier identifiers that
    are not plain. -/
def Accounted (earlier : List (List String)) (order : List String) (name : List Char) : Prop :=
  (∃ id ∈ order ++ [indexName], name = (id ++ ".json").toList) ∨
    ∃ past ∈ earlier, ∃ id ∈ past, isPlainId id = false ∧ name = (id ++ ".json").toList

section Accounted

variable {earlier : List (List String)} {order later : List String} {name : List Char}

/-- What was accounted for before a build and was not removed by it still is. -/
theorem accounted_of_kept (h : Accounted earlier order name)
    (hleft : ∀ id ∈ order, id ∉ later → isPlainId id = true → name ≠ (id ++ ".json").toList) :
    Accounted (order :: earlier) later name := by
  rcases h with ⟨id, hid, hname⟩ | ⟨past, hpast, hold⟩
  · rcases List.mem_append.mp hid with hid | hid
    · by_cases hlater : id ∈ later
      · exact Or.inl ⟨id, List.mem_append_left _ hlater, hname⟩
      · -- It is gone from the order, so only being not plain has saved it.
        have hplain : isPlainId id = false :=
          Bool.eq_false_iff.mpr fun hplain => hleft id hid hlater hplain hname
        exact Or.inr ⟨order, List.mem_cons_self .., id, hid, hplain, hname⟩
    · exact Or.inl ⟨id, List.mem_append_right _ hid, hname⟩
  · exact Or.inr ⟨past, List.mem_cons_of_mem _ hpast, hold⟩

/-- What is accounted for after a build is an artifact of it, or was accounted for and
    was neither removed nor a staging file. -/
theorem kept_of_accounted (h : Accounted (order :: earlier) later name) :
    (∃ id ∈ later ++ [indexName], name = (id ++ ".json").toList) ∨
      (Accounted earlier order name ∧
        (∀ id ∈ order, id ∉ later → isPlainId id = true → name ≠ (id ++ ".json").toList) ∧
        ∀ id ∈ later ++ [indexName], name ≠ (stagedName id).toList) := by
  rcases h with hnew | ⟨past, hpast, id, hid, hodd, hname⟩
  · exact Or.inl hnew
  · refine Or.inr ⟨?_, fun other _ _ hplain hother => ?_, fun other _ hother => ?_⟩
    · rcases List.mem_cons.mp hpast with rfl | hpast
      · exact Or.inl ⟨id, List.mem_append_left _ hid, hname⟩
      · exact Or.inr ⟨past, hpast, id, hid, hodd, hname⟩
    · rw [hname, String.toList_inj, String.append_left_inj] at hother
      rw [hother, hplain] at hodd
      exact absurd hodd (by simp only [reduceCtorEq, not_false_eq_true])
    · rw [hname, String.toList_append] at hother
      exact append_json_ne_stagedName _ _ hother

end Accounted

/-- Where something stands in the output directory after a history: where it is
    accounted for, and on the way to the directory, if that leads through itself. -/
theorem find?_of_rebuilt {out : Path} {earlier : List (List String)} {order : List String}
    {store : Store} (h : Rebuilt out earlier order store) (name : List Char) :
    (store.find? (store.place out ++ [name])).isSome = true ↔
      Accounted earlier order name ∨ store.place out ++ [name] ∈ wayTo store out := by
  induction h with
  | @first order before after hmissing hbuilds =>
      -- The first build finds no index, so nothing is removed.
      have hprevious := previousOrder_of_missing hmissing
      have hhere := here_of_builds hbuilds
      rw [Store.place_eq_of_here hhere, wayTo_eq_of_here hhere,
        find?_of_builds hbuilds (by rw [hprevious]; exact List.not_mem_nil), hmissing, Accounted]
      simp only [Option.isSome_none, Bool.false_eq_true, false_and, or_false, List.not_mem_nil,
        exists_const]
  | @next earlier order later before edited after hrebuilt huntouched hbuilds ih =>
      -- A later build finds the order of the one before it, whatever was edited since.
      have hsettled := settled_of_untouched huntouched (settled_of_rebuilt hrebuilt)
      have hprevious := previousOrder_of_settled hsettled
      have hhere := here_of_builds hbuilds
      rw [Store.place_eq_of_here hhere, wayTo_eq_of_here hhere,
        find?_of_builds hbuilds (by rw [hprevious]; exact hsettled.free), hprevious,
        Store.place_eq_of_here huntouched.here_eq, wayTo_eq_of_here huntouched.here_eq,
        huntouched.find?_eq, ih]
      constructor
      · rintro (hnew | hway | ⟨hold | hway, hleft, _⟩)
        · exact Or.inl (Or.inl hnew)
        · exact Or.inr hway
        · exact Or.inl (accounted_of_kept hold hleft)
        · exact Or.inr hway
      · rintro (hold | hway)
        · rcases kept_of_accounted hold with hnew | ⟨hold, hleft, hstaged⟩
          · exact Or.inl hnew
          · exact Or.inr (Or.inr ⟨Or.inl hold, hleft, hstaged⟩)
        · exact Or.inr (Or.inl hway)

/-- The names in the output directory after a history of builds: the index, the
    files of the levels of the last build, the files of earlier levels whose
    identifiers are not plain, and what the path of the directory itself leads
    through. -/
theorem names_of_rebuilt {out : Path} {earlier : List (List String)} {order : List String}
    {store : Store} (h : Rebuilt out earlier order store) (name : List Char) :
    name ∈ store.names (store.place out) ↔
      name = indexFileName.toList ∨ (∃ id ∈ order, name = (id ++ ".json").toList) ∨
        (∃ past ∈ earlier, ∃ id ∈ past, isPlainId id = false ∧ name = (id ++ ".json").toList) ∨
        store.place out ++ [name] ∈ wayTo store out := by
  have hindex : (indexName ++ ".json").toList = indexFileName.toList := by decide
  rw [Store.mem_names, find?_of_rebuilt h, Accounted, or_assoc, ← or_assoc (c := _ ∨ _)]
  refine or_congr_left ?_
  simp only [List.mem_append, List.mem_singleton, or_and_right, exists_or, exists_eq_left, hindex]
  exact or_comm

section Backslash

/-- Two levels, one of them called `\`. -/
def backslashStore : Store :=
  { entries := [(["levels".toList], .directory),
      (["levels".toList, "\\.txt".toList], .file (.text "S\n")),
      (["levels".toList, "a.txt".toList], .file (.text "S\n"))] }

/-- The level files that are discovered there. -/
def backslashFound : List LevelFile :=
  [⟨"\\", .ofString "levels/\\.txt"⟩, ⟨"a", .ofString "levels/a.txt"⟩]

/-- What a build leaves. -/
def built (machine : Machine) (store : Store) : Store :=
  (outProject.build machine false store).store

/-- What is left when both levels are built and then the one is removed. -/
def backslashRemoved (machine : Machine) : Store :=
  (built machine backslashStore).erase ["levels".toList, "\\.txt".toList]

theorem builds_built {store : Store} {files : List LevelFile}
    (hfiles : outProject.levelFiles store = .ok files)
    (hread : ∀ file ∈ files, store.readText file.path = .ok "S\n")
    (hhere : store.find? store.here = some .directory)
    (hout : (store.makeDirectories outProject.outputDirectory.bare).2 = none)
    (hfits : NamesFit outProject.outputDirectory (files.map LevelFile.id ++ [indexName])
      (outProject.dropped store files))
    (hindex : indexName ∉ files.map LevelFile.id)
    (hnul : ∀ id ∈ outProject.dropped store files, '\x00' ∉ id.toList)
    (hfree : Unblocked (store.makeDirectories outProject.outputDirectory.bare).1
      (store.place outProject.outputDirectory) (files.map LevelFile.id ++ [indexName])
      (outProject.dropped store files)) :
    Builds outProject.outputDirectory (files.map LevelFile.id) store (built {} store) := by
  have hcompile : compile "S\n".toList outProject.config.compileOptions =
      .ok ⟨⟨[[.floor]], ⟨0, 0⟩⟩, ⟨[]⟩, []⟩ := by decide +kernel
  have hall : ∀ file ∈ files, ∃ compiled,
      compileFile store file.path outProject.config.compileOptions = .ok compiled := by
    intro file hfile
    rw [compileFile, hread file hfile]
    exact ⟨_, hcompile⟩
  rcases @Project.build_of_unblocked outProject {} store files hfiles hall rfl hhere hout hfits
    hindex hnul hfree with ⟨report, hresult, hsuccess, hids, _⟩
  exact ⟨outProject, {}, report, rfl, hresult, hsuccess, hids, rfl⟩

theorem backslash_missing : Missing outProject.outputDirectory backslashStore := by
  intro more
  have hplace : backslashStore.place outProject.outputDirectory = ["out".toList] := by
    decide +kernel
  rw [hplace, Store.find?, if_neg (by simp), Store.entryIn?]
  simp [backslashStore]

theorem backslash_built :
    Rebuilt outProject.outputDirectory [] ["\\", "a"] (built {} backslashStore) :=
  .first backslash_missing (@builds_built backslashStore backslashFound (by decide +kernel)
    (by decide +kernel) rfl (by decide +kernel)
    ⟨by decide +kernel, by decide +kernel, by decide +kernel⟩ (by decide) (by decide +kernel)
    ⟨by decide +kernel, by decide +kernel, by decide +kernel⟩)

theorem backslash_untouched : Untouched outProject.outputDirectory (built {} backslashStore)
    (backslashRemoved {}) := by
  have hhere : ∀ (store : Store) (l : Location), (store.erase l).here = store.here :=
    fun _ _ => rfl
  have hplace : (built {} backslashStore).place outProject.outputDirectory = ["out".toList] := by
    decide +kernel
  refine ⟨hhere _ _, fun name => Store.find?_erase_other _ _ _ ?_, fun _ => ⟨?_, ?_⟩⟩
  · rw [hplace]
    intro he
    exact absurd (List.cons.inj he).1 (by decide)
  · decide +kernel
  · decide +kernel

-- The order that the second build finds is known without reading the index: it is
-- the one that the first build was settled with.
theorem backslash_dropped : outProject.dropped (backslashRemoved {}) oneFileFound = [] := by
  rw [Project.dropped, previousOrder_of_settled
    (settled_of_untouched backslash_untouched (settled_of_rebuilt backslash_built))]
  decide

theorem backslash_rebuilt : Rebuilt outProject.outputDirectory [["\\", "a"]] ["a"]
    (built {} (backslashRemoved {})) := by
  refine .next backslash_built backslash_untouched (@builds_built (backslashRemoved {})
    oneFileFound (by decide +kernel) (by decide +kernel) (by decide +kernel) (by decide +kernel)
    ⟨by decide +kernel, by decide +kernel, ?_⟩ (by decide) ?_
    ⟨by decide +kernel, by decide +kernel, ?_⟩)
  · rw [backslash_dropped]
    decide
  · rw [backslash_dropped]
    decide
  · rw [backslash_dropped]
    decide

/-- The file of the removed level is still there. -/
theorem backslash_stale :
    Rebuilt outProject.outputDirectory [["\\", "a"]] ["a"] (built {} (backslashRemoved {})) ∧
      "\\.json".toList ∈ (built {} (backslashRemoved {})).names
        ((built {} (backslashRemoved {})).place outProject.outputDirectory) :=
  ⟨backslash_rebuilt, (names_of_rebuilt backslash_rebuilt _).mpr
    (Or.inr (Or.inr (Or.inl ⟨["\\", "a"], by decide, "\\", by decide, by decide, by decide⟩)))⟩

end Backslash

end PuzzleLevel
