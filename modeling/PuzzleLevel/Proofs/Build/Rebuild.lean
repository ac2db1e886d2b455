import PuzzleLevel.Proofs.Build.Input
import PuzzleLevel.Proofs.Build.Rediscovery
import PuzzleLevel.Proofs.Release.Again

/-!
# Building Again

A build that succeeds and is made again from where it ended does the same again and
changes nothing. There are three reasons why this could fail, and none of them applies.

The second build could find other level files. It does not, because the release has put
nothing into the source directory but directories, if that is another than the output
directory. (An extension with a slash in it may lead out of the source directory, and
then what was built can be found; so there is to be none.) It could find other texts in
the level files, but a build does not write over them. And its release could do
something else, such as remove what the first one wrote. That depends on what the old
index lists, which is why it is not true of every state of the output directory. An
index that lists itself makes a release remove the index that it writes, and the release
after that writes it.

No build has written such an index, and this is what holds of every state that builds
have led to: the index is missing, or it is one that a build has left. `Reached` are
these states. A build in such a history may be any that had a result, a dry run or one
with failures included, as these release nothing.

## Main definitions

* `Reached`: The output directory is as builds have left it.
* `IndexSound`: The index is missing, or it is the index of a build.

## Theorems

* `indexSound_of_reached`: The index of an output directory that builds have left.
* `due_congr`: The same texts are due to be released again.
* `steady_of_run`: A release leaves the files of another directory alone.
* `levelFiles_of_run`, `compileFile_of_run`: Behind it the same is found and compiled.
* `rebuild`: A build that is made again changes nothing.
-/

namespace PuzzleLevel

/-- The output directory is as builds have left it: it was missing once, and since then
    there were builds into it that had a result, and whatever else leaves its entries
    alone. -/
inductive Reached (out : Path) : Store → Prop
  | missing {store : Store} : Missing out store → Reached out store
  | edited {before after : Store} :
      Reached out before → Untouched out before after → Reached out after
  | built {before : Store} {project : Project} {machine : Machine} {dryRun : Bool}
      {report : BuildReport} : Reached out before → project.outputDirectory = out →
      (project.build machine dryRun before).result = .ok report →
      Reached out (project.build machine dryRun before).store

/-- The index of an output directory is missing, or it is the index of a build. -/
def IndexSound (out : Path) (store : Store) : Prop :=
  store.find? (levelPlace (store.place out) indexName) = none ∨ ∃ order, Settled out order store

section Index

variable {out : Path} {before after store : Store}

/-- A sound index does not list itself. -/
theorem notMem_of_indexSound (h : IndexSound out store) :
    indexName ∉ previousOrder store out := by
  rcases h with hnone | ⟨order, hsettled⟩
  · rw [previousOrder, Store.readText]
    cases hentry : store.entryAt (out.child indexFileName) with
    | error fault => exact List.not_mem_nil
    | ok entry =>
        -- What is found by the path of the index stands at its place.
        have hfind := (Store.entryAt_ok_iff.mp hentry).2
        rw [← levelPath_indexName, place_levelPath store out (by decide), hnone] at hfind
        exact absurd hfind (by simp only [reduceCtorEq, not_false_eq_true])
  · rw [previousOrder_of_settled hsettled]
    exact hsettled.free

theorem indexSound_of_untouched (huntouched : Untouched out before after)
    (h : IndexSound out before) : IndexSound out after := by
  rcases h with hnone | ⟨order, hsettled⟩
  · refine Or.inl ?_
    rw [Store.place_eq_of_here huntouched.here_eq, levelPlace, huntouched.find?_eq]
    exact hnone
  · exact Or.inr ⟨order, settled_of_untouched huntouched hsettled⟩

end Index

namespace Project

section Build

variable {project : Project} {machine later : Machine} {dryRun : Bool} {before after : Store}
  {files : List LevelFile} {release : Release} {report : BuildReport}

/-- A build that has a result leaves the store alone, or it has succeeded and released
    its levels. -/
theorem store_or_builds (h : (project.build machine dryRun before).result = .ok report) :
    (project.build machine dryRun before).store = before ∨
      ∃ order, Builds project.outputDirectory order before
        (project.build machine dryRun before).store := by
  cases dryRun with
  | true => exact Or.inl (store_of_nothing_due fun _ _ => due_of_dry _)
  | false =>
      by_cases hsuccess : report.isSuccess = true
      · exact Or.inr ⟨_, project, machine, report, rfl, h, hsuccess, rfl, rfl⟩
      · refine Or.inl (store_of_nothing_due fun files hfiles => ?_)
        rcases events_of_build_ok h with ⟨found, hfound, hlevels, _⟩
        rw [hfiles, Except.ok.injEq] at hfound
        -- What was collected are the levels of the report, and one of them failed.
        have hfailure : (project.collected machine before files).isSuccess = false := by
          rw [Bool.eq_false_iff]
          intro hcollected
          rw [BuildReport.isSuccess_iff, hfound, ← hlevels, ← BuildReport.isSuccess_iff]
            at hcollected
          exact hsuccess hcollected
        rw [due, hfailure]
        rfl

/-- The same results are collected from the same texts. -/
theorem compiledLevels_congr (h : ∀ file ∈ files,
    compileFile after file.path project.config.compileOptions =
      compileFile before file.path project.config.compileOptions) :
    (project.collected later after files).compiledLevels =
      (project.collected machine before files).compiledLevels := by
  rw [BuildReport.compiledLevels, BuildReport.compiledLevels, collected, collected, compileAll,
    compileAll, List.filterMap_map, List.filterMap_map]
  refine List.filterMap_congr fun file hfile => ?_
  rw [Function.comp_apply, Function.comp_apply, h file hfile]
  cases compileFile before file.path project.config.compileOptions <;> rfl

/-- The same is due to be released of the same texts. -/
theorem due_congr (h : ∀ file ∈ files,
    compileFile after file.path project.config.compileOptions =
      compileFile before file.path project.config.compileOptions) :
    project.due dryRun (project.collected later after files) =
      project.due dryRun (project.collected machine before files) := by
  have hsuccess : (project.collected later after files).isSuccess =
      (project.collected machine before files).isSuccess := by
    rw [Bool.eq_iff_iff, isSuccess_collected, isSuccess_collected]
    exact forall₂_congr fun file hfile => by rw [h file hfile]
  rw [due, due, hsuccess, release?, release?, BuildReport.index?, BuildReport.index?,
    compiledLevels_congr h]

section Apart

variable (hnamed : before.Named)
  (hdirs : before.place project.sourceDirectory ≠ before.place project.outputDirectory)
  (hfiles : project.levelFiles before = .ok files)

include hnamed hdirs hfiles

/-- A build writes over no level file that is in another directory than its output. -/
theorem not_writesOver_of_ne (hslash : ∀ extension ∈ project.config.extensions,
    '/' ∉ extension.toList) {file : LevelFile} (hfile : file ∈ files) :
    ¬ project.WritesOver before files file := by
  rcases discover_of_levelFiles hfiles with ⟨hdiscover, hne⟩
  rcases (Store.mem_discover_iff hdiscover hne hslash file).mp hfile with
    ⟨name, hlisted, _, hpath, _, _⟩
  have hname : Path.IsName name := hnamed.isName_of_find? (Store.mem_names.mp hlisted) name
    (List.mem_append_right _ (List.mem_singleton_self name))
  have hplace : before.place file.path = before.place project.sourceDirectory ++ [name] := by
    rw [hpath, Store.place_follow_name before _ hname, Store.place_respelled]
  rintro (hlevel | ⟨id, _, hstage⟩)
  · rw [hplace, levelPlace] at hlevel
    exact hdirs (List.append_inj_left' hlevel rfl)
  · rw [hplace, stagedPlace] at hstage
    exact hdirs (List.append_inj_left' hstage rfl)

/-- A release leaves the files of another directory alone. -/
theorem steady_of_run
    (hdue : project.due dryRun (project.collected machine before files) = .ok (some release)) :
    Store.Steady project.sourceDirectory before (release.run before).1 := by
  rcases release_of_due hdue with ⟨hdir, horder, _⟩
  rcases Release.kept_of_run (by rw [horder]; exact noSlash_of_mem_levelFiles hfiles) before with
    ⟨hkeeps, hkept⟩
  have hhome : ∀ name other : List Char, before.place project.sourceDirectory ++ [name] ≠
      release.home before ++ [other] := by
    intro name other he
    rw [Release.home, hdir] at he
    exact hdirs (List.append_inj_left' he rfl)
  have hentry : ∀ name, Store.Kept (wayTo before release.directory) before (release.run before).1
      (before.place project.sourceDirectory ++ [name]) :=
    fun name => hkept _ (fun _ _ => ⟨hhome _ _, hhome _ _⟩) fun _ _ => hhome _ _
  refine ⟨hkeeps, fun name hsome => ?_, fun name content => ?_⟩
  · have hmem : name ∈ before.place project.sourceDirectory ++ [name] :=
      List.mem_append_right _ (List.mem_singleton_self name)
    rcases hentry name with hsame | ⟨hway, _, _⟩
    · rw [hsame] at hsome
      exact hnamed.isName_of_find? hsome name hmem
    · -- A new directory is on the way of a path, which leads through names.
      rcases List.mem_map.mp hway with ⟨a, _, ha⟩
      exact hnamed.isName_of_mem_place a name (ha ▸ hmem)
  · rcases hentry name with hsame | ⟨_, hnone, hdirectory⟩
    · rw [hsame]
    · rw [hnone, hdirectory]
      simp only [Option.some.injEq, reduceCtorEq]

section Released

variable (hslash : ∀ extension ∈ project.config.extensions, '/' ∉ extension.toList)
  (hdue : project.due dryRun (project.collected machine before files) = .ok (some release))

include hslash hdue

/-- Behind a release the same level files are found. -/
theorem levelFiles_of_run : project.levelFiles (release.run before).1 = .ok files := by
  rcases discover_of_levelFiles hfiles with ⟨hdiscover, hne⟩
  exact levelFiles_of_discover hne (Store.discover_steady hnamed
    (steady_of_run hnamed hdirs hfiles hdue) hslash hne hdiscover)

/-- They hold what they held, so they are compiled as they were. -/
theorem compileFile_of_run {file : LevelFile} (hfile : file ∈ files) :
    compileFile (release.run before).1 file.path project.config.compileOptions =
      compileFile before file.path project.config.compileOptions := by
  have hdiscover := (discover_of_levelFiles hfiles).1
  rcases Store.isFile_iff.mp ((Store.discover_ok hdiscover).2 file hfile).2 with ⟨content, hfound⟩
  have hentry := Store.entryAt_ok_iff.mpr hfound
  have hover := not_writesOver_of_ne hnamed hdirs hfiles hslash hfile
  rw [compileFile, compileFile, Store.readText, Store.readText, hentry,
    entryAt_of_run hfiles hdue hfile hover hentry]

end Released

end Apart

end Build

end Project

/-- Whatever builds have led to, its index is sound. -/
theorem indexSound_of_reached {out : Path} {store : Store} (h : Reached out store) :
    IndexSound out store := by
  induction h with
  | missing hmissing => exact Or.inl (hmissing _)
  | edited _ huntouched ih => exact indexSound_of_untouched huntouched ih
  | built _ hout hresult ih =>
      rcases Project.store_or_builds hresult with hsame | ⟨order, hbuilds⟩
      · rw [hsame]
        exact ih
      · rw [hout] at hbuilds
        exact Or.inr ⟨order, settled_of_builds hbuilds (notMem_of_indexSound ih)⟩

namespace Project

/-- A build that succeeds and is made again succeeds again with the same levels and the
    same outputs, and every location is as the first one has left it. This needs that the
    output directory is as builds have left it, that it is not the source directory, and
    that no extension has a slash in it. -/
theorem rebuild {project : Project} {machine later : Machine} {before : Store}
    {report : BuildReport} (hreached : Reached project.outputDirectory before)
    (hnamed : before.Named)
    (hdirs : before.place project.sourceDirectory ≠ before.place project.outputDirectory)
    (hslash : ∀ extension ∈ project.config.extensions, '/' ∉ extension.toList)
    (hresult : (project.build machine false before).result = .ok report)
    (hsuccess : report.isSuccess = true) (hpool : later.poolFault = none) :
    ∃ again,
      (project.build later false (project.build machine false before).store).result = .ok again ∧
      again.levels.map LevelReport.untimed = report.levels.map LevelReport.untimed ∧
      again.outputs = report.outputs ∧
      ∀ l, (project.build later false (project.build machine false before).store).store.find? l =
        (project.build machine false before).store.find? l := by
  rcases build_ok_due hresult hsuccess with ⟨files, release, hfiles, hdue, hreport, hrun⟩
  rcases release_of_due hdue with ⟨hdir, horder, hlength⟩
  have hids : ∀ id ∈ release.order, '/' ∉ id.toList := by
    rw [horder]
    exact noSlash_of_mem_levelFiles hfiles
  -- The first release stands, because the old index did not list itself.
  have hindex : indexName ∉ previousOrder before release.directory := by
    rw [hdir]
    exact notMem_of_indexSound (indexSound_of_reached hreached)
  rcases (Release.standing_of_run_ok hids
    (fun c hc => Release.notMem_leaving hlength.symm hindex hc) hrun).run with
    ⟨again, hrunAgain, _, hsame⟩
  have hafter : (project.build machine false before).store = (release.run before).1 := by rw [hrun]
  rw [hafter] at hrunAgain hsame ⊢
  -- The second build finds the same texts, so the same release is due.
  have hagain := levelFiles_of_run hnamed hdirs hfiles hslash hdue
  have hcompile := fun file (hfile : file ∈ files) =>
    compileFile_of_run hnamed hdirs hfiles hslash hdue hfile
  have hdueAgain : project.due false (project.collected later (release.run before).1 files) =
      .ok (some release) := by
    rw [due_congr hcompile, hdue]
  rw [build_eq_finish hagain hpool, (finish_of_due hdueAgain).2.1, (finish_of_due hdueAgain).2.2,
    hrunAgain, BuildReport.released]
  refine ⟨_, rfl, ?_, (Release.run_ok hids hrun).2.symm, hsame⟩
  rw [hreport, untimed_collected, untimed_collected]
  exact List.map_congr_left fun file hfile => by rw [hcompile file hfile]

end Project

section Again

/-- What is reported of the level file of a project that builds. -/
def oneFileReport : BuildReport :=
  { levels := [⟨"a", .ofString "levels/a.txt", .compiled ⟨[[.floor]], ⟨0, 0⟩⟩, [], .zero⟩],
    outputs := [.ofString "out/a.json", .ofString "out/index.json"] }

theorem oneFile_missing : Missing outProject.outputDirectory oneFile := by
  intro more
  have hplace : oneFile.place outProject.outputDirectory = ["out".toList] := by decide +kernel
  rw [hplace, Store.find?, if_neg (by simp), Store.entryIn?]
  simp [oneFile]

theorem oneFile_rebuild :
    Reached outProject.outputDirectory oneFile ∧ oneFile.Named ∧
      oneFile.place outProject.sourceDirectory ≠ oneFile.place outProject.outputDirectory ∧
      (∀ extension ∈ outProject.config.extensions, '/' ∉ extension.toList) ∧
      (outProject.build {} false oneFile).result = .ok oneFileReport ∧
      ∃ again,
        (outProject.build {} false (outProject.build {} false oneFile).store).result =
          .ok again ∧
        again.levels.map LevelReport.untimed = oneFileReport.levels.map LevelReport.untimed ∧
        again.outputs = oneFileReport.outputs ∧
        ∀ l,
          (outProject.build {} false (outProject.build {} false oneFile).store).store.find? l =
            (outProject.build {} false oneFile).store.find? l := by
  have hnamed : oneFile.Named := by decide
  have hdirs : oneFile.place outProject.sourceDirectory ≠
      oneFile.place outProject.outputDirectory := by decide +kernel
  have hslash : ∀ extension ∈ outProject.config.extensions, '/' ∉ extension.toList := by decide
  have hresult : (outProject.build {} false oneFile).result = .ok oneFileReport := by
    decide +kernel
  exact ⟨.missing oneFile_missing, hnamed, hdirs, hslash, hresult,
    Project.rebuild (.missing oneFile_missing) hnamed hdirs hslash hresult rfl rfl⟩

/-- A project that looks for level files in its output directory, which is below that of
    its level files and has a name that matches. -/
def slashProject : Project :=
  ⟨{ source := .ofString "s", output := .ofString "s/b.out",
     extensions := ["txt", "out/z.json"] }, .ofString ""⟩

/-- A level file of it. -/
def slashStore : Store :=
  { entries := [(["s".toList], .directory),
      (["s".toList, "z.txt".toList], .file (.text "S\n"))] }

/-- What is reported of the first build. -/
def slashReport : BuildReport :=
  { levels := [⟨"z", .ofString "s/z.txt", .compiled ⟨[[.floor]], ⟨0, 0⟩⟩, [], .zero⟩],
    outputs := [.ofString "s/b.out/z.json", .ofString "s/b.out/index.json"] }

theorem slashStore_missing : Missing slashProject.outputDirectory slashStore := by
  intro more
  have hplace : slashStore.place slashProject.outputDirectory =
      ["s".toList, "b.out".toList] := by decide +kernel
  rw [hplace, Store.find?, if_neg (by simp), Store.entryIn?]
  simp [slashStore]

/-- With a slash in an extension, a build may find what it has built. The second build of
    such a project fails, because a level file and its artifact have one identifier. -/
theorem not_rebuild_of_slash :
    ¬ ∀ (project : Project) (machine later : Machine) (before : Store) (report : BuildReport),
        Reached project.outputDirectory before → before.Named →
        before.place project.sourceDirectory ≠ before.place project.outputDirectory →
        (project.build machine false before).result = .ok report → report.isSuccess = true →
        later.poolFault = none →
        ∃ again,
          (project.build later false (project.build machine false before).store).result =
            .ok again := by
  intro h
  rcases h slashProject {} {} slashStore slashReport (.missing slashStore_missing) (by decide)
    (by decide +kernel) (by decide +kernel) rfl rfl with ⟨again, hagain⟩
  have hfails :
      (slashProject.build {} false (slashProject.build {} false slashStore).store).result =
        .error (.discovery (.duplicate "z" (.ofString "s/b.out/z.json") (.ofString "s/z.txt"))) := by
    decide +kernel
  rw [hfails] at hagain
  exact absurd hagain (by simp only [reduceCtorEq, not_false_eq_true])

end Again

end PuzzleLevel
