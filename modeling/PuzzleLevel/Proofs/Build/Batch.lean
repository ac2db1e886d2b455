import PuzzleLevel.Proofs.Build

/-!
# Builds That Release Nothing

A build reads and compiles every level file before it decides whether to release
anything. So a file that fails costs the others nothing: each of them has its line in
the report, in the order of discovery, whatever became of the ones around it. What it
costs is the release, and that is all or nothing here: a build of which nothing is due
leaves the store as it was, not just the output directory.

A dry run differs from a real one in that decision alone. The two compile the same
files, so their reports say the same about each of them; only the durations are up to
the machine, and `untimed` takes them out of the comparison.

## Main definitions

* `LevelReport.untimed`: A report without the time that it took.
* `Project.Tells`: A report tells what became of a level file.

## Theorems

* `due_of_failure`, `due_of_dry`: When nothing is due.
* `store_cases`: What a build does to the store.
* `untimed_collected`: Reports depend on the machine for their durations alone.
* `tells_collected`: Every level file is reported, in its order.
* `collect_then_abort`: A build that releases nothing changes nothing and reports
  everything.
-/

namespace PuzzleLevel

/-- A report without the time that it took. -/
def LevelReport.untimed (report : LevelReport) : LevelReport :=
  { report with duration := .zero }

namespace Project

/-- A report tells what became of a level file: the level and the warnings that it is
    compiled to, or the reason why it is not compiled. -/
structure Tells (project : Project) (store : Store) (file : LevelFile) (report : LevelReport) :
    Prop where
  id_eq : report.id = file.id
  path_eq : report.path = file.path
  /-- A file that compiles is reported with its level. -/
  compiled : ∀ compiled,
    compileFile store file.path project.config.compileOptions = .ok compiled →
      report.outcome = .compiled compiled.level ∧
        report.warnings = compiled.warnings.map Warning.message
  /-- Any other file is reported with its error and without a level. -/
  failed : ∀ error,
    compileFile store file.path project.config.compileOptions = .error error →
      report.outcome = .failed error.message ∧ report.warnings = []

section Collected

variable {project : Project} {machine : Machine} {dryRun : Bool} {before : Store}
  {files : List LevelFile}

/-- Nothing is due when a level file fails. -/
theorem due_of_failure (h : ∃ file ∈ files, ∃ error,
    compileFile before file.path project.config.compileOptions = .error error) :
    project.due dryRun (project.collected machine before files) = .ok none := by
  rcases h with ⟨file, hfile, error, herror⟩
  have hfailure : (project.collected machine before files).isSuccess = false := by
    rw [Bool.eq_false_iff]
    intro hsuccess
    rcases isSuccess_collected.mp hsuccess file hfile with ⟨compiled, hcompiled⟩
    rw [herror] at hcompiled
    exact absurd hcompiled (by simp only [reduceCtorEq, not_false_eq_true])
  rw [due, hfailure]
  rfl

/-- Nothing is due in a dry run. -/
theorem due_of_dry (report : BuildReport) : project.due true report = .ok none := by
  rw [due, Bool.not_true, Bool.and_false]
  rfl

/-- Reports depend on the machine for their durations alone. -/
theorem untimed_collected :
    (project.collected machine before files).levels.map LevelReport.untimed =
      files.map fun file => .ofResult file .zero
        (compileFile before file.path project.config.compileOptions) := by
  rw [collected, compileAll, List.map_map]
  refine List.map_congr_left fun file _ => ?_
  rw [Function.comp_apply]
  cases compileFile before file.path project.config.compileOptions <;> rfl

/-- A report made of the result of compiling a file tells what became of it. -/
theorem tells_ofResult (file : LevelFile) (duration : Duration) :
    project.Tells before file (.ofResult file duration
      (compileFile before file.path project.config.compileOptions)) := by
  cases hresult : compileFile before file.path project.config.compileOptions with
  | error error =>
      refine ⟨rfl, rfl, fun compiled h => ?_, fun other h => ?_⟩
      · rw [hresult] at h
        exact absurd h (by simp only [reduceCtorEq, not_false_eq_true])
      · rw [hresult, Except.error.injEq] at h
        rw [h]
        exact ⟨rfl, rfl⟩
  | ok found =>
      refine ⟨rfl, rfl, fun compiled h => ?_, fun other h => ?_⟩
      · rw [hresult, Except.ok.injEq] at h
        rw [h]
        exact ⟨rfl, rfl⟩
      · rw [hresult] at h
        exact absurd h (by simp only [reduceCtorEq, not_false_eq_true])

/-- Every level file is reported, in its order. -/
theorem tells_collected :
    List.Forall₂ (project.Tells before) files
      (project.collected machine before files).levels := by
  rw [collected, compileAll, List.forall₂_map_right_iff, List.forall₂_same]
  exact fun file _ => tells_ofResult file _

end Collected

section Build

variable {project : Project} {machine : Machine} {dryRun : Bool} {before : Store}
  {files : List LevelFile}

/-- A build of which nothing is due ends with what it has collected. -/
theorem build_of_nothing_due (hfiles : project.levelFiles before = .ok files)
    (hpool : machine.poolFault = none)
    (hdue : project.due dryRun (project.collected machine before files) = .ok none) :
    (project.build machine dryRun before).store = before ∧
      (project.build machine dryRun before).result =
        .ok (project.collected machine before files) := by
  rw [build_eq_finish hfiles hpool, finish, hdue]
  exact ⟨rfl, rfl⟩

/-- A build leaves the store alone, or it leaves what the release that was due leaves. -/
theorem store_cases (project : Project) (machine : Machine) (dryRun : Bool) (before : Store) :
    (project.build machine dryRun before).store = before ∨
      ∃ (files : List LevelFile) (release : Release), project.levelFiles before = .ok files ∧
        project.due dryRun (project.collected machine before files) = .ok (some release) ∧
        (project.build machine dryRun before).store = (release.run before).1 := by
  rcases build_cases project machine dryRun before with
    ⟨_, _, hstore, _⟩ | ⟨files, hfiles, ⟨hdue, hresult⟩ | ⟨release, hdue, _, hstore, _⟩⟩
  · exact Or.inl hstore
  · cases hpool : machine.poolFault with
    | some reason =>
        -- Without workers there would be no report.
        rw [build_of_poolFault hfiles hpool] at hresult
        exact absurd hresult (by simp only [reduceCtorEq, not_false_eq_true])
    | none => exact Or.inl (build_of_nothing_due hfiles hpool hdue).1
  · exact Or.inr ⟨files, release, hfiles, hdue, hstore⟩

/-- A build that has nothing to release leaves the store alone. -/
theorem store_of_nothing_due
    (h : ∀ files, project.levelFiles before = .ok files →
      project.due dryRun (project.collected machine before files) = .ok none) :
    (project.build machine dryRun before).store = before := by
  rcases store_cases project machine dryRun before with hsame | ⟨files, release, hfiles, hdue, _⟩
  · exact hsame
  · rw [h files hfiles] at hdue
    exact absurd hdue (by simp only [Except.ok.injEq, reduceCtorEq, not_false_eq_true])

/-- A build changes nothing if a level file fails, if it is a dry run, or if there are no
    level files. In the first two cases it reports what became of every level file, if
    there are workers. And a dry run reports the same of them as a real one. -/
theorem collect_then_abort (project : Project) (machine : Machine) (dryRun : Bool)
    (before : Store) :
    ((dryRun = true ∨ (∃ error, project.levelFiles before = .error error) ∨
        ∃ files, project.levelFiles before = .ok files ∧ ∃ file ∈ files, ∃ error,
          compileFile before file.path project.config.compileOptions = .error error) →
      (project.build machine dryRun before).store = before) ∧
    (∀ files, project.levelFiles before = .ok files → machine.poolFault = none →
      (dryRun = true ∨ ∃ file ∈ files, ∃ error,
        compileFile before file.path project.config.compileOptions = .error error) →
      ∃ report, (project.build machine dryRun before).result = .ok report ∧
        List.Forall₂ (project.Tells before) files report.levels) ∧
    ∀ (other : Machine) (dry real : BuildReport),
      (project.build machine true before).result = .ok dry →
      (project.build other false before).result = .ok real →
      dry.levels.map LevelReport.untimed = real.levels.map LevelReport.untimed := by
  refine ⟨fun h => store_of_nothing_due fun files hfiles => ?_, fun files hfiles hpool h => ?_,
    fun other dry real hdry hreal => ?_⟩
  · rcases h with rfl | ⟨error, herror⟩ | ⟨found, hfound, hfailure⟩
    · exact due_of_dry _
    · rw [hfiles] at herror
      exact absurd herror (by simp only [reduceCtorEq, not_false_eq_true])
    · rw [hfiles, Except.ok.injEq] at hfound
      rw [hfound]
      exact due_of_failure hfailure
  · have hdue : project.due dryRun (project.collected machine before files) = .ok none := by
      rcases h with rfl | hfailure
      · exact due_of_dry _
      · exact due_of_failure hfailure
    exact ⟨_, (build_of_nothing_due hfiles hpool hdue).2, tells_collected⟩
  · -- Both have collected the results of the same level files.
    rcases events_of_build_ok hdry with ⟨files, hfiles, hlevels, _⟩
    rcases events_of_build_ok hreal with ⟨found, hfound, hothers, _⟩
    rw [hfiles, Except.ok.injEq] at hfound
    rw [hlevels, hothers, untimed_collected, untimed_collected, hfound]

end Build

end Project

section OneFails

/-- Two level files, of which the second has no starting position. -/
def oneFails : Store :=
  { entries := [(["levels".toList], .directory),
      (["levels".toList, "a.txt".toList], .file (.text "S\n")),
      (["levels".toList, "b.txt".toList], .file (.text "#\n"))] }

/-- The level files that are discovered there. -/
def oneFailsFound : List LevelFile :=
  [⟨"a", .ofString "levels/a.txt"⟩, ⟨"b", .ofString "levels/b.txt"⟩]

theorem oneFails_aborts :
    outProject.levelFiles oneFails = .ok oneFailsFound ∧
      (∃ file ∈ oneFailsFound, ∃ error,
        compileFile oneFails file.path outProject.config.compileOptions = .error error) ∧
      (outProject.build {} false oneFails).store = oneFails ∧
      ∃ report, (outProject.build {} false oneFails).result = .ok report ∧
        List.Forall₂ (outProject.Tells oneFails) oneFailsFound report.levels := by
  have hfiles : outProject.levelFiles oneFails = .ok oneFailsFound := by decide +kernel
  have hfailure : ∃ file ∈ oneFailsFound, ∃ error,
      compileFile oneFails file.path outProject.config.compileOptions = .error error :=
    ⟨⟨"b", .ofString "levels/b.txt"⟩, by decide, .start (.missing 'S'), by decide +kernel⟩
  have habort := Project.collect_then_abort outProject {} false oneFails
  exact ⟨hfiles, hfailure, habort.1 (Or.inr (Or.inr ⟨_, hfiles, hfailure⟩)),
    habort.2.1 _ hfiles rfl (Or.inr hfailure)⟩

end OneFails

end PuzzleLevel
