import PuzzleLevel.Proofs.Discovery
import PuzzleLevel.Proofs.Release.Outcome
import PuzzleLevel.Proofs.Report

/-!
# What a Build Leaves Behind

A build changes the store in one place only, where it releases, and it releases at
most once. So every question about what a build leaves is a question about a
release, and this module is the bridge: it says what a build hands to its release
and that nothing else happens. `build_cases` does the case analysis of a build once,
and no other proof opens it.

A build that ends in an error has two kinds of reasons. If it could not tell its
level files, had no level, or no workers, the store is untouched. Otherwise its
release was stopped, and the store is what the release left. All or nothing is
therefore promised of the artifacts up to the last staging file, and not beyond.

## Main definitions

* `Project.collected`: The report of a build before anything is released.
* `BuildReport.released`: What it becomes with the outcome of the release.

## Theorems

* `release_of_due`: A release is one of the level files, in their order.
* `levels_of_due`: Its levels are those of the files.
* `levelFiles_error_cases`, `eq_noIndex_of_due`: Why there is nothing to release.
* `build_of_error`, `build_of_poolFault`, `build_eq_finish`: How far a build gets.
* `finish_cases`: What a build tells at its end.
* `build_cases`: The ways a build goes.
* `build_of_compiled`: A build of level files that all compile is its release.
* `build_error_cases`, `build_ok_due`, `build_ok_release`: What an error and what
  success say about the release.
* `interrupted_of_build_error`: What a build that ends in an error has left.
* `events_of_build_ok`: What a build with a report has collected and told.
-/

namespace PuzzleLevel

namespace BuildReport

/-- What a report becomes when its levels are released. -/
def released (report : BuildReport) :
    Except OutputError (List Path) → Except BuildError BuildReport
  | .error e => .error (.output e)
  | .ok outputs => .ok { report with outputs }

end BuildReport

namespace Project

section Due

variable {project : Project} {machine : Machine} {dryRun : Bool} {before : Store}
  {files : List LevelFile} {release : Release}

/-- The report of a build before anything is released. -/
def collected (project : Project) (machine : Machine) (store : Store) (files : List LevelFile) :
    BuildReport :=
  { levels := project.compileAll machine store files, duration := machine.totalTime }

theorem ids_collected :
    (project.collected machine before files).levels.map LevelReport.id =
      files.map LevelFile.id := by
  rw [collected, compileAll, List.map_map]
  refine List.map_congr_left fun file _ => ?_
  rw [Function.comp_apply]
  cases compileFile before file.path project.config.compileOptions <;> rfl

theorem isSuccess_collected :
    (project.collected machine before files).isSuccess = true ↔
      ∀ file ∈ files, ∃ compiled,
        compileFile before file.path project.config.compileOptions = .ok compiled := by
  rw [BuildReport.isSuccess_iff, collected, compileAll, List.forall_mem_map]
  refine forall_congr' fun file => imp_congr_right fun _ => ?_
  cases compileFile before file.path project.config.compileOptions with
  | error error =>
      simp only [LevelReport.isSuccess, LevelReport.ofResult, Outcome.isSuccess, reduceCtorEq,
        exists_false]
  | ok compiled =>
      simp only [LevelReport.isSuccess, LevelReport.ofResult, Outcome.isSuccess, Except.ok.injEq,
        exists_eq']

/-- The release of a report is one of its levels, in its directory. -/
theorem release?_eq_some {report : BuildReport} (h : project.release? report = some release) :
    release.directory = project.outputDirectory ∧
      release.order = report.compiledLevels.map Prod.fst ∧
      release.index.levels = report.compiledLevels.map Prod.snd := by
  rw [release?, Option.map_eq_some_iff] at h
  rcases h with ⟨⟨order, index⟩, hindex, hrelease⟩
  rcases BuildReport.index?_eq_some hindex with ⟨horder, hlevels⟩
  rw [← hrelease]
  exact ⟨rfl, horder, hlevels⟩

/-- What is due is the release of a report without failures. -/
theorem release?_of_due {report : BuildReport}
    (h : project.due dryRun report = .ok (some release)) :
    report.isSuccess = true ∧ project.release? report = some release := by
  rw [due] at h
  by_cases hgo : (report.isSuccess && !dryRun) = true
  · rw [if_pos hgo] at h
    cases hrelease : project.release? report with
    | none =>
        rw [hrelease] at h
        exact absurd h (by simp only [reduceCtorEq, not_false_eq_true])
    | some other =>
        rw [hrelease] at h
        simp only [Except.ok.injEq, Option.some.injEq] at h
        rw [h]
        exact ⟨(Bool.and_eq_true_iff.mp hgo).1, rfl⟩
  · rw [if_neg hgo] at h
    exact absurd h (by simp only [Except.ok.injEq, reduceCtorEq, not_false_eq_true])

/-- A release is one of the level files, in their order and in the output directory. -/
theorem release_of_due
    (h : project.due dryRun (project.collected machine before files) = .ok (some release)) :
    release.directory = project.outputDirectory ∧ release.order = files.map LevelFile.id ∧
      release.index.levels.length = release.order.length := by
  rcases release?_of_due h with ⟨hsuccess, hrelease⟩
  rcases release?_eq_some hrelease with ⟨hdir, horder, hlevels⟩
  refine ⟨hdir, ?_, ?_⟩
  · rw [horder, BuildReport.compiledLevels_ids hsuccess, ids_collected]
  · rw [horder, hlevels, List.length_map, List.length_map]

/-- The levels of level files that all compile are those of the files, in their order. -/
theorem levels_collected (h : ∀ file ∈ files, ∃ compiled,
    compileFile before file.path project.config.compileOptions = .ok compiled) :
    List.Forall₂ (fun file level => ∃ compiled,
        compileFile before file.path project.config.compileOptions = .ok compiled ∧
          level = compiled.level)
      files ((project.collected machine before files).compiledLevels.map Prod.snd) := by
  induction files with
  | nil => exact .nil
  | cons file more ih =>
      rcases h file (List.mem_cons_self ..) with ⟨compiled, hcompiled⟩
      have hmore := ih fun other hother => h other (List.mem_cons_of_mem _ hother)
      have hfirst : (project.collected machine before (file :: more)).compiledLevels =
          (file.id, compiled.level) :: (project.collected machine before more).compiledLevels := by
        simp only [collected, compileAll, BuildReport.compiledLevels, List.map_cons, hcompiled,
          LevelReport.ofResult, List.filterMap_cons, Outcome.level?, Option.map_some]
      rw [hfirst, List.map_cons]
      exact .cons ⟨compiled, hcompiled, rfl⟩ hmore

/-- The levels of a release are those of the level files. -/
theorem levels_of_due
    (h : project.due dryRun (project.collected machine before files) = .ok (some release)) :
    List.Forall₂ (fun file level => ∃ compiled,
        compileFile before file.path project.config.compileOptions = .ok compiled ∧
          level = compiled.level)
      files release.index.levels := by
  rcases release?_of_due h with ⟨hsuccess, hrelease⟩
  rw [(release?_eq_some hrelease).2.2]
  exact levels_collected (isSuccess_collected.mp hsuccess)

/-- Level files that all compile are due to be released. -/
theorem due_of_compiled (hne : files ≠ [])
    (hcompile : ∀ file ∈ files, ∃ compiled,
      compileFile before file.path project.config.compileOptions = .ok compiled) :
    ∃ release, project.due false (project.collected machine before files) =
      .ok (some release) := by
  have hsuccess : (project.collected machine before files).isSuccess = true :=
    isSuccess_collected.mpr hcompile
  rw [due, hsuccess]
  cases hrelease : project.release? (project.collected machine before files) with
  | some release => exact ⟨release, rfl⟩
  | none =>
      -- There is a level file, so there is a level.
      rw [release?, Option.map_eq_none_iff, BuildReport.index?_eq_none_iff,
        ← BuildReport.length_compiledLevels, ← List.length_map (f := Prod.fst),
        BuildReport.compiledLevels_ids hsuccess, ids_collected, List.length_map,
        List.length_eq_zero_iff] at hrelease
      exact absurd hrelease hne

end Due

section Build

variable {project : Project} {machine : Machine} {dryRun : Bool} {before : Store}
  {files : List LevelFile} {error : BuildError} {report : BuildReport}

/-- Level files cannot be told for one of two reasons. -/
theorem levelFiles_error_cases (h : project.levelFiles before = .error error) :
    (∃ e, error = .discovery e) ∨ error = .noLevels project.sourceDirectory := by
  revert h
  fun_cases levelFiles project before with
  | case1 e hfound =>
      intro h
      rw [Except.error.injEq] at h
      exact Or.inl ⟨e, h.symm⟩
  | case2 hfound =>
      intro h
      rw [Except.error.injEq] at h
      exact Or.inr h.symm
  | case3 first more hfound =>
      exact fun h => absurd h (by simp only [reduceCtorEq, not_false_eq_true])

/-- What is due can be missing for one reason only. -/
theorem eq_noIndex_of_due (h : project.due dryRun report = .error error) : error = .noIndex := by
  revert h
  fun_cases due project dryRun report with
  | case1 hgo hrelease =>
      intro h
      rw [Except.error.injEq] at h
      exact h.symm
  | case2 hgo release hrelease =>
      exact fun h => absurd h (by simp only [reduceCtorEq, not_false_eq_true])
  | case3 hgo => exact fun h => absurd h (by simp only [reduceCtorEq, not_false_eq_true])

-- Level files that cannot be told are no matter of the release, nor is an index
-- without levels.
theorem levelFiles_ne_output (h : project.levelFiles before = .error error) (e : OutputError) :
    error ≠ .output e := by
  rcases levelFiles_error_cases h with ⟨other, rfl⟩ | rfl
  · exact nofun
  · exact nofun

theorem due_ne_output (h : project.due dryRun report = .error error) (e : OutputError) :
    error ≠ .output e := by
  rw [eq_noIndex_of_due h]
  exact nofun

/-- Without level files a build ends with its error, which it tells. -/
theorem build_of_error (hfiles : project.levelFiles before = .error error) :
    project.build machine dryRun before =
      { store := before, events := [.error none error.message], result := .error error } := by
  rw [build, hfiles]

/-- Without workers a build ends before a file is compiled. -/
theorem build_of_poolFault {reason : String} (hfiles : project.levelFiles before = .ok files)
    (hpool : machine.poolFault = some reason) :
    project.build machine dryRun before =
      { store := before, events := [.buildStarted files.length],
        result := .error (.noWorkers reason) } := by
  rw [build, hfiles]
  simp only [hpool]

/-- With level files and workers, a build ends the way that is due. -/
theorem build_eq_finish (hfiles : project.levelFiles before = .ok files)
    (hpool : machine.poolFault = none) :
    project.build machine dryRun before =
      project.finish dryRun before (told machine files (project.compileAll machine before files))
        (project.collected machine before files) := by
  rw [build, hfiles]
  simp only [hpool]
  rfl

theorem finish_of_due {events : List Event} {release : Release}
    (hdue : project.due dryRun report = .ok (some release)) :
    (project.finish dryRun before events report).release = some release ∧
      (project.finish dryRun before events report).store = (release.run before).1 ∧
      (project.finish dryRun before events report).result =
        report.released (release.run before).2 := by
  rw [finish, hdue]
  rcases hrun : release.run before with ⟨after, stopped | outputs⟩
  · simp only [hrun, BuildReport.released, and_self]
  · simp only [hrun, BuildReport.released, and_self]

/-- What a build tells at its end: nothing if it ends in an error, and otherwise its end, which
    does not depend on what was written. -/
theorem finish_cases (project : Project) (dryRun : Bool) (before : Store) (events : List Event)
    (report : BuildReport) :
    (∃ error, (project.finish dryRun before events report).result = .error error ∧
        (error = .noIndex ∨ ∃ e, error = .output e) ∧
        (project.finish dryRun before events report).events = events) ∨
      ∃ outputs, (project.finish dryRun before events report).result =
          .ok { report with outputs } ∧
        (project.finish dryRun before events report).events = events ++ [completed report] := by
  cases hdue : project.due dryRun report with
  | error error =>
      rw [finish, hdue]
      exact Or.inl ⟨error, rfl, Or.inl (eq_noIndex_of_due hdue), rfl⟩
  | ok due =>
      cases due with
      | none =>
          rw [finish, hdue]
          exact Or.inr ⟨report.outputs, rfl, rfl⟩
      | some release =>
          -- The completion is told behind the release only, so not when it is stopped.
          rcases hrun : release.run before with ⟨after, stopped | outputs⟩
          · have hfinish : project.finish dryRun before events report =
                { store := after, release := some release, events,
                  result := .error (.output stopped) } := by
              rw [finish, hdue]
              simp only [hrun]
            rw [hfinish]
            exact Or.inl ⟨.output stopped, rfl, Or.inr ⟨stopped, rfl⟩, rfl⟩
          · have hfinish : project.finish dryRun before events report =
                { store := after, release := some release,
                  events := events ++ [completed report],
                  result := .ok { report with outputs } } := by
              rw [finish, hdue]
              simp only [hrun]
            rw [hfinish]
            exact Or.inr ⟨outputs, rfl, rfl⟩

/-- The ways a build goes: it ends before there is anything to release, or nothing is
    due, or it leaves what its release leaves. -/
theorem build_cases (project : Project) (machine : Machine) (dryRun : Bool) (before : Store) :
    (∃ error, (project.build machine dryRun before).result = .error error ∧
        (project.build machine dryRun before).store = before ∧ ∀ e, error ≠ .output e) ∨
      ∃ files, project.levelFiles before = .ok files ∧
        ((project.due dryRun (project.collected machine before files) = .ok none ∧
            (project.build machine dryRun before).result =
              .ok (project.collected machine before files)) ∨
          ∃ release,
            project.due dryRun (project.collected machine before files) = .ok (some release) ∧
            (project.build machine dryRun before).release = some release ∧
            (project.build machine dryRun before).store = (release.run before).1 ∧
            (project.build machine dryRun before).result =
              (project.collected machine before files).released (release.run before).2) := by
  cases hfiles : project.levelFiles before with
  | error error =>
      -- There is nothing to build, or it cannot be told what.
      rw [build_of_error hfiles]
      exact Or.inl ⟨error, rfl, rfl, levelFiles_ne_output hfiles⟩
  | ok files =>
      cases hpool : machine.poolFault with
      | some reason =>
          rw [build_of_poolFault hfiles hpool]
          exact Or.inl ⟨_, rfl, rfl, fun e => by simp only [ne_eq, reduceCtorEq, not_false_eq_true]⟩
      | none =>
          rw [build_eq_finish hfiles hpool]
          cases hdue : project.due dryRun (project.collected machine before files) with
          | error error =>
              -- A report without failures and without levels has no index.
              rw [finish, hdue]
              exact Or.inl ⟨error, rfl, rfl, due_ne_output hdue⟩
          | ok due =>
              cases due with
              | none =>
                  rw [finish, hdue]
                  exact Or.inr ⟨files, rfl, Or.inl ⟨hdue, rfl⟩⟩
              | some release =>
                  exact Or.inr ⟨files, rfl, Or.inr ⟨release, hdue, finish_of_due hdue⟩⟩

/-- A build of level files that all compile is its release. -/
theorem build_of_compiled (hfiles : project.levelFiles before = .ok files)
    (hcompile : ∀ file ∈ files, ∃ compiled,
      compileFile before file.path project.config.compileOptions = .ok compiled)
    (hpool : machine.poolFault = none) :
    ∃ release : Release, release.directory = project.outputDirectory ∧
      release.order = files.map LevelFile.id ∧
      release.index.levels.length = release.order.length ∧
      (project.build machine false before).result =
        (project.collected machine before files).released (release.run before).2 := by
  rcases @due_of_compiled project machine before files (discover_of_levelFiles hfiles).2
    hcompile with ⟨release, hdue⟩
  rcases release_of_due hdue with ⟨hdir, horder, hlength⟩
  refine ⟨release, hdir, horder, hlength, ?_⟩
  rw [build_eq_finish hfiles hpool]
  exact (finish_of_due hdue).2.2

/-- A build that ends in an error has left the store alone, or its release was
    stopped. -/
theorem build_error_cases (h : (project.build machine dryRun before).result = .error error) :
    ((project.build machine dryRun before).store = before ∧ ∀ e, error ≠ .output e) ∨
      ∃ release e, error = .output e ∧
        (project.build machine dryRun before).release = some release ∧
        release.directory = project.outputDirectory ∧
        (∀ id ∈ release.order, '/' ∉ id.toList) ∧
        release.run before = ((project.build machine dryRun before).store, .error e) := by
  rcases build_cases project machine dryRun before with
    ⟨other, hresult, hstore, hother⟩ | ⟨files, hfiles, ⟨_, hresult⟩ | ⟨release, hrest⟩⟩
  · rw [h, Except.error.injEq] at hresult
    rw [hresult]
    exact Or.inl ⟨hstore, hother⟩
  · -- Nothing was due, so there is a report.
    rw [h] at hresult
    exact absurd hresult (by simp only [reduceCtorEq, not_false_eq_true])
  · rcases hrest with ⟨hdue, hrelease, hstore, hresult⟩
    rcases release_of_due hdue with ⟨hdir, horder, _⟩
    have hslash : ∀ id ∈ release.order, '/' ∉ id.toList := by
      rw [horder]
      exact noSlash_of_mem_levelFiles hfiles
    rw [h] at hresult
    rw [hstore]
    rcases hrun : release.run before with ⟨after, stopped | outputs⟩
    · -- The error is that of the release, and the store is where it stopped.
      rw [hrun, BuildReport.released, Except.error.injEq] at hresult
      exact Or.inr ⟨release, stopped, hresult, hrelease, hdir, hslash, hrun⟩
    · rw [hrun, BuildReport.released] at hresult
      exact absurd hresult (by simp only [reduceCtorEq, not_false_eq_true])

/-- A build that ends in an error has left the store alone, unless the artifacts
    were not released. Then it has left what its interrupted release has left. -/
theorem interrupted_of_build_error {project : Project} {machine : Machine} {dryRun : Bool}
    {before : Store} {error : BuildError}
    (h : (project.build machine dryRun before).result = .error error) :
    ((project.build machine dryRun before).store = before ∧ ∀ e, error ≠ .output e) ∨
      ∃ release e, error = .output e ∧
        (project.build machine dryRun before).release = some release ∧
        release.directory = project.outputDirectory ∧
        release.Interrupted before (project.build machine dryRun before).store e.path := by
  rcases build_error_cases h with hsame | ⟨release, e, he, hrelease, hdir, hslash, hrun⟩
  · exact Or.inl hsame
  · exact Or.inr ⟨release, e, he, hrelease, hdir, Release.run_error hslash hrun⟩

/-- A build that succeeds has made the release that was due. -/
theorem build_ok_due (h : (project.build machine false before).result = .ok report)
    (hsuccess : report.isSuccess = true) :
    ∃ (files : List LevelFile) (release : Release), project.levelFiles before = .ok files ∧
      project.due false (project.collected machine before files) = .ok (some release) ∧
      report = { project.collected machine before files with outputs := report.outputs } ∧
      release.run before = ((project.build machine false before).store, .ok report.outputs) := by
  rcases build_cases project machine false before with
    ⟨other, hresult, _⟩ | ⟨files, hfiles, ⟨hdue, hresult⟩ | ⟨release, hrest⟩⟩
  · rw [h] at hresult
    exact absurd hresult (by simp only [reduceCtorEq, not_false_eq_true])
  · -- A report without failures is not one of which nothing is due.
    rw [h, Except.ok.injEq] at hresult
    rw [hresult] at hsuccess
    rcases due_of_compiled (discover_of_levelFiles hfiles).2
      (isSuccess_collected.mp hsuccess) with ⟨release, hsome⟩
    rw [hdue] at hsome
    exact absurd hsome (by simp only [Except.ok.injEq, reduceCtorEq, not_false_eq_true])
  · rcases hrest with ⟨hdue, _, hstore, hresult⟩
    rw [h] at hresult
    rw [hstore]
    rcases hrun : release.run before with ⟨after, stopped | outputs⟩
    · rw [hrun, BuildReport.released] at hresult
      exact absurd hresult (by simp only [reduceCtorEq, not_false_eq_true])
    · rw [hrun, BuildReport.released, Except.ok.injEq] at hresult
      rw [hresult]
      exact ⟨files, release, hfiles, hdue, rfl, hrun⟩

/-- A build that succeeds has released its levels. -/
theorem build_ok_release (h : (project.build machine false before).result = .ok report)
    (hsuccess : report.isSuccess = true) :
    ∃ (files : List LevelFile) (release : Release), project.levelFiles before = .ok files ∧
      release.directory = project.outputDirectory ∧
      release.order = files.map LevelFile.id ∧
      release.index.levels.length = release.order.length ∧
      report.levels.map LevelReport.id = release.order ∧
      release.run before = ((project.build machine false before).store, .ok report.outputs) := by
  rcases build_ok_due h hsuccess with ⟨files, release, hfiles, hdue, hreport, hrun⟩
  rcases release_of_due hdue with ⟨hdir, horder, hlength⟩
  refine ⟨files, release, hfiles, hdir, horder, hlength, ?_, hrun⟩
  rw [hreport, horder]
  exact ids_collected

/-- A build with a report has told all about its files, and then the report. -/
theorem events_of_build_ok (h : (project.build machine dryRun before).result = .ok report) :
    ∃ files, project.levelFiles before = .ok files ∧
      report.levels = (project.collected machine before files).levels ∧
      (project.build machine dryRun before).events =
        told machine files report.levels ++ [completed report] := by
  cases hfiles : project.levelFiles before with
  | error error =>
      rw [build_of_error hfiles] at h
      exact absurd h (by simp only [reduceCtorEq, not_false_eq_true])
  | ok files =>
      cases hpool : machine.poolFault with
      | some reason =>
          rw [build_of_poolFault hfiles hpool] at h
          exact absurd h (by simp only [reduceCtorEq, not_false_eq_true])
      | none =>
          rw [build_eq_finish hfiles hpool] at h ⊢
          rcases finish_cases project dryRun before
              (told machine files (project.compileAll machine before files))
              (project.collected machine before files) with
            ⟨error, hresult, _, _⟩ | ⟨outputs, hresult, hevents⟩
          · rw [hresult] at h
            exact absurd h (by simp only [reduceCtorEq, not_false_eq_true])
          · rw [hresult, Except.ok.injEq] at h
            rw [hevents, ← h]
            exact ⟨files, rfl, rfl, rfl⟩

end Build

end Project

section Blocked

/-- A project whose artifacts go to `out`. -/
def outProject : Project := ⟨{ output := .ofString "out" }, .ofString ""⟩

/-- Two levels, of which the second is blocked by a directory in its place. -/
def blockedStore : Store :=
  { entries := [(["levels".toList], .directory),
      (["levels".toList, "a.txt".toList], .file (.text "S\n")),
      (["levels".toList, "b.txt".toList], .file (.text "S\n")),
      (["out".toList], .directory),
      (["out".toList, "b.json".toList], .directory)] }

theorem blocked_result :
    (outProject.build {} false blockedStore).result =
      .error (.output ⟨.ofString "out/b.json", .isDirectory⟩) := by decide +kernel

theorem blocked_build_interrupted :
    (outProject.build {} false blockedStore).result =
        .error (.output ⟨.ofString "out/b.json", .isDirectory⟩) ∧
      (((outProject.build {} false blockedStore).store = blockedStore ∧
          ∀ e, BuildError.output ⟨.ofString "out/b.json", .isDirectory⟩ ≠ .output e) ∨
        ∃ release e, BuildError.output ⟨.ofString "out/b.json", .isDirectory⟩ = .output e ∧
          (outProject.build {} false blockedStore).release = some release ∧
          release.directory = outProject.outputDirectory ∧
          release.Interrupted blockedStore (outProject.build {} false blockedStore).store
            e.path) :=
  ⟨blocked_result, Project.interrupted_of_build_error blocked_result⟩

/-- It is not so that a build that ends in an error has left every entry of the
    output directory alone. -/
theorem not_build_error_unchanged :
    ¬ ∀ (project : Project) (machine : Machine) (dryRun : Bool) (before : Store)
        (error : BuildError), (project.build machine dryRun before).result = .error error →
        ∀ name, (project.build machine dryRun before).store.find?
            (before.place project.outputDirectory ++ [name]) =
          before.find? (before.place project.outputDirectory ++ [name]) := by
  intro h
  -- The first level is in place before the second one is found to be blocked.
  have hsame := h outProject {} false blockedStore _ blocked_result "a.json".toList
  have hchanged : (outProject.build {} false blockedStore).store.find?
      (blockedStore.place outProject.outputDirectory ++ ["a.json".toList]) ≠
        blockedStore.find? (blockedStore.place outProject.outputDirectory ++
          ["a.json".toList]) := by decide +kernel
  exact hchanged hsame

end Blocked

end PuzzleLevel
