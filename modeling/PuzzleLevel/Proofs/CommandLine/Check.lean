import PuzzleLevel.Proofs.Build.Batch
import PuzzleLevel.Proofs.CommandLine.Arguments
import PuzzleLevel.Proofs.CommandLine.Build
import PuzzleLevel.Proofs.Discovery.Matching

/-!
# A Check Agrees with a Build

Someone who edits levels checks single files, and someone who ships them builds the project. The
two commands share the compiler and little else: each settles the options on its own, each counts
the failures on its own, and each prints them in its own way. If they came apart, a file could
pass the check and fail the build.

Everything is compared with one list, the files that give no level with their errors
(`Store.failing`). What a check prints is read off it (`runCheck_of_options`), and so is what a
build tells and reports (`filterMap_failure?_told`, `failures_collected`). What remains is that
both compile with the same options. A check sets strictness in the configuration that it found,
and a build replaces whatever its arguments replace, but neither touches the marker, and both are
strict if the project or the arguments say so (`fileOptions_of_isValid`,
`compileOptions_override`).

The files of a project can always be given to a check: a configuration that is looked for is
found in an absolute directory, so their paths are absolute and look like no flag.

## Main definitions

* `Store.failing`: The files that give no level, with their errors.
* `failureLine`, `failureCount`: What a check says of them.
* `Event.failure?`: What an event tells of a file that failed.
* `Concord`: A check and a build agree on the files that fail.

## Theorems

* `runCheck_of_options`: What a check prints, and its exit code.
* `filterMap_failure?_told`, `failures_collected`: What a build tells and reports of failures.
* `fileOptions_of_isValid`, `compileOptions_override`: The options of a check and of a build.
* `diagnostics_runProject`: What a build with a report prints.
* `isAbsolute_root`: A project that is looked for is in an absolute directory.
* `misuse_of_invalid`: Without a valid configuration both are refused.
* `concord_of_options`: With the same options both agree.
* `check_agrees_with_dry_run`: A check of the files of a project agrees with a dry run.
-/

namespace PuzzleLevel

/-- The files that give no level, each with the error that says why. -/
def Store.failing (store : Store) (options : CompileOptions) (files : List LevelFile) :
    List (LevelFile × CompileError) :=
  files.filterMap fun file =>
    match compileFile store file.path options with
    | .ok _ => none
    | .error error => some (file, error)

/-- What a check says of a file that fails. -/
def failureLine (entry : LevelFile × CompileError) : String :=
  entry.1.path.text ++ ": error[" ++ entry.2.kind ++ "]: " ++ entry.2.message

/-- What a check says in the end if some of its files fail. -/
def failureCount (failed files : Nat) : String :=
  toString failed ++ " of " ++ toString files ++ " files failed"

/-- What an event tells of a file that failed: its identifier and the reason. -/
def Event.failure? : Event → Option (String × String)
  | levelCompleted id (.failed reason) _ => some (id, reason)
  | _ => none

/-- A check and a build agree on the files that fail. -/
structure Concord (check build : Response) (arguments : BuildArguments) (colors : Bool)
    (found : Project) (files : List LevelFile) (failed : List (LevelFile × CompileError)) :
    Prop where
  /-- Both succeed if there are none, and otherwise both fail. -/
  codes : (failed = [] ∧ check.exitCode = exitSuccess ∧ build.exitCode = exitSuccess) ∨
    (failed ≠ [] ∧ check.exitCode = exitFailure ∧ build.exitCode = exitFailure)
  /-- The check prints a line for each of them, and how many they are. -/
  checked : check.diagnostics = asLines (failed.map failureLine) ++
    if failed = [] then "" else asLine (failureCount failed.length files.length)
  /-- The build tells the end of each of them, and names them in its summary. -/
  built : ∃ (log : List Event) (report : BuildReport),
    build.diagnostics = arguments.preface found ++ arguments.transcript colors log ++
      (if failed = [] ∨ arguments.json = true then "" else asLine report.summary) ∧
    log.filterMap Event.failure? = failed.map (fun entry => (entry.1.id, entry.2.message)) ∧
    report.failures.map (fun level => (level.id, level.path, level.outcome)) =
      failed.map fun entry => (entry.1.id, entry.1.path, .failed entry.2.message)

section Failing

variable {store : Store} {options : CompileOptions} {files : List LevelFile}

theorem failing_eq_nil_iff : store.failing options files = [] ↔
    ∀ file ∈ files, ∃ compiled, compileFile store file.path options = .ok compiled := by
  rw [Store.failing, List.filterMap_eq_nil_iff]
  refine forall_congr' fun file => imp_congr_right fun _ => ?_
  cases compileFile store file.path options with
  | ok compiled => exact ⟨fun _ => ⟨compiled, rfl⟩, fun _ => rfl⟩
  | error error => simp only [reduceCtorEq, exists_false]

theorem failing_cons_ok {file : LevelFile} {compiled : Compiled}
    (h : compileFile store file.path options = .ok compiled) :
    store.failing options (file :: files) = store.failing options files :=
  List.filterMap_cons_none (by rw [h])

theorem failing_cons_error {file : LevelFile} {error : CompileError}
    (h : compileFile store file.path options = .error error) :
    store.failing options (file :: files) = (file, error) :: store.failing options files :=
  List.filterMap_cons_some (by rw [h])

end Failing

section Check

variable {store : Store} {options : CompileOptions} {files : List LevelFile} {strict : Bool}
  {marker : Option Char}

/-- A check prints the errors of the files that fail. -/
theorem join_reportIfError (files : List LevelFile) :
    String.join (((files.map LevelFile.path).map fun path =>
        (path, compileFile store path options)).map fun (path, result) =>
          reportIfError path result) =
      asLines ((store.failing options files).map failureLine) := by
  induction files with
  | nil => rfl
  | cons file more ih =>
      rw [List.map_cons, List.map_cons, List.map_cons, String.join_cons, ih]
      cases hresult : compileFile store file.path options with
      | ok compiled =>
          rw [failing_cons_ok hresult]
          exact String.empty_append
      | error error =>
          rw [failing_cons_error hresult, List.map_cons, asLines, asLines, List.map_cons,
            String.join_cons]
          rfl

/-- It counts them. -/
theorem length_filter_isFailure (files : List LevelFile) :
    (((files.map LevelFile.path).map fun path =>
        (path, compileFile store path options)).filter fun (_, result) =>
          isFailure result).length = (store.failing options files).length := by
  induction files with
  | nil => rfl
  | cons file more ih =>
      rw [List.map_cons, List.map_cons]
      cases hresult : compileFile store file.path options with
      | ok compiled =>
          rw [failing_cons_ok hresult, List.filter_cons_of_neg Bool.false_ne_true, ih]
      | error error =>
          rw [failing_cons_error hresult, List.filter_cons_of_pos rfl, List.length_cons, ih,
            List.length_cons]

/-- What a check prints, and the exit code that it ends with. -/
theorem runCheck_of_options (h : store.fileOptions strict marker = .ok options)
    (files : List LevelFile) :
    (runCheck (files.map LevelFile.path) strict marker store).exitCode =
        (if store.failing options files = [] then exitSuccess else exitFailure) ∧
      (runCheck (files.map LevelFile.path) strict marker store).diagnostics =
        asLines ((store.failing options files).map failureLine) ++
          if store.failing options files = [] then ""
          else asLine (failureCount (store.failing options files).length files.length) := by
  unfold runCheck
  rw [h]
  -- What is printed and what is counted are read off the same results.
  simp only [join_reportIfError, length_filter_isFailure, List.length_eq_zero_iff,
    List.length_map]
  by_cases hnone : store.failing options files = []
  · simp only [if_pos hnone, String.append_empty, and_self]
  · simp only [if_neg hnone, failureCount, and_self]

end Check

section Told

/-- What the report of a file tells if it failed. -/
def LevelReport.failure? (report : LevelReport) : Option (String × String) :=
  match report.outcome with
  | .compiled _ => none
  | .failed reason => some (report.id, reason)

/-- Of the events of a file only its end can tell that it failed. -/
theorem filterMap_failure?_events (report : LevelReport) :
    report.events.filterMap Event.failure? = report.failure?.toList := by
  have hwarnings : (report.warnings.map fun warning =>
      Event.warning (some report.id) warning).filterMap Event.failure? = [] := by
    rw [List.filterMap_map]
    exact List.filterMap_eq_nil_iff.mpr fun _ _ => rfl
  rw [LevelReport.events, List.filterMap_append, hwarnings, List.nil_append,
    LevelReport.failure?]
  cases report.outcome with
  | compiled level => rfl
  | failed reason => rfl

/-- A build tells the failures of its files and no other. -/
theorem filterMap_failure?_told (machine : Machine) (files : List LevelFile)
    (levels : List LevelReport) (report : BuildReport) :
    (Project.told machine files levels ++ [Project.completed report]).filterMap Event.failure? =
      levels.filterMap LevelReport.failure? := by
  have hstarts : ((machine.starts files).map fun file =>
      Event.levelStarted file.id).filterMap Event.failure? = [] := by
    rw [List.filterMap_map]
    exact List.filterMap_eq_nil_iff.mpr fun _ _ => rfl
  have hlevels : (levels.flatMap LevelReport.events).filterMap Event.failure? =
      levels.filterMap LevelReport.failure? := by
    rw [List.filterMap_flatMap, List.filterMap_eq_flatMap_toList]
    exact List.flatMap_congr fun level _ => filterMap_failure?_events level
  -- Around the levels nothing is told of a failure.
  rw [List.filterMap_append, Project.told, List.cons_append, List.filterMap_cons_none rfl,
    List.filterMap_append, hstarts, hlevels, List.nil_append]
  exact List.append_nil _

end Told

section Collected

variable {project : Project} {machine : Machine} {store : Store} {files : List LevelFile}

theorem failure?_ofResult (file : LevelFile) (duration : Duration)
    (result : Except CompileError Compiled) :
    (LevelReport.ofResult file duration result).failure? =
      match result with
      | .ok _ => none
      | .error error => some (file.id, error.message) := by
  cases result with
  | ok compiled => rfl
  | error error => rfl

/-- The files that a build tells as failed are those that fail. -/
theorem filterMap_failure?_collected :
    (project.collected machine store files).levels.filterMap LevelReport.failure? =
      (store.failing project.config.compileOptions files).map fun entry =>
        (entry.1.id, entry.2.message) := by
  rw [Project.collected, Project.compileAll, List.filterMap_map, Store.failing,
    List.map_filterMap]
  refine List.filterMap_congr fun file _ => ?_
  rw [Function.comp_apply, failure?_ofResult]
  cases compileFile store file.path project.config.compileOptions with
  | ok compiled => rfl
  | error error => rfl

/-- They are the failures of its report. -/
theorem failures_collected (files : List LevelFile) :
    (project.collected machine store files).failures.map
        (fun level => (level.id, level.path, level.outcome)) =
      (store.failing project.config.compileOptions files).map fun entry =>
        (entry.1.id, entry.1.path, .failed entry.2.message) := by
  induction files with
  | nil => rfl
  | cons file more ih =>
      have hlevels : (project.collected machine store (file :: more)).levels =
          .ofResult file (machine.levelTime file)
              (compileFile store file.path project.config.compileOptions) ::
            (project.collected machine store more).levels := rfl
      rw [BuildReport.failures, hlevels]
      cases hresult : compileFile store file.path project.config.compileOptions with
      | ok compiled =>
          rw [failing_cons_ok hresult, List.filter_cons_of_neg Bool.false_ne_true]
          exact ih
      | error error =>
          rw [failing_cons_error hresult, List.filter_cons_of_pos rfl, List.map_cons,
            List.map_cons, ← ih]
          rfl

/-- A build is a success if no file fails. -/
theorem isSuccess_collected_iff : (project.collected machine store files).isSuccess = true ↔
    store.failing project.config.compileOptions files = [] :=
  Project.isSuccess_collected.trans failing_eq_nil_iff.symm

end Collected

section Options

variable {store : Store} {found : Project} {arguments : BuildArguments} {strict : Bool}

/-- Whether a configuration is valid is up to its marker and its extensions. No argument of a
    build replaces them, -/
theorem isValid_override (config : Config) (overrides : Overrides) :
    (config.override overrides).isValid = config.isValid := rfl

/-- and neither does strictness. -/
theorem isValid_strict (config : Config) (strict : Bool) :
    ({ config with strict } : Config).isValid = config.isValid := rfl

/-- The options of a check are those of the project, only stricter if that is asked for. -/
theorem fileOptions_of_isValid (hfound : store.projectAt none = .ok found)
    (hvalid : found.config.isValid = true) :
    store.fileOptions strict none =
      .ok ⟨found.config.startMarker, strict || found.config.strict⟩ := by
  unfold Store.fileOptions
  rw [hfound]
  simp only [Option.getD_none, Config.validated, isValid_strict, hvalid, if_true]
  rfl

/-- So are those of a build. -/
theorem compileOptions_override (here : Path) :
    (found.config.override (arguments.overrides here)).compileOptions =
      ⟨found.config.startMarker, arguments.strict || found.config.strict⟩ := by
  rw [Config.override, BuildArguments.overrides, Config.compileOptions]
  -- A flag makes a build strict; that it is missing leaves the project as it is.
  cases arguments.strict with
  | false => rfl
  | true => rfl

end Options

section Build

variable {arguments : BuildArguments} {machine : Machine} {colors : Bool} {store : Store}
  {project : Project} {files : List LevelFile} {preface : String} {report : BuildReport}

/-- A build with a report prints what it told, and behind that for people its summary if a file
    failed. -/
theorem diagnostics_runProject
    (h : (project.build machine arguments.dryRun store).result = .ok report) :
    (runProject arguments machine colors store project preface).diagnostics =
      preface ++ arguments.transcript colors
          (project.build machine arguments.dryRun store).events ++
        if report.isSuccess = true ∨ arguments.json = true then "" else asLine report.summary := by
  have hevents : (project.build machine arguments.dryRun store).allEvents =
      (project.build machine arguments.dryRun store).events := by
    rw [Build.allEvents, h]
  rw [← hevents]
  fun_cases runProject arguments machine colors store project preface with
  | case1 build announced told operations found hresult exitCode hjson =>
      rw [if_pos (Or.inr hjson), String.append_empty]
  | case2 build announced told operations found hresult exitCode hjson hsuccess =>
      rw [h, Except.ok.injEq] at hresult
      rw [hresult, if_pos (Or.inl hsuccess), String.append_empty]
  | case3 build announced told operations found hresult exitCode hjson hfailure =>
      rw [h, Except.ok.injEq] at hresult
      rw [hresult, if_neg (not_or.mpr ⟨hfailure, hjson⟩)]
  | case4 build announced told operations error hresult =>
      rw [h] at hresult
      exact absurd hresult (by simp only [reduceCtorEq, not_false_eq_true])

/-- A dry run of some files has a report of them, whatever became of them. -/
theorem result_of_dry (hfiles : project.levelFiles store = .ok files)
    (hpool : machine.poolFault = none) :
    (project.build machine true store).result = .ok (project.collected machine store files) ∧
      (project.build machine true store).events =
        Project.told machine files (project.collected machine store files).levels ++
          [Project.completed (project.collected machine store files)] := by
  have hresult := (Project.build_of_nothing_due hfiles hpool
    (Project.due_of_dry (project.collected machine store files))).2
  rcases Project.events_of_build_ok hresult with ⟨others, hothers, _, hevents⟩
  rw [hfiles, Except.ok.injEq] at hothers
  rw [← hothers] at hevents
  exact ⟨hresult, hevents⟩

end Build

section Project

variable {store : Store} {found : Project}

theorem isName_configFileName : Path.IsName configFileName.toList :=
  ⟨by decide, by decide, by decide⟩

/-- A configuration that is looked for is found in an absolute directory, -/
theorem isAbsolute_rootOf {file : Path}
    (h : store.findConfig? store.workingDirectory = some file) :
    (store.rootOf file).isAbsolute = true := by
  rcases List.mem_map.mp (List.mem_of_find?_eq_some h) with ⟨above, habove, rfl⟩
  -- The file stands in a directory above the working directory, and its root is this directory.
  have habsolute : above.bare.isAbsolute = true := by
    rw [Path.isAbsolute_bare, (Path.names_of_mem_ancestors habove).2]
    rfl
  have hne : ¬ above.bare.chars.isEmpty = true := by
    intro hempty
    rw [Path.isAbsolute, List.isEmpty_iff.mp hempty] at habsolute
    exact absurd habsolute Bool.false_ne_true
  rw [Store.rootOf, Path.parent?_child above configFileName isName_configFileName]
  simp only [if_neg hne]
  exact habsolute

/-- and so is a project, with a configuration or without. -/
theorem isAbsolute_root (hfound : store.projectAt none = .ok found) :
    found.root.isAbsolute = true := by
  revert hfound
  fun_cases Store.projectAt store none with
  | case1 file hfile error hload =>
      exact fun h => absurd h (by simp only [reduceCtorEq, not_false_eq_true])
  | case2 file hfile config hload =>
      intro h
      rw [Except.ok.injEq] at h
      rw [← h]
      exact isAbsolute_rootOf hfile
  | case3 hnone =>
      intro h
      rw [Except.ok.injEq] at h
      rw [← h]
      rfl

end Project

section Agreement

variable {arguments : BuildArguments} {machine : Machine} {colors : Bool} {store : Store}
  {project found : Project} {files : List LevelFile} {strict : Bool}

/-- Without a valid configuration neither a build nor a check does anything. -/
theorem misuse_of_invalid (hconfig : arguments.config = none)
    (hinvalid : ∀ found, store.projectAt none = .ok found → found.config.isValid = false)
    (machine : Machine) (colors strict : Bool) (paths : List Path) :
    (runBuild arguments machine colors store).exitCode = exitMisuse ∧
      (runCheck paths strict none store).exitCode = exitMisuse := by
  unfold runBuild runCheck Store.fileOptions
  rw [hconfig]
  -- Both ask for the project first, and then whether its configuration is valid.
  cases hfound : store.projectAt none with
  | error reason => exact ⟨rfl, rfl⟩
  | ok found =>
      simp only [Option.getD_none, Config.validated, isValid_override, isValid_strict,
        hinvalid found hfound, Bool.false_eq_true, if_false, and_self]

/-- A dry run of a project agrees with a check of its level files with its options. -/
theorem concord_of_options (hdry : arguments.dryRun = true)
    (hoptions : store.fileOptions arguments.strict none = .ok project.config.compileOptions)
    (hfiles : project.levelFiles store = .ok files) (hpool : machine.poolFault = none) :
    Concord (runCheck (files.map LevelFile.path) arguments.strict none store)
      (runProject arguments machine colors store project (arguments.preface found))
      arguments colors found files (store.failing project.config.compileOptions files) := by
  rcases runCheck_of_options hoptions files with ⟨hcode, hdiagnostics⟩
  rcases result_of_dry hfiles hpool with ⟨hresult, hevents⟩
  rw [← hdry] at hresult hevents
  refine ⟨?_, hdiagnostics, (project.build machine arguments.dryRun store).events,
    project.collected machine store files, ?_, ?_, failures_collected files⟩
  · rw [hcode, exitCode_runProject, hresult, exitCodeOf]
    by_cases hnone : store.failing project.config.compileOptions files = []
    · rw [if_pos hnone, if_pos (isSuccess_collected_iff.mpr hnone)]
      exact Or.inl ⟨hnone, rfl, rfl⟩
    · rw [if_neg hnone, if_neg (isSuccess_collected_iff.not.mpr hnone)]
      exact Or.inr ⟨hnone, rfl, rfl⟩
  · rw [diagnostics_runProject hresult]
    exact congrArg _ (if_congr (or_congr_left isSuccess_collected_iff) rfl rfl)
  · rw [hevents, filterMap_failure?_told, filterMap_failure?_collected]

/-- The level files of a project do not depend on the arguments of a build if these leave its
    source directory alone. -/
theorem levelFiles_override (hsource : arguments.source = none) (here : Path) (hne : files ≠ [])
    (hfiles : store.discover found.sourceDirectory found.config.extensions = .ok files) :
    (Project.mk (found.config.override (arguments.overrides here)) found.root).levelFiles store =
      .ok files := by
  refine Project.levelFiles_of_discover hne ?_
  rw [← hfiles, Project.sourceDirectory, Config.override, BuildArguments.overrides, hsource]
  rfl

/-- A check of exactly the level files of a project agrees with a dry run of its build that is
    asked to be as strict, wherever the configuration is and however the rest is asked for.
    Without a valid configuration both are refused. -/
theorem check_agrees_with_dry_run {args : List String}
    (hbuild : Invocation.ofArguments args = .command (.build arguments))
    (hdry : arguments.dryRun = true) (hsource : arguments.source = none)
    (hconfig : arguments.config = none) :
    (∀ found files, store.projectAt none = .ok found → found.config.isValid = true →
      store.discover found.sourceDirectory found.config.extensions = .ok files → files ≠ [] →
      machine.poolFault = none →
        Invocation.ofArguments (checkLine arguments.strict (files.map LevelFile.path)) =
            .command (.check (files.map LevelFile.path) arguments.strict none) ∧
          ∀ checkArgs, Invocation.ofArguments checkArgs =
              .command (.check (files.map LevelFile.path) arguments.strict none) →
            Concord (run checkArgs machine colors store) (run args machine colors store)
              arguments colors found files (store.failing
                ⟨found.config.startMarker, arguments.strict || found.config.strict⟩ files)) ∧
      ((∀ found, store.projectAt none = .ok found → found.config.isValid = false) →
        (run args machine colors store).exitCode = exitMisuse ∧
          ∀ checkArgs paths, Invocation.ofArguments checkArgs =
              .command (.check paths arguments.strict none) →
            (run checkArgs machine colors store).exitCode = exitMisuse) := by
  refine ⟨?_, fun hinvalid => ⟨?_, fun checkArgs paths hcheck => ?_⟩⟩
  · intro found files hfound hvalid hfiles hne hpool
    -- A project that is looked for is in an absolute directory, and so are its level files.
    have habsolute : ∀ path ∈ files.map LevelFile.path, path.isAbsolute = true := by
      rw [List.forall_mem_map]
      exact fun file hfile => Store.isAbsolute_of_mem_discover hfiles
        (Path.isAbsolute_join_of_isAbsolute (isAbsolute_root hfound) _) hfile
    have hpaths : files.map LevelFile.path ≠ [] := fun h => hne (List.map_eq_nil_iff.mp h)
    refine ⟨ofArguments_checkLine hpaths habsolute, fun checkArgs hcheck => ?_⟩
    have hvalidated : (found.config.override
        (arguments.overrides store.workingDirectory)).validated =
          .ok (found.config.override (arguments.overrides store.workingDirectory)) := by
      rw [Config.validated, isValid_override, hvalid]
      rfl
    rw [run_build hbuild (by rw [hconfig]; exact hfound) hvalidated, run, hcheck]
    rw [← compileOptions_override store.workingDirectory]
    refine concord_of_options hdry ?_ (levelFiles_override hsource _ hne hfiles) hpool
    rw [compileOptions_override, fileOptions_of_isValid hfound hvalid]
  · rw [run, hbuild]
    exact (misuse_of_invalid hconfig hinvalid machine colors arguments.strict []).1
  · rw [run, hcheck]
    exact (misuse_of_invalid hconfig hinvalid machine colors arguments.strict paths).2

end Agreement

section Unused

/-- A project below the root with two level files, of which the first has a legend line that its
    map does not use. -/
def unusedStore : Store :=
  { entries := [(["game".toList], .directory),
      (["game".toList, "levels".toList], .directory),
      (["game".toList, "levels".toList, "a.txt".toList], .file (.text "S\n---\nX: Ice\n")),
      (["game".toList, "levels".toList, "b.txt".toList], .file (.text "S\n"))],
    here := ["game".toList] }

def unusedProject : Project := ⟨{ name := "game" }, .ofString "/game"⟩

def unusedFiles : List LevelFile :=
  [⟨"a", .ofString "/game/levels/a.txt"⟩, ⟨"b", .ofString "/game/levels/b.txt"⟩]

/-- A check that is asked to be strict reports the first file, and so does a build. -/
theorem unused_concord :
    Concord
      (run ["check", "--strict", "/game/levels/a.txt", "/game/levels/b.txt"] {} false unusedStore)
      (run ["build", "--dry-run", "--strict"] {} false unusedStore)
      { dryRun := true, strict := true } false unusedProject unusedFiles
      [(⟨"a", .ofString "/game/levels/a.txt"⟩, .strict [.unused 3 'X'])] := by
  have hbuild : Invocation.ofArguments ["build", "--dry-run", "--strict"] =
      .command (.build { dryRun := true, strict := true }) := by decide +kernel
  have hcheck : Invocation.ofArguments
      ["check", "--strict", "/game/levels/a.txt", "/game/levels/b.txt"] =
        .command (.check (unusedFiles.map LevelFile.path) true none) := by decide +kernel
  have hfound : unusedStore.projectAt none = .ok unusedProject := by decide +kernel
  have hvalid : unusedProject.config.isValid = true := by decide +kernel
  have hfiles : unusedStore.discover unusedProject.sourceDirectory
      unusedProject.config.extensions = .ok unusedFiles := by decide +kernel
  have hfailing : unusedStore.failing ⟨'S', true⟩ unusedFiles =
      [(⟨"a", .ofString "/game/levels/a.txt"⟩, .strict [.unused 3 'X'])] := by decide +kernel
  have hagrees := (@check_agrees_with_dry_run _ {} false unusedStore _ hbuild rfl rfl rfl).1
    unusedProject unusedFiles hfound hvalid hfiles (by decide) rfl
  rw [← hfailing]
  exact hagrees.2 _ hcheck

end Unused

end PuzzleLevel
