import PuzzleLevel.CommandLine.Run
import PuzzleLevel.Proofs.Build.Progress
import PuzzleLevel.Proofs.Progress.Lines

/-!
# What a Run Says of Its Build

A program that runs a build reads its progress line by line and its exit code at the end, and
expects the two to agree. They could come apart over errors, for these are told by two parties. A
build tells an error itself when it has no level files to begin with, and leaves every later
error to the run that asked for it. The two kinds are kept apart by the error alone, so the
first thing to know is which errors come from where (`wasTold_of_levelFiles`,
`eq_noIndex_of_due`).

From there everything depends on how the events of a build end. Up to the last one no event is
an error, and the last one is either an error or the end of the build with its success
(`allEvents_cases`). Since the exit code is read off the same result, the last event announces
it.

Hints for people stand behind the events of a build that fails. They are left out when progress
is for programs, and nothing else is printed then.

## Main definitions

* `Event.isError`: An event tells of an error.
* `Event.Announces`: A last event goes with an exit code.
* `Response.Tells`: A response consists of the lines of some events.
* `BuildArguments.preface`: What is printed before a build.
* `exitCodeOf`: The exit code for the result of a build.

## Theorems

* `allEvents_cases`: How the events of a build end.
* `run_build`: A run with a valid configuration builds its project.
* `exitCode_runProject`: It ends with the exit code for the result.
* `tells_runProject`: For programs it prints the events of the build and nothing else.
* `run_build_announced`: What it prints for programs agrees with its exit code.
-/

namespace PuzzleLevel

namespace Event

/-- An event that tells of an error. -/
def isError : Event → Bool
  | error .. => true
  | _ => false

/-- A last event goes with an exit code: the end of a build that succeeded with the code for
    success, and the end of one that failed, or an error that ended it, with the code for
    failure. -/
inductive Announces : Event → Nat → Prop
  | success (milliseconds succeeded failed : Nat) :
    Announces (.buildCompleted true milliseconds succeeded failed) exitSuccess
  | failure (milliseconds succeeded failed : Nat) :
    Announces (.buildCompleted false milliseconds succeeded failed) exitFailure
  | error (message : String) : Announces (.error none message) exitFailure

end Event

/-- A response consists of the lines of some events: nothing is printed as the result, and what
    is printed besides has one line for each of the events, which is an object. -/
structure Response.Tells (response : Response) (events : List Event) : Prop where
  output_eq : response.output = ""
  lines_eq : response.diagnostics.toList.splitOn '\n' = events.map Event.document ++ [[]]
  objects : ∀ event ∈ events, ∃ members, event.toJson = .object members ∧
    Json.read? event.document = some (.object members)

/-- What is printed before a build whose configuration was found. -/
def BuildArguments.preface (arguments : BuildArguments) (found : Project) : String :=
  if arguments.verbose && !arguments.json then asLine ("Project root: " ++ found.root.text) else ""

/-- The exit code for the result of a build. -/
def exitCodeOf : Except BuildError BuildReport → Nat
  | .ok report => if report.isSuccess then exitSuccess else exitFailure
  | .error _ => exitFailure

/-- A build ends with one of two codes. -/
theorem exitCodeOf_cases (result : Except BuildError BuildReport) :
    exitCodeOf result = exitSuccess ∨ exitCodeOf result = exitFailure := by
  cases result with
  | error error => exact Or.inr rfl
  | ok report => exact ite_eq_or_eq _ _ _

namespace Project

variable {project : Project} {dryRun : Bool} {before : Store} {report : BuildReport}
  {error : BuildError}

/-- Of the files nothing is told that is an error. -/
theorem isError_told (machine : Machine) (files : List LevelFile) (levels : List LevelReport) :
    ∀ event ∈ told machine files levels, event.isError = false := by
  intro event hevent
  rw [told, List.cons_append, List.mem_cons, List.mem_append] at hevent
  rcases hevent with rfl | hstart | hlevel
  · rfl
  · rcases List.mem_map.mp hstart with ⟨file, _, rfl⟩
    rfl
  · rcases List.mem_flatMap.mp hlevel with ⟨level, _, hmem⟩
    rw [LevelReport.events, List.mem_append, List.mem_map, List.mem_singleton] at hmem
    rcases hmem with ⟨warning, _, rfl⟩ | rfl
    · rfl
    · rfl

/-- Behind events without an error only the last can be one. -/
theorem filter_isError_concat {front : List Event} (h : ∀ event ∈ front, event.isError = false)
    (last : Event) : (front ++ [last]).filter Event.isError = [last].filter Event.isError := by
  have hfront : front.filter Event.isError = [] :=
    List.filter_eq_nil_iff.mpr fun event hevent => ne_true_of_eq_false (h event hevent)
  rw [List.filter_append, hfront, List.nil_append]

/-- The end of a build announces the exit code for its report. -/
theorem announces_completed (report : BuildReport) :
    (completed report).Announces (exitCodeOf (.ok report)) := by
  rw [completed, exitCodeOf]
  cases report.isSuccess with
  | true => exact .success _ _ _
  | false => exact .failure _ _ _

/-- That there are no level files is told by the build. -/
theorem wasTold_of_levelFiles (h : project.levelFiles before = .error error) :
    error.wasTold = true := by
  rcases levelFiles_error_cases h with ⟨other, rfl⟩ | rfl
  · rfl
  · rfl

/-- The end of a build is told by its last event, or it is an error that was not told. -/
theorem allEvents_finish (project : Project) (dryRun : Bool) (before : Store)
    (events : List Event) (report : BuildReport) :
    (∃ error, (project.finish dryRun before events report).result = .error error ∧
        (project.finish dryRun before events report).allEvents =
          events ++ [.error none error.message]) ∨
      ∃ final, (project.finish dryRun before events report).result = .ok final ∧
        (project.finish dryRun before events report).allEvents = events ++ [completed final] := by
  rcases finish_cases project dryRun before events report with
    ⟨error, hresult, herror, hevents⟩ | ⟨outputs, hresult, hevents⟩
  · refine Or.inl ⟨error, hresult, ?_⟩
    rw [Build.allEvents, hresult, hevents]
    rcases herror with rfl | ⟨e, rfl⟩
    · rfl
    · rfl
  · refine Or.inr ⟨{ report with outputs }, hresult, ?_⟩
    rw [Build.allEvents, hresult, hevents]
    rfl

/-- The events of a build end with its end or with the error that ended it, and no other event
    is an error. -/
theorem allEvents_cases (project : Project) (machine : Machine) (dryRun : Bool)
    (before : Store) :
    ∃ front : List Event, (∀ event ∈ front, event.isError = false) ∧
      ((∃ error, (project.build machine dryRun before).result = .error error ∧
          (project.build machine dryRun before).allEvents =
            front ++ [.error none error.message]) ∨
        ∃ report, (project.build machine dryRun before).result = .ok report ∧
          (project.build machine dryRun before).allEvents = front ++ [completed report]) := by
  cases hfiles : project.levelFiles before with
  | error error =>
      -- The build has told its error, so the run does not tell it again.
      rw [build_of_error hfiles]
      refine ⟨[], fun event hevent => absurd hevent List.not_mem_nil, Or.inl ⟨error, rfl, ?_⟩⟩
      exact if_pos (wasTold_of_levelFiles hfiles)
  | ok files =>
      cases hpool : machine.poolFault with
      | some reason =>
          rw [build_of_poolFault hfiles hpool]
          refine ⟨[.buildStarted files.length], ?_, Or.inl ⟨.noWorkers reason, rfl, rfl⟩⟩
          intro event hevent
          rw [List.mem_singleton] at hevent
          rw [hevent]
          rfl
      | none =>
          rw [build_eq_finish hfiles hpool]
          exact ⟨_, isError_told machine files _, allEvents_finish project dryRun before _ _⟩

end Project

section Run

variable {args : List String} {arguments : BuildArguments} {machine : Machine} {colors : Bool}
  {store : Store} {found : Project} {config : Config}

/-- A run with a valid configuration builds its project. -/
theorem run_build (hargs : Invocation.ofArguments args = .command (.build arguments))
    (hfound : store.projectAt arguments.config = .ok found)
    (hvalid : (found.config.override (arguments.overrides store.workingDirectory)).validated =
      .ok config) :
    run args machine colors store = runProject arguments machine colors store
      ⟨config, found.root⟩ (arguments.preface found) := by
  rw [run, hargs]
  simp only [Command.run]
  rw [runBuild, hfound]
  simp only [hvalid]
  rfl

/-- The run of a build ends with the exit code for its result. -/
theorem exitCode_runProject (project : Project) (preface : String) :
    (runProject arguments machine colors store project preface).exitCode =
      exitCodeOf (project.build machine arguments.dryRun store).result := by
  -- The code does not depend on how the report is printed.
  fun_cases runProject arguments machine colors store project preface with
  | case1 build announced told operations report hresult exitCode hjson =>
      exact (congrArg exitCodeOf hresult).symm
  | case2 build announced told operations report hresult exitCode hjson hsuccess =>
      exact (congrArg exitCodeOf hresult).symm
  | case3 build announced told operations report hresult exitCode hjson hfailure =>
      exact (congrArg exitCodeOf hresult).symm
  | case4 build announced told operations error hresult =>
      exact (congrArg exitCodeOf hresult).symm

/-- For programs the run of a build prints the events and nothing else, -/
theorem printed_runProject (hjson : arguments.json = true) (machine : Machine) (colors : Bool)
    (store : Store) (project : Project) :
    (runProject arguments machine colors store project "").output = "" ∧
      (runProject arguments machine colors store project "").diagnostics =
        Event.transcript (project.build machine arguments.dryRun store).allEvents := by
  have hannounced : arguments.announcement project = "" := by
    rw [BuildArguments.announcement, hjson, Bool.not_true, Bool.and_false]
    rfl
  have htold : "" ++ arguments.transcript colors
      (project.build machine arguments.dryRun store).allEvents =
        Event.transcript (project.build machine arguments.dryRun store).allEvents := by
    rw [BuildArguments.transcript, if_pos hjson, String.empty_append]
  fun_cases runProject arguments machine colors store project "" with
  | case1 => exact ⟨hannounced, htold⟩
  | case2 build announced told operations report hresult exitCode hplain =>
      exact absurd hjson hplain
  | case3 build announced told operations report hresult exitCode hplain =>
      exact absurd hjson hplain
  | case4 build announced told operations error hresult =>
      have hhint : arguments.hint project build.store = "" := by
        rw [BuildArguments.hint, hjson, Bool.true_or]
        rfl
      refine ⟨hannounced, ?_⟩
      simp only [hhint, String.append_empty]
      exact htold

/-- so that it can be read line by line. -/
theorem tells_runProject (hjson : arguments.json = true) (machine : Machine) (colors : Bool)
    (store : Store) (project : Project) :
    (runProject arguments machine colors store project "").Tells
      (project.build machine arguments.dryRun store).allEvents := by
  rcases printed_runProject hjson machine colors store project with ⟨houtput, hdiagnostics⟩
  refine ⟨houtput, ?_, fun event _ => ?_⟩
  · rw [hdiagnostics, Event.splitOn_transcript]
  · rcases event.exists_toJson_eq_object with ⟨members, hmembers⟩
    exact ⟨members, hmembers, by rw [Event.read?_document, hmembers]⟩

/-- Whatever the project and the other arguments, the run of a build whose configuration is
    valid prints for programs the lines of some events and nothing else. The last of them
    announces the exit code, and one of them is an error if and only if the build ended in an
    error, which it then tells. -/
theorem run_build_announced
    (hargs : Invocation.ofArguments args = .command (.build arguments))
    (hjson : arguments.json = true) (hfound : store.projectAt arguments.config = .ok found)
    (hvalid : (found.config.override (arguments.overrides store.workingDirectory)).validated =
      .ok config) :
    ∃ (events : List Event) (last : Event), (run args machine colors store).Tells events ∧
      events.getLast? = some last ∧ last.Announces (run args machine colors store).exitCode ∧
      ((run args machine colors store).exitCode = exitSuccess ∨
        (run args machine colors store).exitCode = exitFailure) ∧
      events.filter Event.isError =
        match (Project.build ⟨config, found.root⟩ machine arguments.dryRun store).result with
        | .error error => [.error none error.message]
        | .ok _ => [] := by
  have hpreface : arguments.preface found = "" := by
    rw [BuildArguments.preface, hjson, Bool.not_true, Bool.and_false]
    rfl
  rw [run_build hargs hfound hvalid, exitCode_runProject, hpreface]
  have htells := tells_runProject hjson machine colors store ⟨config, found.root⟩
  rcases Project.allEvents_cases ⟨config, found.root⟩ machine arguments.dryRun store with
    ⟨front, hfront, ⟨error, hresult, hevents⟩ | ⟨report, hresult, hevents⟩⟩
  · -- A build that ends early tells its error last, and no other.
    rw [hevents] at htells
    refine ⟨_, _, htells, List.getLast?_concat, ?_, exitCodeOf_cases _, ?_⟩
    · rw [hresult]
      exact .error error.message
    · rw [hresult, Project.filter_isError_concat hfront]
      rfl
  · -- Any other one tells that it was completed, whether or not all levels compiled.
    rw [hevents] at htells
    refine ⟨_, _, htells, List.getLast?_concat, ?_, exitCodeOf_cases _, ?_⟩
    · rw [hresult]
      exact Project.announces_completed report
    · rw [hresult, Project.filter_isError_concat hfront]
      rfl

end Run

section Blocked

/-- The arguments of a build for programs whose release is blocked. -/
def blockedArguments : BuildArguments :=
  { source := some (.ofString "levels"), output := some (.ofString "out"), json := true,
    verbose := true }

/-- The configuration that they give. -/
def blockedConfig : Config :=
  { source := .ofString "/levels", output := .ofString "/out" }

theorem blocked_announced :
    ∃ (events : List Event) (last : Event),
      (run ["build", "levels", "out", "--json", "-v"] {} true blockedStore).Tells events ∧
      events.getLast? = some last ∧ last.Announces exitFailure ∧
      events.filter Event.isError = [.error none
        "Output error: failed to write /out/b.json: Is a directory (os error 21)"] := by
  have hargs : Invocation.ofArguments ["build", "levels", "out", "--json", "-v"] =
      .command (.build blockedArguments) := by decide +kernel
  have hfound : blockedStore.projectAt none = .ok ⟨{}, .ofString "/"⟩ := by decide +kernel
  have hvalid : (Config.override {} (blockedArguments.overrides
      blockedStore.workingDirectory)).validated = .ok blockedConfig := by decide +kernel
  have hresult : (Project.build ⟨blockedConfig, .ofString "/"⟩ {} blockedArguments.dryRun
      blockedStore).result = .error (.output ⟨.ofString "/out/b.json", .isDirectory⟩) := by
    decide +kernel
  have hcode : (run ["build", "levels", "out", "--json", "-v"] {} true blockedStore).exitCode =
      exitFailure := by decide +kernel
  rcases @run_build_announced _ _ {} true _ _ _ hargs rfl hfound hvalid with
    ⟨events, last, htells, hlast, hannounces, _, herrors⟩
  rw [hcode] at hannounces
  refine ⟨events, last, htells, hlast, hannounces, ?_⟩
  rw [herrors, hresult]
  rfl

end Blocked

end PuzzleLevel
