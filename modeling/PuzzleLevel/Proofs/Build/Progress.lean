import PuzzleLevel.Progress.Console
import PuzzleLevel.Proofs.Build.Workers

/-!
# What a Build Tells

Whoever watches a build sees a fixed order of events in spite of the workers. The number of
files comes first and then all the starts, which are the only events whose order is left to
the workers. No file is told to be done before the start of every other one is told, because
the build tells of the results itself, after the last of them is there. So from then on the
events follow the order of the files, and the last of them sums up the ones before.

A console counts the ends of files, and only they and the first event change its count. It
starts anew with every build, so what it remembers from an earlier one does not matter, and
the ends are numbered in the order of the files.

## Main definitions

* `Project.TellsOf`: What is told of a file when its result is there.
* `Account`: The parts of what a build tells.
* `Account.Tells`: A log has these parts, and their numbers are right.
* `Console.captions`: What a console shows for each of a sequence of events.
* `Console.endTexts`: What it shows for the ends of files.
* `Console.Numbers`: A text gives an end its number.

## Theorems

* `countP_events`: Every report has one end, good or bad.
* `numbers_endTexts`: A console numbers the ends of files.
* `progress_of_reaches`: What a build with any number of workers tells.
-/

namespace PuzzleLevel

namespace Event

/-- The end of a file. -/
def isEnd : Event → Bool
  | levelCompleted .. => true
  | _ => false

/-- The end of a file that was compiled. -/
def endsWell : Event → Bool
  | levelCompleted _ .success _ => true
  | _ => false

/-- The end of a file that failed. -/
def endsBadly : Event → Bool
  | levelCompleted _ (.failed _) _ => true
  | _ => false

end Event

/-- What is told of a file when its result is there: its warnings in their order, and then
    its end, once. -/
def Project.TellsOf (project : Project) (store : Store) (file : LevelFile)
    (events : List Event) : Prop :=
  ∃ milliseconds, match compileFile store file.path project.config.compileOptions with
    | .ok compiled =>
      events = compiled.warnings.map (fun warning => .warning (some file.id) warning.message) ++
        [.levelCompleted file.id .success milliseconds]
    | .error error =>
      events = [.levelCompleted file.id (.failed error.message) milliseconds]

/-- The parts of what a build tells. -/
structure Account where
  /-- The files in the order of their starts. -/
  started : List LevelFile
  /-- What is told of each file when its result is there. -/
  ends : List (List Event)
  milliseconds : Nat
  succeeded : Nat
  failed : Nat

/-- A log tells of the files what they gave, and ends with right numbers. -/
structure Account.Tells (account : Account) (project : Project) (store : Store)
    (files : List LevelFile) (report : BuildReport) (log : List Event) : Prop where
  log_eq : log =
    .buildStarted files.length :: account.started.map (fun file => .levelStarted file.id) ++
      account.ends.flatten ++
      [.buildCompleted report.isSuccess account.milliseconds account.succeeded account.failed]
  /-- Every file starts once. -/
  started_perm : account.started.Perm files
  /-- The files end in their order. -/
  ends_tell : List.Forall₂ (project.TellsOf store) files account.ends
  sum_eq : account.succeeded + account.failed = files.length
  succeeded_eq : account.succeeded = log.countP Event.endsWell
  failed_eq : account.failed = log.countP Event.endsBadly
  success_iff : report.isSuccess = true ↔ account.failed = 0

section Counts

/-- Events of one kind are not counted if none of that kind is. -/
theorem countP_map_eq_zero {α : Type} {p : Event → Bool} {event : α → Event}
    (h : ∀ a, p (event a) = false) (items : List α) : (items.map event).countP p = 0 := by
  rw [List.countP_eq_zero]
  intro found hfound
  rcases List.mem_map.mp hfound with ⟨a, _, rfl⟩
  rw [h]
  exact Bool.false_ne_true

/-- Every report has one end, good or bad. -/
theorem LevelReport.countP_events (report : LevelReport) :
    report.events.countP Event.endsWell = (if report.isSuccess then 1 else 0) ∧
      report.events.countP Event.endsBadly = (if report.isSuccess then 0 else 1) := by
  unfold LevelReport.events LevelReport.isSuccess
  rw [List.countP_append, List.countP_append, countP_map_eq_zero fun _ => rfl,
    countP_map_eq_zero fun _ => rfl]
  cases report.outcome with
  | compiled level => exact ⟨rfl, rfl⟩
  | failed reason => exact ⟨rfl, rfl⟩

/-- The ends of files are as many as the reports of either kind. -/
theorem countP_flatMap_events (levels : List LevelReport) :
    (levels.flatMap LevelReport.events).countP Event.endsWell =
        (levels.filter LevelReport.isSuccess).length ∧
      (levels.flatMap LevelReport.events).countP Event.endsBadly =
        (levels.filter fun level => !level.isSuccess).length := by
  induction levels with
  | nil => exact ⟨rfl, rfl⟩
  | cons level more ih =>
      rw [List.flatMap_cons, List.countP_append, List.countP_append, level.countP_events.1,
        level.countP_events.2, ih.1, ih.2]
      by_cases h : level.isSuccess = true
      · simp [h, Nat.add_comm]
      · simp [h, Nat.add_comm]

/-- The events around those of the reports are no ends. -/
theorem countP_around (p : Event → Bool) (hfirst : ∀ n, p (.buildStarted n) = false)
    (hstart : ∀ id, p (.levelStarted id) = false)
    (hlast : ∀ a b c d, p (.buildCompleted a b c d) = false) (n : Nat)
    (started : List LevelFile) (ends : List Event) (report : BuildReport) :
    (Event.buildStarted n :: started.map (fun file => Event.levelStarted file.id) ++ ends ++
      [Project.completed report]).countP p = ends.countP p := by
  have hstarts : (started.map fun file => Event.levelStarted file.id).countP p = 0 :=
    countP_map_eq_zero (fun file => hstart file.id) started
  rw [List.countP_append, List.countP_append, List.countP_cons_of_neg (by simp [hfirst]), hstarts,
    Project.completed, List.countP_singleton, hlast]
  simp

end Counts

namespace Console

/-- What a console remembers after a sequence of events. -/
def afterAll (console : Console) (events : List Event) : Console :=
  events.foldl after console

/-- What a console shows for each of a sequence of events. -/
def captions (console : Console) : List Event → List (Event × String)
  | [] => []
  | event :: more => (event, console.shown event) :: captions (console.after event) more

/-- What a console shows for the ends of files among some events. -/
def endTexts (console : Console) (events : List Event) : List String :=
  ((console.captions events).filter fun caption => caption.1.isEnd).map Prod.snd

/-- A text shows the end of a file as the given one of how many. -/
def Numbers (console : Console) (number total : Nat) (id text : String) : Prop :=
  ∃ word rest, (word = console.painted .green "ok" ∨ word = console.painted .red "FAILED") ∧
    text = console.painted .cyan "[build]" ++ " [" ++ toString number ++ "/" ++
      toString total ++ "] " ++ word ++ " " ++ id ++ " (" ++ rest

variable {console : Console} {project : Project} {store : Store}

/-- All that a console shows is what it shows for each of the events. -/
theorem transcript_eq (console : Console) (events : List Event) :
    console.transcript events = String.join ((console.captions events).map Prod.snd) := by
  induction events generalizing console with
  | nil => rfl
  | cons event more ih =>
      rw [transcript, captions, List.map_cons, String.join_cons, ih]

theorem captions_append (console : Console) (front back : List Event) :
    console.captions (front ++ back) =
      console.captions front ++ (console.afterAll front).captions back := by
  induction front generalizing console with
  | nil => rfl
  | cons event more ih =>
      rw [List.cons_append, captions, captions, ih]
      rfl

theorem endTexts_append (console : Console) (front back : List Event) :
    console.endTexts (front ++ back) =
      console.endTexts front ++ (console.afterAll front).endTexts back := by
  rw [endTexts, captions_append, List.filter_append, List.map_append]
  rfl

/-- Events that are no ends and are not counted show no ends and leave the count alone. -/
theorem endTexts_quiet (console : Console) (events : List Event)
    (h : ∀ event ∈ events, event.isEnd = false ∧ ∀ c, after c event = c) :
    console.endTexts events = [] ∧ console.afterAll events = console := by
  induction events with
  | nil => exact ⟨rfl, rfl⟩
  | cons event more ih =>
      have hevent := h event (List.mem_cons_self ..)
      have hmore := ih fun other hother => h other (List.mem_cons_of_mem _ hother)
      unfold endTexts afterAll at hmore ⊢
      rw [captions, List.foldl_cons, hevent.2, List.filter_cons_of_neg (by simp [hevent.1])]
      exact hmore

/-- The end of a file is shown with the next number. -/
theorem numbers_shown (console : Console) (id : String) (status : LevelStatus)
    (milliseconds : Nat) :
    console.Numbers (console.current + 1) console.total id
      (console.shown (.levelCompleted id status milliseconds)) := by
  cases status with
  | success =>
      refine ⟨_, briefDuration milliseconds ++ ")\n", Or.inl rfl, ?_⟩
      simp only [shown, String.append_assoc, String.append_empty]
  | failed reason =>
      refine ⟨_, briefDuration milliseconds ++ ")\n" ++
        ("        " ++ console.painted .red reason ++ "\n"), Or.inr rfl, ?_⟩
      simp only [shown, String.append_assoc]

/-- What is told of a file ends in its end and holds no other. -/
theorem tellsOf_cases {file : LevelFile} {events : List Event}
    (h : project.TellsOf store file events) :
    ∃ (warnings : List String) (status : LevelStatus) (milliseconds : Nat),
      events = warnings.map (fun warning => .warning (some file.id) warning) ++
        [.levelCompleted file.id status milliseconds] := by
  rcases h with ⟨milliseconds, h⟩
  cases hresult : compileFile store file.path project.config.compileOptions with
  | ok compiled =>
      rw [hresult] at h
      refine ⟨compiled.warnings.map Warning.message, .success, milliseconds, ?_⟩
      rw [List.map_map]
      exact h
  | error error =>
      rw [hresult] at h
      exact ⟨[], .failed error.message, milliseconds, h⟩

/-- A console that has counted some files numbers the ends of the next ones. -/
theorem numbers_endTexts {files : List LevelFile} {ends : List (List Event)}
    (h : List.Forall₂ (project.TellsOf store) files ends) (console : Console) :
    List.Forall₂ (fun numbered text =>
        console.Numbers (numbered.2 + 1) console.total numbered.1.id text)
      (files.zipIdx console.current) (console.endTexts ends.flatten) := by
  induction h generalizing console with
  | nil => exact .nil
  | @cons file events more others hfile _ ih =>
      rcases tellsOf_cases hfile with ⟨warnings, status, milliseconds, rfl⟩
      have hquiet := endTexts_quiet console
        (warnings.map fun warning => .warning (some file.id) warning) fun event hevent => by
          rcases List.mem_map.mp hevent with ⟨warning, _, rfl⟩
          exact ⟨rfl, fun _ => rfl⟩
      -- The warnings leave the count as it is, and the end behind them raises it by one.
      rw [List.flatten_cons, List.append_assoc, endTexts_append, hquiet.1, hquiet.2,
        endTexts_append, List.nil_append, List.zipIdx_cons]
      exact .cons (numbers_shown console file.id status milliseconds)
        (ih (console.after (.levelCompleted file.id status milliseconds)))

end Console

/-- A console shows the end of every file with its number. What it remembers from before does
    not matter. -/
theorem Account.Tells.numbers {account : Account} {project : Project} {store : Store}
    {files : List LevelFile} {report : BuildReport} {log : List Event}
    (h : account.Tells project store files report log) (console : Console) :
    List.Forall₂ (fun numbered text =>
        console.Numbers (numbered.2 + 1) files.length numbered.1.id text)
      files.zipIdx (console.endTexts log) := by
  -- The first event makes the console one that has counted nothing.
  have hfirst := (console.after (.buildStarted files.length)).endTexts_quiet
    (account.started.map fun file => .levelStarted file.id) fun event hevent => by
      rcases List.mem_map.mp hevent with ⟨file, _, rfl⟩
      exact ⟨rfl, fun _ => rfl⟩
  have hopening : console.endTexts (.buildStarted files.length ::
      account.started.map fun file => .levelStarted file.id) = [] := hfirst.1
  have hcounting : console.afterAll (.buildStarted files.length ::
      account.started.map fun file => .levelStarted file.id) =
        console.after (.buildStarted files.length) := hfirst.2
  have hlast : ∀ c : Console, c.endTexts [.buildCompleted report.isSuccess account.milliseconds
      account.succeeded account.failed] = [] := fun _ => rfl
  rw [h.log_eq, Console.endTexts_append, Console.endTexts_append, hopening, hcounting, hlast,
    List.nil_append, List.append_nil]
  exact Console.numbers_endTexts h.ends_tell (console.after (.buildStarted files.length))

namespace Project

variable {project : Project} {workers : Nat} {dryRun : Bool} {before : Store}
  {machine : Machine} {files : List LevelFile} {report : BuildReport}

/-- The report of a file is told as what the file gave. -/
theorem tellsOf_ofResult (file : LevelFile) (duration : Duration) :
    project.TellsOf before file (LevelReport.ofResult file duration
      (compileFile before file.path project.config.compileOptions)).events := by
  refine ⟨duration.milliseconds, ?_⟩
  cases compileFile before file.path project.config.compileOptions with
  | ok compiled =>
      simp only [LevelReport.ofResult, LevelReport.events, List.map_map]
      rfl
  | error error => rfl

theorem tellsOf_compileAll :
    List.Forall₂ (project.TellsOf before) files
      ((project.compileAll machine before files).map LevelReport.events) := by
  rw [compileAll, List.map_map, List.forall₂_map_right_iff, List.forall₂_same]
  exact fun file _ => tellsOf_ofResult file _

/-- What a build with a report tells, part by part. -/
def account (machine : Machine) (files : List LevelFile) (report : BuildReport) : Account where
  started := machine.starts files
  ends := report.levels.map LevelReport.events
  milliseconds := report.duration.milliseconds
  succeeded := report.successCount
  failed := report.failedCount

/-- The parts of what a build with a report tells are right. -/
theorem tells_of_build_ok (h : (project.build machine dryRun before).result = .ok report) :
    ∃ files, project.levelFiles before = .ok files ∧
      (account machine files report).Tells project before files report
        (project.build machine dryRun before).events := by
  rcases events_of_build_ok h with ⟨files, hfiles, hlevels, hevents⟩
  have hlength : report.levels.length = files.length := by
    rw [hlevels, collected, compileAll, List.length_map]
  have hcounts := countP_flatMap_events report.levels
  have hlog : (project.build machine dryRun before).events =
      .buildStarted files.length :: (machine.starts files).map (fun file => .levelStarted file.id) ++
        report.levels.flatMap LevelReport.events ++ [completed report] := hevents
  -- The numbers are counted in the report, and the log has one end for each entry of it.
  refine ⟨files, hfiles, hlog, machine.starts_perm files, ?_, ?_, ?_, ?_, ?_⟩
  · rw [account, hlevels]
    exact tellsOf_compileAll
  · rw [← hlength]
    exact (List.length_eq_length_filter_add _).symm
  · rw [hlog, countP_around _ (fun _ => rfl) (fun _ => rfl) (fun _ _ _ _ => rfl), hcounts.1]
    rfl
  · rw [hlog, countP_around _ (fun _ => rfl) (fun _ => rfl) (fun _ _ _ _ => rfl), hcounts.2]
    rfl
  · rw [BuildReport.isSuccess, decide_eq_true_eq]
    rfl

/-- Whatever number of workers there are and however they take turns, a build that ends with a
    report has told the number of its files, the start of each of them once, then of each of
    them, in their order, the warnings and the end, and at last its own end with the right
    numbers. A console has numbered the ends in their order. -/
theorem progress_of_reaches {project : Project} {workers : Nat} {dryRun : Bool} {before : Store}
    {s : BuildState} {report : BuildReport} (h : project.Reaches workers dryRun before s)
    (hended : s.stage = .ended (.ok report)) :
    ∃ files account, project.levelFiles before = .ok files ∧
      Account.Tells account project before files report s.log ∧
      ∀ console : Console,
        console.transcript s.log = String.join ((console.captions s.log).map Prod.snd) ∧
        List.Forall₂ (fun numbered text =>
            console.Numbers (numbered.2 + 1) files.length numbered.1.id text)
          files.zipIdx (console.endTexts s.log) := by
  rcases exists_machine_of_reaches h hended with ⟨machine, hresult, hevents, _⟩
  rcases tells_of_build_ok hresult with ⟨files, hfiles, htells⟩
  rw [hevents] at htells
  exact ⟨files, account machine files report, hfiles, htells, fun console =>
    ⟨console.transcript_eq s.log, htells.numbers console⟩⟩

end Project

section TwoAtOnce

/-- Two level files, of which the first has a warning and the second no starting position. -/
def twoAtOnce : Store :=
  { entries := [(["levels".toList], .directory),
      (["levels".toList, "a.txt".toList], .file (.text "S\n---\nX: Ice\n")),
      (["levels".toList, "b.txt".toList], .file (.text "#\n"))] }

def firstAtOnce : LevelFile := ⟨"a", .ofString "levels/a.txt"⟩

def secondAtOnce : LevelFile := ⟨"b", .ofString "levels/b.txt"⟩

/-- The report of one of them, which took no time. -/
def reportAtOnce (file : LevelFile) : LevelReport :=
  .ofResult file .zero (compileFile twoAtOnce file.path outProject.config.compileOptions)

/-- The build when all reports are told. -/
def endAtOnce : BuildState where
  stage := .telling [reportAtOnce firstAtOnce, reportAtOnce secondAtOnce] []
  tasks := [(firstAtOnce, .done (reportAtOnce firstAtOnce)),
    (secondAtOnce, .done (reportAtOnce secondAtOnce))]
  log := [.buildStarted 2, .levelStarted "b", .levelStarted "a"] ++
    [reportAtOnce firstAtOnce, reportAtOnce secondAtOnce].flatMap LevelReport.events
  store := twoAtOnce

/-- One worker takes the first file, another takes the second, and tells its start and
    delivers its report before the first one does. -/
theorem reaches_endAtOnce : outProject.Reaches 2 false twoAtOnce endAtOnce := by
  have hfiles : outProject.levelFiles twoAtOnce = .ok [firstAtOnce, secondAtOnce] := by
    decide +kernel
  have hdiscovered : outProject.Reaches 2 false twoAtOnce
      ⟨.hiring [firstAtOnce, secondAtOnce], [], [.buildStarted 2], twoAtOnce⟩ :=
    .single (.discovered rfl hfiles)
  have hhired := hdiscovered.tail (.hired rfl)
  have htaken := (hhired.tail
    (@Project.Proceeds.takes _ _ _ _ [] [(secondAtOnce, .waiting)] firstAtOnce 0 rfl (by decide)
      (by decide))).tail
    (@Project.Proceeds.takes _ _ _ _ [(firstAtOnce, .taken 0)] [] secondAtOnce 1 rfl (by decide)
      (by decide))
  have hstarted := (htaken.tail
    (@Project.Proceeds.starts _ _ _ _ [(firstAtOnce, .taken 0)] [] secondAtOnce 1 rfl)).tail
    (@Project.Proceeds.starts _ _ _ _ [] [(secondAtOnce, .running 1)] firstAtOnce 0 rfl)
  have hdelivered := (hstarted.tail
    (@Project.Proceeds.delivers _ _ _ _ [(firstAtOnce, .running 0)] [] secondAtOnce 1 .zero
      rfl)).tail
    (@Project.Proceeds.delivers _ _ _ _ [] [(secondAtOnce, .done (reportAtOnce secondAtOnce))]
      firstAtOnce 0 .zero rfl)
  have hcollected := hdelivered.tail (@Project.Proceeds.collects _ _ _ _
    [reportAtOnce firstAtOnce, reportAtOnce secondAtOnce] rfl rfl)
  exact hcollected.trans Project.reaches_of_pending

theorem twoAtOnce_progress :
    ∃ s report, outProject.Reaches 2 false twoAtOnce s ∧ s.stage = .ended (.ok report) ∧
      s.log = [.buildStarted 2, .levelStarted "b", .levelStarted "a",
        .warning (some "a") "line 3: legend symbol 'X' does not appear in the map",
        .levelCompleted "a" .success 0,
        .levelCompleted "b" (.failed "no start marker 'S' found in the map") 0,
        .buildCompleted false 0 1 1] ∧
      ∃ files account, outProject.levelFiles twoAtOnce = .ok files ∧
        Account.Tells account outProject twoAtOnce files report s.log := by
  have hresult : (outProject.finish false twoAtOnce endAtOnce.log
      ⟨[reportAtOnce firstAtOnce, reportAtOnce secondAtOnce], [], .zero⟩).result =
        .ok ⟨[reportAtOnce firstAtOnce, reportAtOnce secondAtOnce], [], .zero⟩ := by
    decide +kernel
  have hreaches := reaches_endAtOnce.tail (@Project.Proceeds.finishes _ _ _ _ _ .zero rfl)
  have hended := congrArg Stage.ended hresult
  rcases Project.progress_of_reaches hreaches hended with ⟨files, account, hfiles, htells, _⟩
  exact ⟨_, _, hreaches, hended, by decide +kernel, files, account, hfiles, htells⟩

end TwoAtOnce

end PuzzleLevel
