import PuzzleLevel.Build.Workers
import PuzzleLevel.Proofs.Build

/-!
# What Workers Come To

However the workers at a build take turns, it ends like a build that is told the outcome of
their turns beforehand: the order in which starts were told, how long each file took and how
long all of it did. Those are what a `Machine` decides, so whatever holds of a build for
every machine holds for any number of workers and any order of their steps.

The argument is one invariant for each stage of the build. While files are compiled it is
that the log holds one start for each file whose start is told, in whatever order, and that
every report in its place is that of the file in that place. When the build goes on, all
reports are there, so all starts are told and no worker has anything left to do.

Conversely every machine is the outcome of some order of steps, also with a single worker,
who takes the files in the order of their starts. So nothing that a machine can decide is
out of reach of the workers, and a build with a worker can always come to its end.

## Main definitions

* `startedFiles`: The files whose starts are told.
* `opening`: What is told before the first report.
* `Project.IsReport`: A report that a file can get.
* `Project.Compiling`: The invariant of the files that are being compiled.
* `Project.Sound`: The invariant of a build under way.

## Theorems

* `sound_of_proceeds`: A step keeps the invariant.
* `sound_of_reaches`: So does a run.
* `exists_machine_of_reaches`: A build that has ended is the build of some machine.
* `reaches_of_machine`: The build of any machine can be reached.
-/

namespace PuzzleLevel

/-- The files whose starts are told. -/
def startedFiles (tasks : List (LevelFile × Task)) : List LevelFile :=
  (tasks.filter fun entry => entry.2.isStarted).map Prod.fst

/-- What is told before the first report: the number of files, and the starts. -/
def opening (files started : List LevelFile) : List Event :=
  .buildStarted files.length :: started.map fun file => .levelStarted file.id

theorem startedFiles_append (front back : List (LevelFile × Task)) :
    startedFiles (front ++ back) = startedFiles front ++ startedFiles back := by
  rw [startedFiles, List.filter_append, List.map_append]
  rfl

theorem startedFiles_cons (file : LevelFile) (task : Task) (back : List (LevelFile × Task)) :
    startedFiles ((file, task) :: back) =
      if task.isStarted then file :: startedFiles back else startedFiles back := by
  unfold startedFiles
  rw [List.filter_cons]
  by_cases h : task.isStarted = true
  · rw [if_pos h, if_pos h, List.map_cons]
  · rw [if_neg h, if_neg h]

theorem opening_append (files started : List LevelFile) (file : LevelFile) :
    opening files started ++ [.levelStarted file.id] = opening files (started ++ [file]) := by
  simp only [opening, List.map_append, List.map_cons, List.map_nil, List.cons_append]

namespace Project

variable {project : Project} {workers : Nat} {dryRun : Bool} {before : Store}

/-- A report that a file gets within some time. -/
def IsReport (project : Project) (before : Store) (file : LevelFile) (report : LevelReport) :
    Prop :=
  ∃ duration, report = .ofResult file duration
    (compileFile before file.path project.config.compileOptions)

/-- Every file that is there was discovered, in its place. Of some of them the starts are
    told, in some order, and a report in the place of a file is one of that file. -/
structure Compiling (project : Project) (before : Store) (tasks : List (LevelFile × Task))
    (started : List LevelFile) : Prop where
  discovered : project.levelFiles before = .ok (tasks.map Prod.fst)
  started_perm : started.Perm (startedFiles tasks)
  reported : ∀ entry ∈ tasks, ∀ report, entry.2 = .done report →
    project.IsReport before entry.1 report

/-- No worker has anything to do. -/
def Idle (tasks : List (LevelFile × Task)) : Prop :=
  ∀ entry ∈ tasks, entry.2.report? ≠ none

/-- What holds of a build under way, by its stage. -/
def Sound (project : Project) (dryRun : Bool) (before : Store) (s : BuildState) : Prop :=
  match s.stage with
  | .discovering => s.tasks = [] ∧ s.log = [] ∧ s.store = before
  | .hiring files =>
    s.tasks = [] ∧ project.levelFiles before = .ok files ∧
      s.log = [.buildStarted files.length] ∧ s.store = before
  | .waiting =>
    ∃ started, project.Compiling before s.tasks started ∧
      s.log = opening (s.tasks.map Prod.fst) started ∧ s.store = before
  | .telling levels pending =>
    ∃ started told, project.Compiling before s.tasks started ∧
      s.tasks.map (fun entry => entry.2.report?) = levels.map some ∧
      told ++ pending = levels.flatMap LevelReport.events ∧
      s.log = opening (s.tasks.map Prod.fst) started ++ told ∧ s.store = before
  | .ended result =>
    Idle s.tasks ∧ ∃ machine, (project.build machine dryRun before).result = result ∧
      (project.build machine dryRun before).events = s.log ∧
      (project.build machine dryRun before).store = s.store

section Compiling

variable {front back : List (LevelFile × Task)} {file : LevelFile} {task next : Task}
  {started : List LevelFile}

/-- The files stay in their places when one of them comes further. -/
theorem files_eq (front back : List (LevelFile × Task)) (file : LevelFile) (task next : Task) :
    (front ++ (file, next) :: back).map Prod.fst =
      (front ++ (file, task) :: back).map Prod.fst := by
  rw [List.map_append, List.map_append, List.map_cons, List.map_cons]

/-- Reports stay those of their files when a file comes further and gets no report, or its
    own. -/
theorem Compiling.reported_moved
    (h : project.Compiling before (front ++ (file, task) :: back) started)
    (hreport : ∀ report, next = .done report → project.IsReport before file report) :
    ∀ entry ∈ front ++ (file, next) :: back, ∀ report, entry.2 = .done report →
      project.IsReport before entry.1 report := by
  intro entry hentry report hdone
  rw [List.mem_append, List.mem_cons] at hentry
  rcases hentry with hfront | rfl | hback
  · exact h.reported entry (List.mem_append_left _ hfront) report hdone
  · exact hreport report hdone
  · exact h.reported entry (List.mem_append_right _ (List.mem_cons_of_mem _ hback)) report hdone

/-- A file comes further without its start being told. -/
theorem Compiling.moved (h : project.Compiling before (front ++ (file, task) :: back) started)
    (hstarted : next.isStarted = task.isStarted)
    (hreport : ∀ report, next = .done report → project.IsReport before file report) :
    project.Compiling before (front ++ (file, next) :: back) started := by
  refine ⟨?_, ?_, h.reported_moved hreport⟩
  · rw [files_eq front back file task next]
    exact h.discovered
  · have hperm := h.started_perm
    rw [startedFiles_append, startedFiles_cons] at hperm ⊢
    rw [hstarted]
    exact hperm

/-- The start of a file is told. -/
theorem Compiling.starts {worker : Nat}
    (h : project.Compiling before (front ++ (file, .taken worker) :: back) started) :
    project.Compiling before (front ++ (file, .running worker) :: back) (started ++ [file]) := by
  refine ⟨?_, ?_, h.reported_moved fun report hdone => ?_⟩
  · rw [files_eq front back file (.taken worker)]
    exact h.discovered
  · have hperm := h.started_perm
    simp only [startedFiles_append, startedFiles_cons, Task.isStarted, Bool.false_eq_true,
      if_false] at hperm
    simp only [startedFiles_append, startedFiles_cons, Task.isStarted, if_true]
    -- It is the last in the log and stands among the files in its place.
    calc (started ++ [file]).Perm (file :: started) := List.perm_append_singleton file started
      _ |>.Perm (file :: (startedFiles front ++ startedFiles back)) := hperm.cons file
      _ |>.Perm (startedFiles front ++ file :: startedFiles back) := List.perm_middle.symm
  · exact absurd hdone (by simp only [reduceCtorEq, not_false_eq_true])

end Compiling

section Collected

variable {tasks : List (LevelFile × Task)} {levels : List LevelReport}
  {started files : List LevelFile}

/-- When all reports are there, no worker has anything to do. -/
theorem idle_of_reports (h : tasks.map (fun entry => entry.2.report?) = levels.map some) :
    Idle tasks := by
  intro entry hentry hnone
  have hmem : entry.2.report? ∈ levels.map some := by
    rw [← h]
    exact List.mem_map_of_mem hentry
  rw [hnone, List.mem_map] at hmem
  rcases hmem with ⟨_, _, hsome⟩
  exact absurd hsome (by simp only [reduceCtorEq, not_false_eq_true])

/-- When all reports are there, the starts of all files are told. -/
theorem startedFiles_of_reports
    (h : tasks.map (fun entry => entry.2.report?) = levels.map some) :
    startedFiles tasks = tasks.map Prod.fst := by
  have hall : ∀ entry ∈ tasks, entry.2.isStarted = true := by
    intro entry hentry
    have hreport := idle_of_reports h entry hentry
    cases htask : entry.2 with
    | done report => rfl
    | running worker => rfl
    | taken worker =>
        rw [htask] at hreport
        exact absurd rfl hreport
    | waiting =>
        rw [htask] at hreport
        exact absurd rfl hreport
  rw [startedFiles, List.filter_eq_self.mpr hall]

/-- The reports in the places of the files are those of the files. -/
theorem reports_of_files
    (hreported : ∀ entry ∈ tasks, ∀ report, entry.2 = .done report →
      project.IsReport before entry.1 report)
    (h : tasks.map (fun entry => entry.2.report?) = levels.map some) :
    List.Forall₂ (project.IsReport before) (tasks.map Prod.fst) levels := by
  induction tasks generalizing levels with
  | nil =>
      rw [List.map_nil, eq_comm, List.map_eq_nil_iff] at h
      rw [h]
      exact .nil
  | cons entry more ih =>
      cases levels with
      | nil => exact absurd h (by simp only [List.map_cons, List.map_nil, reduceCtorEq,
          not_false_eq_true])
      | cons level others =>
          rw [List.map_cons, List.map_cons, List.cons.injEq] at h
          have hmore := ih (fun other hother =>
            hreported other (List.mem_cons_of_mem _ hother)) h.2
          have hdone : entry.2 = .done level := by
            revert h
            fun_cases Task.report? entry.2 with
            | case1 report =>
                intro h
                rw [Option.some.injEq] at h
                rw [h.1]
            | case2 => simp only [reduceCtorEq, false_and, false_implies]
          exact .cons (hreported entry (List.mem_cons_self ..) level hdone) hmore

/-- Reports of distinct files are those that they get within some time each. -/
theorem exists_times (hnodup : files.Nodup)
    (h : List.Forall₂ (project.IsReport before) files levels) :
    ∃ time : LevelFile → Duration, levels = files.map fun file => .ofResult file (time file)
      (compileFile before file.path project.config.compileOptions) := by
  induction h with
  | nil => exact ⟨fun _ => .zero, rfl⟩
  | @cons file level more others hlevel _ ih =>
      rw [List.nodup_cons] at hnodup
      rcases hlevel with ⟨duration, rfl⟩
      rcases ih hnodup.2 with ⟨time, rfl⟩
      refine ⟨fun other => if other = file then duration else time other, ?_⟩
      simp only [List.map_cons, if_true, List.cons.injEq, true_and]
      refine List.map_congr_left fun other hother => ?_
      -- The time of this file is not that of one behind it.
      have hne : other ≠ file := fun heq => hnodup.1 (heq ▸ hother)
      rw [if_neg hne]

/-- The starts, the reports and the time of a build are what some machine decides. -/
theorem exists_machine (hfiles : project.levelFiles before = .ok files)
    (hstarted : started.Perm files) (duration : Duration)
    (h : List.Forall₂ (project.IsReport before) files levels) :
    ∃ machine : Machine, machine.poolFault = none ∧ machine.starts files = started ∧
      project.collected machine before files = { levels, duration } := by
  have hnodup : files.Nodup := (nodup_of_levelFiles hfiles).of_map _
  rcases exists_times hnodup h with ⟨time, htime⟩
  -- A machine has an order for any files. Of these it has the one that was told, and others
  -- may start as they are.
  have hperm : ∀ given : List LevelFile,
      (if given = files then started else given).Perm given := by
    intro given
    by_cases hgiven : given = files
    · rw [if_pos hgiven, hgiven]
      exact hstarted
    · rw [if_neg hgiven]
  refine ⟨{ starts := fun given => if given = files then started else given
            starts_perm := hperm, levelTime := time, totalTime := duration }, rfl, if_pos rfl, ?_⟩
  rw [collected, compileAll, htime]

end Collected

section Stages

variable {s : BuildState} {files : List LevelFile} {levels : List LevelReport}
  {pending : List Event}

theorem Sound.at_discovering (h : project.Sound dryRun before s) (hstage : s.stage = .discovering) :
    s.tasks = [] ∧ s.log = [] ∧ s.store = before := by
  unfold Sound at h
  rwa [hstage] at h

theorem Sound.at_hiring (h : project.Sound dryRun before s) (hstage : s.stage = .hiring files) :
    s.tasks = [] ∧ project.levelFiles before = .ok files ∧
      s.log = [.buildStarted files.length] ∧ s.store = before := by
  unfold Sound at h
  rwa [hstage] at h

theorem Sound.at_waiting (h : project.Sound dryRun before s) (hstage : s.stage = .waiting) :
    ∃ started, project.Compiling before s.tasks started ∧
      s.log = opening (s.tasks.map Prod.fst) started ∧ s.store = before := by
  unfold Sound at h
  rwa [hstage] at h

theorem Sound.at_telling (h : project.Sound dryRun before s)
    (hstage : s.stage = .telling levels pending) :
    ∃ started told, project.Compiling before s.tasks started ∧
      s.tasks.map (fun entry => entry.2.report?) = levels.map some ∧
      told ++ pending = levels.flatMap LevelReport.events ∧
      s.log = opening (s.tasks.map Prod.fst) started ++ told ∧ s.store = before := by
  unfold Sound at h
  rwa [hstage] at h

theorem sound_waiting {started : List LevelFile} (hstage : s.stage = .waiting)
    (hcompiling : project.Compiling before s.tasks started)
    (hlog : s.log = opening (s.tasks.map Prod.fst) started) (hstore : s.store = before) :
    project.Sound dryRun before s := by
  unfold Sound
  rw [hstage]
  exact ⟨started, hcompiling, hlog, hstore⟩

/-- While a file has no report the build waits. -/
theorem waiting_of_task {front back : List (LevelFile × Task)} {file : LevelFile} {task : Task}
    (h : project.Sound dryRun before s) (htasks : s.tasks = front ++ (file, task) :: back)
    (htask : task.report? = none) : s.stage = .waiting := by
  have hmem : (file, task) ∈ s.tasks := by
    rw [htasks]
    exact List.mem_append_right _ (List.mem_cons_self ..)
  cases hstage : s.stage with
  | waiting => rfl
  | discovering =>
      rw [(h.at_discovering hstage).1] at hmem
      exact absurd hmem List.not_mem_nil
  | hiring files =>
      rw [(h.at_hiring hstage).1] at hmem
      exact absurd hmem List.not_mem_nil
  | telling levels pending =>
      rcases h.at_telling hstage with ⟨_, _, _, hlevels, _⟩
      exact absurd htask (idle_of_reports hlevels _ hmem)
  | ended result =>
      unfold Sound at h
      rw [hstage] at h
      exact absurd htask (h.1 _ hmem)

/-- What holds of a build under way while a file has no report. -/
theorem Sound.at_task {front back : List (LevelFile × Task)} {file : LevelFile} {task : Task}
    (h : project.Sound dryRun before s) (htasks : s.tasks = front ++ (file, task) :: back)
    (htask : task.report? = none) :
    s.stage = .waiting ∧ ∃ started,
      project.Compiling before (front ++ (file, task) :: back) started ∧
        s.log = opening ((front ++ (file, task) :: back).map Prod.fst) started ∧
        s.store = before := by
  have hstage := waiting_of_task h htasks htask
  have hwaiting := h.at_waiting hstage
  rw [htasks] at hwaiting
  exact ⟨hstage, hwaiting⟩

end Stages

section Steps

variable {s next : BuildState} {files : List LevelFile} {levels : List LevelReport}

/-- Files that nobody has taken yet. -/
theorem compiling_of_hired (hfiles : project.levelFiles before = .ok files) :
    project.Compiling before (files.map fun file => (file, .waiting)) [] := by
  have hsame : (files.map fun file => (file, Task.waiting)).map Prod.fst = files := by
    rw [List.map_map]
    exact List.map_id files
  have hnone : startedFiles (files.map fun file => (file, Task.waiting)) = [] := by
    rw [startedFiles, List.map_eq_nil_iff, List.filter_eq_nil_iff]
    intro entry hentry
    rcases List.mem_map.mp hentry with ⟨file, _, rfl⟩
    exact Bool.false_ne_true
  refine ⟨?_, ?_, fun entry hentry report hdone => ?_⟩
  · rw [hsame, hfiles]
  · rw [hnone]
  · rcases List.mem_map.mp hentry with ⟨file, _, rfl⟩
    exact absurd hdone (by simp only [reduceCtorEq, not_false_eq_true])

/-- A build that has collected its reports and told of them ends like that of a machine. -/
theorem Sound.finishes (h : project.Sound dryRun before s) (hstage : s.stage = .telling levels [])
    (duration : Duration) :
    Idle s.tasks ∧ ∃ machine, project.build machine dryRun before =
      project.finish dryRun s.store s.log { levels, duration } := by
  rcases h.at_telling hstage with ⟨started, told, hcompiling, hlevels, htold, hlog, hstore⟩
  have hperm := hcompiling.started_perm
  rw [startedFiles_of_reports hlevels] at hperm
  rcases exists_machine hcompiling.discovered hperm duration
    (reports_of_files hcompiling.reported hlevels) with ⟨machine, hpool, hstarts, hreport⟩
  have hall : project.compileAll machine before (s.tasks.map Prod.fst) = levels :=
    congrArg BuildReport.levels hreport
  refine ⟨idle_of_reports hlevels, machine, ?_⟩
  rw [List.append_nil] at htold
  rw [build_eq_finish hcompiling.discovered hpool, hreport, hall, Project.told, hstarts, hlog,
    htold, hstore]
  rfl

/-- A step keeps what holds of a build. -/
theorem sound_of_proceeds (h : project.Sound dryRun before s)
    (hstep : project.Proceeds workers dryRun s next) : project.Sound dryRun before next := by
  cases hstep with
  | undiscovered hstage hfiles =>
      rcases h.at_discovering hstage with ⟨htasks, hlog, hstore⟩
      rw [hstore] at hfiles
      refine ⟨fun entry hentry => ?_, {}, ?_⟩
      · simp only [htasks, List.not_mem_nil] at hentry
      · rw [build, hfiles, hlog, hstore]
        exact ⟨rfl, rfl, rfl⟩
  | discovered hstage hfiles =>
      rcases h.at_discovering hstage with ⟨htasks, hlog, hstore⟩
      rw [hstore] at hfiles
      exact ⟨htasks, hfiles, by rw [hlog]; rfl, hstore⟩
  | @unhired files reason hstage =>
      rcases h.at_hiring hstage with ⟨htasks, hfiles, hlog, hstore⟩
      refine ⟨fun entry hentry => ?_, { poolFault := some reason }, ?_⟩
      · simp only [htasks, List.not_mem_nil] at hentry
      · rw [build, hfiles, hlog, hstore]
        exact ⟨rfl, rfl, rfl⟩
  | @hired files hstage =>
      rcases h.at_hiring hstage with ⟨_, hfiles, hlog, hstore⟩
      refine sound_waiting rfl (compiling_of_hired hfiles) ?_ hstore
      simp only [hlog, opening, List.map_map, List.length_map, List.map_nil]
  -- There are files without a report only while the build waits, so a worker that takes,
  -- starts or delivers one leaves the stage as it is.
  | takes htasks =>
      rcases h.at_task htasks rfl with ⟨hstage, started, hcompiling, hlog, hstore⟩
      refine sound_waiting hstage (hcompiling.moved rfl fun report hdone => ?_) ?_ hstore
      · exact absurd hdone (by simp only [reduceCtorEq, not_false_eq_true])
      · rw [hlog, files_eq]
  | starts htasks =>
      rcases h.at_task htasks rfl with ⟨hstage, started, hcompiling, hlog, hstore⟩
      refine sound_waiting hstage hcompiling.starts ?_ hstore
      rw [hlog, opening_append, files_eq]
  | @delivers _ _ _ _ duration htasks =>
      rcases h.at_task htasks rfl with ⟨hstage, started, hcompiling, hlog, hstore⟩
      refine sound_waiting hstage
        (hcompiling.moved rfl fun report hdone => ⟨duration, ?_⟩) ?_ hstore
      · rw [Task.done.injEq] at hdone
        rw [← hdone, hstore]
      · rw [hlog, files_eq]
  | collects hstage hlevels =>
      rcases h.at_waiting hstage with ⟨started, hcompiling, hlog, hstore⟩
      refine ⟨started, [], hcompiling, hlevels, List.nil_append _, ?_, hstore⟩
      rw [hlog, List.append_nil]
  | @tells _ event _ hstage =>
      rcases h.at_telling hstage with ⟨started, told, hcompiling, hlevels, htold, hlog, hstore⟩
      refine ⟨started, told ++ [event], hcompiling, hlevels, ?_, ?_, hstore⟩
      · rw [← htold, List.append_assoc, List.singleton_append]
      · rw [hlog, List.append_assoc]
  | @finishes _ duration hstage =>
      rcases h.finishes hstage duration with ⟨hidle, machine, hbuild⟩
      exact ⟨hidle, machine, by rw [hbuild], by rw [hbuild], by rw [hbuild]⟩

/-- What holds of a build under way, wherever it has come to. -/
theorem sound_of_reaches (h : project.Reaches workers dryRun before s) :
    project.Sound dryRun before s := by
  induction h with
  | refl => exact ⟨rfl, rfl, rfl⟩
  | tail _ hstep ih => exact sound_of_proceeds ih hstep

/-- A build that has ended is that of some machine, whoever did what at which time. -/
theorem exists_machine_of_reaches {result : Except BuildError BuildReport}
    (h : project.Reaches workers dryRun before s) (hended : s.stage = .ended result) :
    ∃ machine, (project.build machine dryRun before).result = result ∧
      (project.build machine dryRun before).events = s.log ∧
      (project.build machine dryRun before).store = s.store := by
  have hsound := sound_of_reaches h
  unfold Sound at hsound
  rw [hended] at hsound
  exact hsound.2

end Steps

section Reached

variable {machine : Machine} {files : List LevelFile}

/-- The files of a build, of which the given ones still wait and all others are done. -/
def tasksWith (project : Project) (machine : Machine) (before : Store)
    (files waiting : List LevelFile) : List (LevelFile × Task) :=
  files.map fun file =>
    (file, if file ∈ waiting then .waiting
      else .done (.ofResult file (machine.levelTime file)
        (compileFile before file.path project.config.compileOptions)))

theorem tasksWith_append_cons (front back waiting : List LevelFile) (file : LevelFile) :
    project.tasksWith machine before (front ++ file :: back) waiting =
      project.tasksWith machine before front waiting ++
        (file, if file ∈ waiting then .waiting
          else .done (.ofResult file (machine.levelTime file)
            (compileFile before file.path project.config.compileOptions))) ::
        project.tasksWith machine before back waiting := by
  rw [tasksWith, List.map_append, List.map_cons]
  rfl

/-- A file that waits makes no difference to the others. -/
theorem tasksWith_of_notMem {file : LevelFile} (waiting : List LevelFile) (h : file ∉ files) :
    project.tasksWith machine before files (file :: waiting) =
      project.tasksWith machine before files waiting := by
  unfold tasksWith
  refine List.map_congr_left fun other hother => ?_
  have hne : other ≠ file := fun heq => h (heq ▸ hother)
  simp only [List.mem_cons, hne, false_or]

/-- Files that wait or are done keep no worker busy. -/
theorem worker?_of_mem_tasksWith {waiting : List LevelFile} {entry : LevelFile × Task}
    (h : entry ∈ project.tasksWith machine before files waiting) : entry.2.worker? = none := by
  rcases List.mem_map.mp h with ⟨file, _, rfl⟩
  by_cases hwaits : file ∈ waiting
  · simp only [if_pos hwaits, Task.worker?]
  · simp only [if_neg hwaits, Task.worker?]

/-- A worker who is alone takes a file, tells its start, and delivers its report. -/
theorem reaches_of_waiting {file : LevelFile} {waiting : List LevelFile} {log : List Event}
    (hworkers : 0 < workers) (hnodup : files.Nodup) (hfile : file ∈ files)
    (hwaiting : (file :: waiting).Nodup) :
    Relation.ReflTransGen (project.Proceeds workers dryRun)
      ⟨.waiting, project.tasksWith machine before files (file :: waiting), log, before⟩
      ⟨.waiting, project.tasksWith machine before files waiting,
        log ++ [.levelStarted file.id], before⟩ := by
  rcases List.append_of_mem hfile with ⟨front, back, rfl⟩
  rw [List.nodup_append, List.nodup_cons] at hnodup
  have hfront : file ∉ front := fun h => hnodup.2.2 file h file (List.mem_cons_self ..) rfl
  have hfree : ∀ entry ∈ project.tasksWith machine before (front ++ file :: back)
      (file :: waiting), entry.2.worker? ≠ some 0 := by
    intro entry hentry hbusy
    rw [worker?_of_mem_tasksWith hentry] at hbusy
    exact absurd hbusy (by simp only [reduceCtorEq, not_false_eq_true])
  -- No other entry has this file, so it is the only one that waits on its account.
  have hbefore : project.tasksWith machine before (front ++ file :: back) (file :: waiting) =
      project.tasksWith machine before front waiting ++ (file, .waiting) ::
        project.tasksWith machine before back waiting := by
    rw [tasksWith_append_cons, tasksWith_of_notMem waiting hfront,
      tasksWith_of_notMem waiting hnodup.2.1.1, if_pos (List.mem_cons_self ..)]
  have hafter := @tasksWith_append_cons project before machine front back waiting file
  rw [if_neg (List.nodup_cons.mp hwaiting).1] at hafter
  rw [hafter]
  refine .head (.takes hbefore hworkers hfree) ?_
  exact .head (.starts rfl) (.single (.delivers rfl))

/-- The only worker does the files in the order of their starts. -/
theorem reaches_of_files {waiting : List LevelFile} {log : List Event} (hworkers : 0 < workers)
    (hnodup : files.Nodup) (hsubset : waiting ⊆ files) (hwaiting : waiting.Nodup) :
    Relation.ReflTransGen (project.Proceeds workers dryRun)
      ⟨.waiting, project.tasksWith machine before files waiting, log, before⟩
      ⟨.waiting, project.tasksWith machine before files [],
        log ++ waiting.map (fun file => .levelStarted file.id), before⟩ := by
  induction waiting generalizing log with
  | nil =>
      rw [List.map_nil, List.append_nil]
  | cons file more ih =>
      have hfirst : file ∈ files := hsubset (List.mem_cons_self ..)
      have hmore := @ih (log ++ [.levelStarted file.id])
        (fun other hother => hsubset (List.mem_cons_of_mem _ hother)) (List.nodup_cons.mp hwaiting).2
      rw [List.append_assoc, List.singleton_append] at hmore
      exact (reaches_of_waiting hworkers hnodup hfirst hwaiting).trans hmore

/-- What remains to be told is told. -/
theorem reaches_of_pending {levels : List LevelReport} {pending log : List Event}
    {tasks : List (LevelFile × Task)} {store : Store} :
    Relation.ReflTransGen (project.Proceeds workers dryRun)
      ⟨.telling levels pending, tasks, log, store⟩
      ⟨.telling levels [], tasks, log ++ pending, store⟩ := by
  induction pending generalizing log with
  | nil => rw [List.append_nil]
  | cons event more ih =>
      have hmore := @ih (log ++ [event])
      rw [List.append_assoc, List.singleton_append] at hmore
      exact .head (.tells rfl) hmore

/-- The build of any machine can be reached with at least one worker. -/
theorem reaches_of_machine (hworkers : 0 < workers) (machine : Machine) :
    ∃ s, project.Reaches workers dryRun before s ∧
      s.stage = .ended (project.build machine dryRun before).result ∧
      s.log = (project.build machine dryRun before).events ∧
      s.store = (project.build machine dryRun before).store := by
  cases hfiles : project.levelFiles before with
  | error error =>
      rw [build_of_error hfiles]
      exact ⟨_, .single (.undiscovered rfl hfiles), rfl, rfl, rfl⟩
  | ok files =>
      have hdiscovered : project.Reaches workers dryRun before
          ⟨.hiring files, [], [.buildStarted files.length], before⟩ :=
        .single (.discovered rfl hfiles)
      cases hpool : machine.poolFault with
      | some reason =>
          rw [build_of_poolFault hfiles hpool]
          exact ⟨_, hdiscovered.tail (.unhired rfl), rfl, rfl, rfl⟩
      | none =>
          have hperm := machine.starts_perm files
          have hnodup : files.Nodup := (nodup_of_levelFiles hfiles).of_map _
          -- At first all files wait, which are those whose starts are to be told.
          have hwaiting : (files.map fun file => (file, Task.waiting)) =
              project.tasksWith machine before files (machine.starts files) := by
            unfold tasksWith
            refine List.map_congr_left fun file hfile => ?_
            rw [if_pos (hperm.mem_iff.mpr hfile)]
          have hall : (project.tasksWith machine before files []).map
              (fun entry => entry.2.report?) =
                (project.compileAll machine before files).map some := by
            rw [tasksWith, compileAll, List.map_map, List.map_map]
            refine List.map_congr_left fun file _ => ?_
            simp only [Function.comp_apply, List.not_mem_nil, if_false, Task.report?]
          have hstarted := hdiscovered.tail (.hired rfl)
          rw [hwaiting] at hstarted
          have hdone := hstarted.trans (reaches_of_files hworkers hnodup hperm.subset
            (hperm.nodup_iff.mpr hnodup))
          have htold := (hdone.tail (.collects rfl hall)).trans reaches_of_pending
          have hended := htold.tail (@Proceeds.finishes _ _ _ _ _ machine.totalTime rfl)
          rw [build_eq_finish hfiles hpool]
          exact ⟨_, hended, rfl, rfl, rfl⟩

end Reached

end Project

end PuzzleLevel
