import Mathlib.Data.List.Forall2
import PuzzleLevel.Report

/-!
# What a Report Accounts For

A report keeps one list, and all that it says is read off this list anew: how many results there
are of either kind, which files failed, which levels there are and under which identifiers, and
what a summary shows. None of the readings knows of the others, so it takes a proof that they
fit together whatever was added.

The levels are where they could come apart. Identifiers and levels are collected together, parted
into two lists, and the levels are split once more into a first one and the rest. That the n-th
identifier is still that of the n-th level rests on `compiledLevels_spec`, which puts what was
collected side by side with the results that it comes from.

## Main definitions

* `BuildReport.addAll`: A report with results added one by one.
* `LevelReport.NamedBy`: An entry of a summary names a failed file.
* `BuildReport.Shows`: Lines of a summary show warnings.
* `BuildReport.Accounts`: A report accounts for the results that were added.

## Theorems

* `levels_addAll`: What was added is kept in its order.
* `successCount_add_failedCount`: Every result is counted once.
* `compiledLevels_spec`: The levels are those of the successful results.
* `index?_eq_none_iff`, `index?_eq_some`: There is an index of them if there are any.
* `shows_warningLines`: No warning is lost without being counted.
* `accounts`: A report accounts for its results.
* `accounts_addAll`: It does so whenever another result was added.
-/

namespace PuzzleLevel

namespace LevelReport

theorem isSuccess_iff {report : LevelReport} :
    report.isSuccess = true ↔ ∃ level, report.outcome = .compiled level := by
  rw [isSuccess]
  cases report.outcome with
  | compiled level => exact ⟨fun _ => ⟨level, rfl⟩, fun _ => rfl⟩
  | failed reason =>
      simp only [Outcome.isSuccess, Bool.false_eq_true, reduceCtorEq, exists_false]

theorem isSuccess_eq_false_iff {report : LevelReport} :
    report.isSuccess = false ↔ ∃ reason, report.outcome = .failed reason := by
  rw [isSuccess]
  cases report.outcome with
  | compiled level =>
      simp only [Outcome.isSuccess, Bool.true_eq_false, reduceCtorEq, exists_false]
  | failed reason => exact ⟨fun _ => ⟨reason, rfl⟩, fun _ => rfl⟩

/-- An entry of a summary names a failed file: its identifier, its path and the reason. -/
def NamedBy (report : LevelReport) (entry : String) : Prop :=
  ∃ reason, report.outcome = .failed reason ∧
    entry = "  - " ++ report.id ++ " (" ++ report.path.text ++ "): " ++ ("failed: " ++ reason)

theorem namedBy_summaryLine {report : LevelReport} (h : report.isSuccess = false) :
    report.NamedBy report.summaryLine := by
  rcases isSuccess_eq_false_iff.mp h with ⟨reason, hreason⟩
  refine ⟨reason, hreason, ?_⟩
  rw [summaryLine, hreason, Outcome.text]

end LevelReport

namespace BuildReport

/-- A report with results added one by one. -/
def addAll (report : BuildReport) (results : List LevelReport) : BuildReport :=
  results.foldl add report

/-- What was added is kept in its order. -/
theorem levels_addAll (report : BuildReport) (results : List LevelReport) :
    (report.addAll results).levels = report.levels ++ results := by
  induction results generalizing report with
  | nil => exact (List.append_nil _).symm
  | cons level more ih =>
      have hmore : (report.addAll (level :: more)).levels = (report.add level).levels ++ more :=
        ih (report.add level)
      rw [hmore, add, List.append_assoc, List.singleton_append]

section Counts

variable (report : BuildReport)

/-- Every result is counted once. -/
theorem successCount_add_failedCount :
    report.successCount + report.failedCount = report.levels.length :=
  (List.length_eq_length_filter_add LevelReport.isSuccess).symm

theorem isSuccess_iff_failures : report.isSuccess = true ↔ report.failures = [] := by
  rw [isSuccess, failedCount, decide_eq_true_eq, List.length_eq_zero_iff]

theorem isSuccess_iff :
    report.isSuccess = true ↔ ∀ level ∈ report.levels, level.isSuccess = true := by
  rw [isSuccess_iff_failures, failures, List.filter_eq_nil_iff]
  refine forall_congr' fun level => imp_congr_right fun _ => ?_
  rw [Bool.not_eq_true', Bool.not_eq_false]

end Counts

section Index

variable (report : BuildReport)

/-- The levels of a report are those of its successful results, one by one and with their
    identifiers. -/
theorem compiledLevels_spec :
    List.Forall₂ (fun level found => found.1 = level.id ∧ level.outcome = .compiled found.2)
      (report.levels.filter LevelReport.isSuccess) report.compiledLevels := by
  rw [compiledLevels]
  induction report.levels with
  | nil => exact .nil
  | cons level more ih =>
      cases houtcome : level.outcome with
      | compiled found =>
          rw [List.filter_cons_of_pos (LevelReport.isSuccess_iff.mpr ⟨found, houtcome⟩),
            List.filterMap_cons_some (b := (level.id, found)) (by rw [houtcome]; rfl)]
          exact .cons ⟨rfl, houtcome⟩ ih
      | failed reason =>
          -- A failed file is left out on both sides.
          rw [List.filter_cons_of_neg (ne_true_of_eq_false
              (LevelReport.isSuccess_eq_false_iff.mpr ⟨reason, houtcome⟩)),
            List.filterMap_cons_none (by rw [houtcome]; rfl)]
          exact ih

theorem length_compiledLevels : report.compiledLevels.length = report.successCount :=
  report.compiledLevels_spec.length_eq.symm

theorem compiledLevels_fst :
    report.compiledLevels.map Prod.fst =
      (report.levels.filter LevelReport.isSuccess).map LevelReport.id := by
  rw [← List.forall₂_eq_eq_eq, List.forall₂_map_left_iff, List.forall₂_map_right_iff]
  exact report.compiledLevels_spec.flip.imp fun _ _ h => h.1

/-- In a report without failures every file has its level. -/
theorem compiledLevels_ids {report : BuildReport} (h : report.isSuccess = true) :
    report.compiledLevels.map Prod.fst = report.levels.map LevelReport.id := by
  rw [compiledLevels_fst, List.filter_eq_self.mpr (report.isSuccess_iff.mp h)]

/-- There is no index just if there is no level. -/
theorem index?_eq_none_iff : report.index? = none ↔ report.successCount = 0 := by
  rw [index?, Option.map_eq_none_iff, ← length_compiledLevels]
  cases report.compiledLevels with
  | nil => exact ⟨fun _ => rfl, fun _ => rfl⟩
  | cons first more =>
      simp only [List.map_cons, LevelIndex.ofLevels?, List.length_cons, reduceCtorEq,
        Nat.succ_ne_zero]

/-- An index is one of all levels, in their order. -/
theorem index?_eq_some {report : BuildReport} {order : List String} {index : LevelIndex}
    (h : report.index? = some (order, index)) :
    order = report.compiledLevels.map Prod.fst ∧
      index.levels = report.compiledLevels.map Prod.snd := by
  rw [index?, Option.map_eq_some_iff] at h
  rcases h with ⟨found, hlevels, he⟩
  rw [Prod.mk.injEq] at he
  rw [← he.1, ← he.2]
  refine ⟨rfl, ?_⟩
  -- Split into a first level and the rest, the levels are still the same list.
  cases hcompiled : report.compiledLevels.map Prod.snd with
  | nil =>
      rw [hcompiled] at hlevels
      exact absurd hlevels (by simp only [LevelIndex.ofLevels?, reduceCtorEq, not_false_eq_true])
  | cons first more =>
      rw [hcompiled, LevelIndex.ofLevels?, Option.some.injEq] at hlevels
      rw [← hlevels]
      rfl

end Index

section Summary

/-- The line that counts the warnings. -/
def countLine (warnings : List String) : String :=
  "Warnings (" ++ toString warnings.length ++ "): "

/-- Lines of a summary show warnings: all of them if they are no more than five, and otherwise
    the first five, with the number of those that are left. -/
inductive Shows : List String → List String → Prop
  | nothing : Shows [] []
  | all {warnings : List String} (hne : warnings ≠ []) (hfew : warnings.length ≤ 5) :
    Shows warnings (countLine warnings :: warnings.map fun warning => "  - " ++ warning)
  | first {shown left : List String} (hshown : shown.length = 5) (hleft : left ≠ []) :
    Shows (shown ++ left) (countLine (shown ++ left) ::
      (shown.map fun warning => "  - " ++ warning) ++
        ["  ... and " ++ toString left.length ++ " more"])

/-- No warning is lost without being counted. -/
theorem shows_warningLines (warnings : List String) : Shows warnings (warningLines warnings) := by
  cases hwarnings : warnings with
  | nil => exact .nothing
  | cons first more =>
      rw [← hwarnings]
      have hne : warnings ≠ [] := by
        rw [hwarnings]
        exact List.cons_ne_nil first more
      rw [warningLines, if_neg (by rwa [List.isEmpty_iff])]
      by_cases hmany : shownWarnings < warnings.length
      · have hshows := @Shows.first (warnings.take shownWarnings) (warnings.drop shownWarnings)
          (List.length_take_of_le (Nat.le_of_lt hmany))
          (List.drop_eq_nil_iff.not.mpr (Nat.not_le_of_lt hmany))
        rw [List.take_append_drop, List.length_drop] at hshows
        rw [if_pos hmany]
        exact hshows
      · rw [if_neg hmany, List.append_nil, List.take_of_length_le (Nat.le_of_not_lt hmany)]
        exact .all hne (Nat.le_of_not_lt hmany)

theorem namedBy_failures (levels : List LevelReport) :
    List.Forall₂ LevelReport.NamedBy (levels.filter fun level => !level.isSuccess)
      ((levels.filter fun level => !level.isSuccess).map LevelReport.summaryLine) := by
  rw [List.forall₂_map_right_iff, List.forall₂_same]
  intro level hlevel
  have hfailed : (!level.isSuccess) = true := (List.mem_filter.mp hlevel).2
  rw [Bool.not_eq_true'] at hfailed
  exact LevelReport.namedBy_summaryLine hfailed

end Summary

/-- A report accounts for the results that were added to it. -/
structure Accounts (report : BuildReport) (added : List LevelReport) : Prop where
  counts : report.successCount + report.failedCount = added.length
  failures_eq : report.failures = added.filter fun level => !level.isSuccess
  /-- It is a success just if nothing failed. -/
  isSuccess_iff : report.isSuccess = true ↔ report.failures = []
  noIndex_iff : report.index? = none ↔ report.successCount = 0
  /-- Its index has the levels of the successful results, and the order their identifiers. -/
  index : ∀ order index, report.index? = some (order, index) →
    order = (added.filter LevelReport.isSuccess).map LevelReport.id ∧
    List.Forall₂ (fun level found => level.outcome = .compiled found)
      (added.filter LevelReport.isSuccess) index.levels ∧
    index.size = order.length
  /-- Its summary has an entry for each failed file and shows the warnings, each behind the
      identifier of its file. -/
  summary : ∃ entries lines : List String,
    report.summary = "\n".intercalate (report.headline :: entries ++ lines) ∧
    List.Forall₂ LevelReport.NamedBy (added.filter fun level => !level.isSuccess) entries ∧
    Shows (added.flatMap fun level => level.warnings.map fun warning => level.id ++ ": " ++ warning)
      lines

/-- A report accounts for its results. -/
theorem accounts (report : BuildReport) : report.Accounts report.levels where
  counts := report.successCount_add_failedCount
  failures_eq := rfl
  isSuccess_iff := report.isSuccess_iff_failures
  noIndex_iff := report.index?_eq_none_iff
  index := by
    intro order index h
    rcases index?_eq_some h with ⟨horder, hlevels⟩
    refine ⟨?_, ?_, ?_⟩
    · rw [horder, compiledLevels_fst]
    · rw [hlevels, List.forall₂_map_right_iff]
      exact report.compiledLevels_spec.imp fun _ _ hfound => hfound.2
    · rw [LevelIndex.size, hlevels, horder, List.length_map, List.length_map]
  summary :=
    ⟨_, _, rfl, namedBy_failures report.levels, shows_warningLines report.allWarnings⟩

/-- When results are added one by one to a report without any, then after each of them the
    report accounts for those that were added so far. -/
theorem accounts_addAll (outputs : List Path) (duration : Duration) (results : List LevelReport)
    (n : Nat) :
    (({ outputs, duration } : BuildReport).addAll (results.take n)).Accounts (results.take n) := by
  have h := accounts (({ outputs, duration } : BuildReport).addAll (results.take n))
  rw [levels_addAll, List.nil_append] at h
  exact h

end BuildReport

end PuzzleLevel
