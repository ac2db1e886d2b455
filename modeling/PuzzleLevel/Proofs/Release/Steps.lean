import PuzzleLevel.Proofs.Operation
import PuzzleLevel.Release

/-!
# Runs of Steps

A release is a list of steps that ends early when one of them is refused, so what
is known about its end is known about a front of the list. `runAll_error` splits a
run that was refused at the step that was, and `runAll_append_cases` splits one
that went through two lists.

The changes that are made are a front of the list, too. A crash stops them even
earlier, at any point. `performed_prefix` says what it leaves: the store after a
front of the steps, none of them refused, because a step that is refused leaves
nothing behind. Making directories is the exception and is left out.

## Theorems

* `runAll_append_cases`, `runAll_error`: Where a run ends.
* `runAll_map_error`: Where a run of one step for each item ends.
* `applyAll_performed`: The changes that are made lead where the run leads.
* `performed_prefix`: The first few changes are those of a run that is not refused.
-/

namespace PuzzleLevel

/-- A change that is refused changes nothing, unless it makes directories. -/
theorem Operation.run_refused {store after : Store} {operation : Operation} {fault : FileFault}
    (hmake : ∀ directory, operation ≠ .ensureDirectory directory)
    (h : operation.run store = (after, some fault)) : after = store := by
  cases operation with
  | ensureDirectory directory => exact absurd rfl (hmake directory)
  | write p text =>
      rcases run_write store p text with ⟨other, hrun⟩ | ⟨_, _, hrun⟩
      · rw [hrun] at h
        exact (Prod.mk.inj h).1.symm
      · rw [hrun] at h
        exact absurd (Prod.mk.inj h).2 (by simp only [reduceCtorEq, not_false_eq_true])
  | move source target =>
      rcases run_move store source target with ⟨other, hrun⟩ | ⟨entry, _, _, _, _, hrun⟩
      · rw [hrun] at h
        exact (Prod.mk.inj h).1.symm
      · rw [hrun] at h
        exact absurd (Prod.mk.inj h).2 (by simp only [reduceCtorEq, not_false_eq_true])
  | remove p =>
      rcases run_remove store p with ⟨other, hrun⟩ | ⟨_, hrun⟩ | ⟨content, _, _, hrun⟩
      · rw [hrun] at h
        exact (Prod.mk.inj h).1.symm
      · rw [hrun] at h
        exact absurd (Prod.mk.inj h).2 (by simp only [reduceCtorEq, not_false_eq_true])
      · rw [hrun] at h
        exact absurd (Prod.mk.inj h).2 (by simp only [reduceCtorEq, not_false_eq_true])

namespace Step

theorem runAll_nil (store : Store) : runAll store [] = (store, none) := rfl

theorem runAll_cons_ok {store after : Store} {step : Step} (more : List Step)
    (h : step.operation.run store = (after, none)) :
    runAll store (step :: more) = runAll after more := by
  rw [runAll, h]

theorem runAll_cons_error {store after : Store} {step : Step} {fault : FileFault}
    (more : List Step) (h : step.operation.run store = (after, some fault)) :
    runAll store (step :: more) = (after, some ⟨step.blamed, fault⟩) := by
  rw [runAll, h]

/-- A run through two lists ends in the first one or goes on with the second. -/
theorem runAll_append_cases {store final : Store} {a b : List Step} {error : Option OutputError}
    (h : runAll store (a ++ b) = (final, error)) :
    (∃ stopped, error = some stopped ∧ runAll store a = (final, some stopped)) ∨
      ∃ mid, runAll store a = (mid, none) ∧ runAll mid b = (final, error) := by
  induction a generalizing store with
  | nil => exact Or.inr ⟨store, rfl, h⟩
  | cons step a ih =>
      rw [List.cons_append] at h
      rcases hrun : step.operation.run store with ⟨after, _ | fault⟩
      · rw [runAll_cons_ok _ hrun] at h ⊢
        exact ih h
      · rw [runAll_cons_error _ hrun, Prod.mk.injEq] at h
        rw [runAll_cons_error _ hrun, h.1]
        exact Or.inl ⟨_, h.2.symm, rfl⟩

theorem runAll_append_ok {store mid : Store} {a : List Step} (b : List Step)
    (h : runAll store a = (mid, none)) : runAll store (a ++ b) = runAll mid b := by
  induction a generalizing store with
  | nil => rw [(Prod.mk.inj h).1, List.nil_append]
  | cons step a ih =>
      rw [List.cons_append]
      rcases hrun : step.operation.run store with ⟨after, _ | fault⟩
      · rw [runAll_cons_ok _ hrun] at h ⊢
        exact ih h
      · rw [runAll_cons_error _ hrun] at h
        exact absurd (Prod.mk.inj h).2 (by simp only [reduceCtorEq, not_false_eq_true])

/-- A run that is refused is refused at one of its steps, after those before it. -/
theorem runAll_error {store final : Store} {steps : List Step} {error : OutputError}
    (h : runAll store steps = (final, some error)) :
    ∃ front step behind mid, steps = front ++ step :: behind ∧
      runAll store front = (mid, none) ∧
      step.operation.run mid = (final, some error.fault) ∧ error.path = step.blamed := by
  induction steps generalizing store with
  | nil => exact absurd (Prod.mk.inj h).2 (by simp only [reduceCtorEq, not_false_eq_true])
  | cons step more ih =>
      rcases hrun : step.operation.run store with ⟨after, _ | fault⟩
      · rw [runAll_cons_ok _ hrun] at h
        rcases ih h with ⟨front, stopped, behind, mid, hmore, hfront, hstopped, hpath⟩
        refine ⟨step :: front, stopped, behind, mid, by rw [hmore]; rfl, ?_, hstopped, hpath⟩
        rw [runAll_cons_ok _ hrun, hfront]
      · rw [runAll_cons_error _ hrun, Prod.mk.injEq, Option.some.injEq] at h
        refine ⟨[], step, more, store, rfl, rfl, ?_, ?_⟩
        · rw [hrun, h.1, ← h.2]
        · rw [← h.2]

/-- A run of one step for each item, none of which makes directories, is refused at
    an item and leaves what the run for those before it leaves. -/
theorem runAll_map_error {α : Type} {f : α → Step} {items : List α} {store final : Store}
    {error : OutputError} (hmake : ∀ a directory, (f a).operation ≠ .ensureDirectory directory)
    (h : runAll store (items.map f) = (final, some error)) :
    ∃ front item behind, items = front ++ item :: behind ∧ error.path = (f item).blamed ∧
      runAll store (front.map f) = (final, none) := by
  rcases runAll_error h with ⟨front, step, behind, mid, hsplit, hfront, hstep, hpath⟩
  rcases List.map_eq_append_iff.mp hsplit with ⟨first, more, hitems, hfirst, hmore⟩
  rcases List.map_eq_cons_iff.mp hmore with ⟨item, last, hlast, hitem, _⟩
  refine ⟨first, item, last, by rw [hitems, hlast], by rw [hpath, hitem], ?_⟩
  rw [← hitem] at hstep
  rw [hfirst, Operation.run_refused (hmake item) hstep]
  exact hfront

theorem mem_performed {store : Store} {steps : List Step} {operation : Operation}
    (h : operation ∈ performed store steps) : ∃ step ∈ steps, operation = step.operation := by
  induction steps generalizing store with
  | nil => exact absurd h List.not_mem_nil
  | cons step more ih =>
      rw [performed] at h
      rcases hrun : step.operation.run store with ⟨after, _ | fault⟩
      · rw [hrun] at h
        rcases List.mem_cons.mp h with rfl | h
        · exact ⟨step, List.mem_cons_self .., rfl⟩
        · rcases ih h with ⟨found, hfound, he⟩
          exact ⟨found, List.mem_cons_of_mem _ hfound, he⟩
      · rw [hrun] at h
        exact ⟨step, List.mem_cons_self .., List.mem_singleton.mp h⟩

/-- The changes that are made by steps lead where the steps lead. -/
theorem applyAll_performed (store : Store) (steps : List Step) :
    Operation.applyAll store (performed store steps) = (runAll store steps).1 := by
  induction steps generalizing store with
  | nil => rfl
  | cons step more ih =>
      rw [performed]
      rcases hrun : step.operation.run store with ⟨after, _ | fault⟩
      · rw [runAll_cons_ok _ hrun, ← ih after, Operation.applyAll, hrun]
      · rw [runAll_cons_error _ hrun, Operation.applyAll, hrun]
        rfl

/-- The first few changes are those of a front of the steps. -/
theorem performed_prefix_cases {store : Store} {steps : List Step} {operations : List Operation}
    (h : operations <+: performed store steps) :
    ∃ front, front <+: steps ∧
      (runAll store front).1 = Operation.applyAll store operations := by
  induction steps generalizing store operations with
  | nil =>
      rw [performed, List.prefix_nil] at h
      exact ⟨[], List.nil_prefix, by rw [h]; rfl⟩
  | cons step more ih =>
      rcases operations with _ | ⟨operation, operations⟩
      · exact ⟨[], List.nil_prefix, rfl⟩
      · rw [performed] at h
        rcases hrun : step.operation.run store with ⟨after, _ | fault⟩
        · simp only [hrun, List.cons_prefix_cons] at h
          rcases ih h.2 with ⟨front, hfront, hstore⟩
          refine ⟨step :: front, List.cons_prefix_cons.mpr ⟨rfl, hfront⟩, ?_⟩
          rw [runAll_cons_ok _ hrun, hstore, Operation.applyAll, h.1, hrun]
        · simp only [hrun, List.cons_prefix_cons, List.prefix_nil] at h
          refine ⟨[step], List.cons_prefix_cons.mpr ⟨rfl, List.nil_prefix⟩, ?_⟩
          rw [runAll_cons_error _ hrun, h.1, h.2, Operation.applyAll, hrun]
          rfl

/-- The first few changes of steps that make no directories are those of a run that
    is not refused. -/
theorem performed_prefix {store : Store} {steps : List Step} {operations : List Operation}
    (hmake : ∀ step ∈ steps, ∀ directory, step.operation ≠ .ensureDirectory directory)
    (h : operations <+: performed store steps) :
    ∃ front, front <+: steps ∧
      runAll store front = (Operation.applyAll store operations, none) := by
  rcases performed_prefix_cases h with ⟨front, hfront, hstore⟩
  rcases hrun : runAll store front with ⟨final, _ | error⟩
  · exact ⟨front, hfront, by rw [hrun] at hstore; rw [hrun, ← hstore]⟩
  · -- The refused step is dropped from the front.
    rcases runAll_error hrun with ⟨before, step, behind, mid, hsplit, hbefore, hstep, _⟩
    have hmem : step ∈ steps := hfront.subset (by
      rw [hsplit]
      exact List.mem_append_right _ (List.mem_cons_self ..))
    refine ⟨before, List.IsPrefix.trans ⟨step :: behind, hsplit.symm⟩ hfront, ?_⟩
    rw [hrun] at hstore
    rw [hbefore, ← hstore, Operation.run_refused (hmake step hmem) hstep]

end Step

end PuzzleLevel
