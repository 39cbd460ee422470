import BuildConductor.Base.GreedySelection
import BuildConductor.Engine.Reconciliation

/-!
# What the scheduler launches

`launchableStepIds` is one greedy pass over the plan order: it takes the ready steps without
an active attempt that hold no lock in conflict with a running or selected step and find a
worker slot. `src/src/engine/scheduler.ts:84-186`.
-/

namespace BuildConductor.Engine

open Base Domain

/-- Two steps may not run together: their path locks overlap or they share a resource lock. -/
def stepsConflict (left right : StepDefinition) : Bool :=
  (stepPathLocks left).any (fun lock => (stepPathLocks right).any (pathLocksConflict lock)) ||
    (stepResourceLocks left).any (· ∈ stepResourceLocks right)

theorem pathLocksConflict_comm (left right : String) :
    pathLocksConflict left right = pathLocksConflict right left := by
  unfold pathLocksConflict
  rw [Bool.or_assoc, Bool.or_assoc, Bool.or_comm (pathLockCovers left right)]
  congr 1
  exact decide_eq_decide.mpr eq_comm

/-- Conflicts go both ways. -/
theorem stepsConflict_comm (left right : StepDefinition) :
    stepsConflict left right = stepsConflict right left := by
  unfold stepsConflict
  congr 1
  · rw [Bool.eq_iff_iff]
    simp only [List.any_eq_true]
    constructor
    · rintro ⟨l, hl, r, hr, h⟩
      exact ⟨r, hr, l, hl, by rw [pathLocksConflict_comm]; exact h⟩
    · rintro ⟨r, hr, l, hl, h⟩
      exact ⟨l, hl, r, hr, by rw [pathLocksConflict_comm]; exact h⟩
  · rw [Bool.eq_iff_iff]
    simp only [List.any_eq_true, decide_eq_true_eq]
    constructor
    · rintro ⟨l, hl, h⟩
      exact ⟨l, h, hl⟩
    · rintro ⟨r, hr, h⟩
      exact ⟨r, h, hr⟩

/-- Steps that do not conflict hold compatible path locks and disjoint resource locks. -/
theorem stepsConflict_eq_false_iff {left right : StepDefinition} :
    stepsConflict left right = false ↔
      (∀ l ∈ stepPathLocks left, ∀ r ∈ stepPathLocks right, pathLocksConflict l r = false) ∧
        ∀ l ∈ stepResourceLocks left, l ∉ stepResourceLocks right := by
  simp [stepsConflict]

/-- The locks held are those of some steps. -/
def HeldBy (held : HeldLocks) (holders : List StepDefinition) : Prop :=
  held.paths = holders.flatMap stepPathLocks ∧ held.resources = holders.flatMap stepResourceLocks

/-- A step conflicts with the held locks exactly when it conflicts with a holder. -/
theorem conflictsWithHeldLocks_eq {step : StepDefinition} {held : HeldLocks}
    {holders : List StepDefinition} (h : HeldBy held holders) :
    conflictsWithHeldLocks step held = holders.any (stepsConflict step) := by
  unfold conflictsWithHeldLocks
  rw [h.1, h.2, Bool.eq_iff_iff]
  simp only [stepsConflict, Bool.or_eq_true, List.any_eq_true, List.mem_flatMap, decide_eq_true_eq]
  constructor
  · rintro (⟨lock, hlock, path, ⟨holder, hholder, hpath⟩, hconflict⟩ | ⟨lock, hlock, holder, hholder, hheld⟩)
    · exact ⟨holder, hholder, Or.inl ⟨lock, hlock, path, hpath, hconflict⟩⟩
    · exact ⟨holder, hholder, Or.inr ⟨lock, hlock, hheld⟩⟩
  · rintro ⟨holder, hholder, ⟨lock, hlock, path, hpath, hconflict⟩ | ⟨lock, hlock, hheld⟩⟩
    · exact Or.inl ⟨lock, hlock, path, ⟨holder, hholder, hpath⟩, hconflict⟩
    · exact Or.inr ⟨lock, hlock, holder, hholder, hheld⟩

theorem heldBy_holdLocks {held : HeldLocks} {holders : List StepDefinition} (h : HeldBy held holders)
    (step : StepDefinition) : HeldBy (holdLocks held step) (holders ++ [step]) := by
  constructor
  · rw [holdLocks, h.1, List.flatMap_append, List.flatMap_singleton]
  · rw [holdLocks, h.2, List.flatMap_append, List.flatMap_singleton]

/-! ## The pass over the plan -/

/-- The steps of attempts still active. -/
def activeStepIds (state : WorkflowRunState) : List String := (activeAttempts state).map (·.stepId)

/-- The steps marked running. -/
def runningStepIds (state : WorkflowRunState) : List String :=
  (state.steps.entries.filter fun entry => entry.2.state = .running).map Prod.fst

/-- A ready step that no active attempt claims. -/
def isStartable (state : WorkflowRunState) (stepId : String) : Bool :=
  match state.steps.get? stepId with
  | none => false
  | some record => record.state = .ready && decide (stepId ∉ activeStepIds state)

/-- Whether two recorded steps conflict. -/
def idsConflict (state : WorkflowRunState) (left right : String) : Bool :=
  match state.steps.get? left, state.steps.get? right with
  | some l, some r => stepsConflict l.definition r.definition
  | _, _ => false

/-- The rules the scheduler selects by. -/
def launchRules (state : WorkflowRunState) : SelectionRules String where
  eligible := isStartable state
  conflict := idsConflict state
  costs := consumesSlot state
  held := runningStepIds state
  capacity := state.maxConcurrentWorkers - occupiedSlots state

/-- The definitions of some recorded steps. -/
def definitionsOf (state : WorkflowRunState) (stepIds : List String) : List StepDefinition :=
  stepIds.filterMap fun stepId => (state.steps.get? stepId).map (·.definition)

/-- The loop variables say what the pass has taken. -/
structure Tracks (state : WorkflowRunState) (taken : List String) (selection : Selection) : Prop where
  launchable : selection.launchable = taken
  held : HeldBy selection.held (definitionsOf state (runningStepIds state ++ taken))
  availableSlots : selection.availableSlots =
    (launchRules state).capacity - (launchRules state).spent taken

private theorem any_definitionsOf {state : WorkflowRunState} {stepId : String}
    {record : WorkflowStepRecord} (hrecord : state.steps.get? stepId = some record)
    (stepIds : List String) :
    (definitionsOf state stepIds).any (stepsConflict record.definition) =
      stepIds.any (idsConflict state stepId) := by
  rw [Bool.eq_iff_iff, List.any_eq_true, List.any_eq_true]
  unfold definitionsOf idsConflict
  rw [hrecord]
  constructor
  · rintro ⟨definition, hdefinition, hconflict⟩
    obtain ⟨id, hid, hsome⟩ := List.mem_filterMap.mp hdefinition
    obtain ⟨other, hother, rfl⟩ := Option.map_eq_some_iff.mp hsome
    exact ⟨id, hid, by rw [hother]; exact hconflict⟩
  · rintro ⟨id, hid, hconflict⟩
    cases hother : state.steps.get? id with
    | none =>
      rw [hother] at hconflict
      cases hconflict
    | some other =>
      rw [hother] at hconflict
      exact ⟨other.definition, List.mem_filterMap.mpr ⟨id, hid, by rw [hother]; rfl⟩, hconflict⟩

private theorem tracks_initial (state : WorkflowRunState) :
    Tracks state [] (initialSelection state) := by
  refine ⟨rfl, ?_, rfl⟩
  have hdefinitions : definitionsOf state (runningStepIds state) =
      (state.steps.values.filter fun record => record.state = .running).map (·.definition) := by
    unfold definitionsOf runningStepIds OrderedRecord.values
    rw [List.filterMap_map, List.filter_map, List.map_map]
    rw [← List.filterMap_eq_map]
    apply List.filterMap_congr
    intro entry hentry
    have hget := (state.steps.mem_entries_iff entry.1 entry.2).mp (List.mem_of_mem_filter hentry)
    simp only [Function.comp_apply, hget, Option.map_some]
  rw [List.append_nil, hdefinitions]
  constructor
  · rw [initialSelection, heldLocksOf, List.flatMap_map]
  · rw [initialSelection, heldLocksOf, List.flatMap_map]

private theorem tracks_selectStep {state : WorkflowRunState} {taken : List String}
    {selection : Selection} (h : Tracks state taken selection) (stepId : String) :
    Tracks state ((launchRules state).take taken stepId) (selectStep state selection stepId) := by
  have htake : (launchRules state).take taken stepId =
      if (launchRules state).admits taken stepId then taken ++ [stepId] else taken := rfl
  rw [htake]
  unfold selectStep
  cases hrecord : state.steps.get? stepId with
  | none =>
    rw [if_neg]
    · exact h
    · rw [SelectionRules.admits_iff]
      rintro ⟨heligible, -, -⟩
      simp only [launchRules, isStartable, hrecord] at heligible
      cases heligible
  | some record =>
    have hconflicts := @conflictsWithHeldLocks_eq record.definition _ _ h.held
    rw [any_definitionsOf hrecord] at hconflicts
    by_cases hstart : isStartable state stepId = true
    · have hready : ¬ (record.state ≠ .ready ∨ stepId ∈ (activeAttempts state).map (·.stepId)) := by
        simp only [isStartable, hrecord, Bool.and_eq_true, activeStepIds] at hstart
        rw [not_or]
        exact ⟨fun hne => hne (of_decide_eq_true hstart.1), of_decide_eq_true hstart.2⟩
      dsimp only
      rw [if_neg hready]
      by_cases hconflict : conflictsWithHeldLocks record.definition selection.held = true
      · rw [if_pos hconflict, if_neg]
        · exact h
        · rw [SelectionRules.admits_iff]
          rintro ⟨-, hcompatible, -⟩
          rw [hconflicts, List.any_eq_true] at hconflict
          obtain ⟨other, hother, hyes⟩ := hconflict
          have hno := hcompatible other hother
          simp only [launchRules] at hno
          rw [hyes] at hno
          cases hno
      · rw [if_neg hconflict]
        have havailable := h.availableSlots
        by_cases hslot : consumesSlot state stepId = true ∧ selection.availableSlots = 0
        · rw [if_pos hslot, if_neg]
          · exact h
          · rw [SelectionRules.admits_iff]
            rintro ⟨-, -, hcost⟩
            have hlt := hcost hslot.1
            omega
        · rw [if_neg hslot, if_pos]
          · refine ⟨by rw [h.launchable], ?_, ?_⟩
            · rw [← List.append_assoc, definitionsOf, List.filterMap_append]
              have hsingle : ([stepId].filterMap fun id => (state.steps.get? id).map (·.definition)) =
                  [record.definition] := by
                simp [hrecord]
              rw [hsingle]
              exact heldBy_holdLocks h.held record.definition
            · dsimp only
              rw [SelectionRules.spent, List.filter_append, List.length_append, havailable,
                SelectionRules.spent]
              by_cases hcosts : consumesSlot state stepId = true
              · rw [if_pos hcosts]
                have hone : ([stepId].filter (launchRules state).costs).length = 1 := by
                  simp [launchRules, hcosts]
                omega
              · rw [if_neg hcosts]
                have hzero : ([stepId].filter (launchRules state).costs).length = 0 := by
                  simp [launchRules, hcosts]
                omega
          · rw [SelectionRules.admits_iff]
            refine ⟨hstart, ?_, ?_⟩
            · intro other hother
              rw [hconflicts, List.any_eq_true] at hconflict
              rw [Bool.eq_false_iff]
              intro hyes
              exact hconflict ⟨other, hother, hyes⟩
            · intro hcosts
              have hne : selection.availableSlots ≠ 0 := fun hzero => hslot ⟨hcosts, hzero⟩
              omega
    · have hnot : record.state ≠ .ready ∨ stepId ∈ (activeAttempts state).map (·.stepId) := by
        by_contra hnone
        rw [not_or, Decidable.not_not] at hnone
        apply hstart
        simp only [isStartable, hrecord, Bool.and_eq_true, activeStepIds]
        exact ⟨decide_eq_true hnone.1, decide_eq_true hnone.2⟩
      dsimp only
      rw [if_pos hnot, if_neg]
      · exact h
      · rw [SelectionRules.admits_iff]
        exact fun hadmits => hstart hadmits.1

/-- The steps launched are one greedy pass over the plan order. -/
theorem launchableStepIds_eq_greedy {state : WorkflowRunState} (hrunning : state.state = .running) :
    launchableStepIds state =
      (launchRules (reconcileWorkflowSteps state)).greedy (topologicalStepIds state.plan) := by
  have hfold : ∀ (run : WorkflowRunState) (ids taken : List String) (selection : Selection),
      Tracks run taken selection →
      Tracks run (ids.foldl (launchRules run).take taken) (ids.foldl (selectStep run) selection) := by
    intro run ids
    induction ids with
    | nil => exact fun _ _ h => h
    | cons id rest ih => exact fun _ _ h => ih _ _ (tracks_selectStep h id)
  unfold launchableStepIds
  rw [if_neg (by rw [hrunning]; simp)]
  exact (hfold _ _ _ _ (tracks_initial (reconcileWorkflowSteps state))).launchable

/-- Nothing is launched unless the run is running. -/
theorem launchableStepIds_of_not_running {state : WorkflowRunState} (h : state.state ≠ .running) :
    launchableStepIds state = [] := by
  unfold launchableStepIds
  rw [if_pos h]

end BuildConductor.Engine
