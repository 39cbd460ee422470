import BuildConductor.Lifecycle.Plans

/-!
# The fixpoint of step states

One pass over the plan gives every waiting step the state its dependencies call for: blocked when a
chain of waiting dependencies ends at a failure, ready when every dependency is done, planned
otherwise. The timeline names the steps a pass blocked. `src/src/engine/scheduler.ts:26-82`,
`src/src/engine/events.ts:115-147`.
-/

namespace BuildConductor.Lifecycle

open Base Domain Engine

/-! ## What a state should be -/

/-- A chain of dependencies through waiting steps that ends at a failed, blocked or cancelled one. -/
inductive ReachesFailure (steps : OrderedRecord String WorkflowStepRecord) : StepDefinition → Prop
  | failed {definition : StepDefinition} {d : String} {dependency : WorkflowStepRecord}
      (hd : d ∈ definition.dependencies) (hget : steps.get? d = some dependency)
      (hfailed : dependency.state.isTerminalFailure = true) : ReachesFailure steps definition
  | waiting {definition : StepDefinition} {d : String} {dependency : WorkflowStepRecord}
      (hd : d ∈ definition.dependencies) (hget : steps.get? d = some dependency)
      (hwaiting : dependency.state.isWaiting = true)
      (hreaches : ReachesFailure steps dependency.definition) : ReachesFailure steps definition

/-- Every dependency succeeded and, when it may mutate, is integrated. -/
def DependenciesDone (run : WorkflowRunState) (definition : StepDefinition) : Prop :=
  ∀ d ∈ definition.dependencies, ∃ dependency, run.steps.get? d = some dependency ∧
    dependency.state = .succeeded ∧
    (stepRequiresIntegration run.capabilityProfiles dependency.definition = true →
      dependency.integratedCommit ≠ none)

/-- The state a run calls for at a step. -/
structure CalledFor (run : WorkflowRunState) (record : WorkflowStepRecord) (state : StepRunState) :
    Prop where
  kept : record.state.isWaiting = false → state = record.state
  blocked_iff : record.state.isWaiting = true →
    (state = .blocked ↔ ReachesFailure run.steps record.definition)
  ready_iff : record.state.isWaiting = true →
    (state = .ready ↔
      ¬ ReachesFailure run.steps record.definition ∧ DependenciesDone run record.definition)
  planned_iff : record.state.isWaiting = true →
    (state = .planned ↔
      ¬ ReachesFailure run.steps record.definition ∧ ¬ DependenciesDone run record.definition)

/-- A step that is blocked now and was not before. -/
def BecameBlocked (previous next : WorkflowRunState) (stepId : String) : Prop :=
  (next.steps.get? stepId).map (·.state) = some .blocked ∧
    (previous.steps.get? stepId).map (·.state) ≠ some .blocked

/-- Timeline entries that name each step that became blocked once, with the dependencies that
failed, are blocked or were cancelled. -/
structure NamesBlocked (previous next : WorkflowRunState) (bodies : List WorkflowEventBody)
    (entries : List (String × List String)) : Prop where
  bodies_eq : bodies = entries.map fun entry => .stepBlocked entry.1 entry.2
  nodup : (entries.map Prod.fst).Nodup
  steps : ∀ stepId, stepId ∈ entries.map Prod.fst ↔ BecameBlocked previous next stepId
  dependencies : ∀ stepId blockedBy, (stepId, blockedBy) ∈ entries →
    ∀ record, next.steps.get? stepId = some record →
      blockedBy.Nodup ∧ ∀ d, d ∈ blockedBy ↔ d ∈ record.definition.dependencies ∧
        ∃ dependency, next.steps.get? d = some dependency ∧
          dependency.state.isTerminalFailure = true

/-! ## One pass -/

variable {run : WorkflowRunState}

private theorem readiness_blocked_iff {profiles : RunCapabilityProfiles}
    {definition : StepDefinition} {steps : OrderedRecord String WorkflowStepRecord}
    (hrecorded : ∀ d ∈ definition.dependencies, ∃ dependency, steps.get? d = some dependency) :
    readiness profiles definition steps = .blocked ↔ ∃ d ∈ definition.dependencies,
      ∃ dependency, steps.get? d = some dependency ∧
        dependency.state.isTerminalFailure = true := by
  unfold readiness
  split
  · next hyes =>
    rw [List.any_eq_true] at hyes
    obtain ⟨d, hd, hfails⟩ := hyes
    obtain ⟨dependency, hget⟩ := hrecorded d hd
    rw [hget] at hfails
    exact iff_of_true rfl ⟨d, hd, dependency, hget, hfails⟩
  · next hno =>
    have hnone : ¬∃ d ∈ definition.dependencies, ∃ dependency, steps.get? d = some dependency ∧
        dependency.state.isTerminalFailure = true := by
      rintro ⟨d, hd, dependency, hget, hfails⟩
      apply hno
      rw [List.any_eq_true]
      refine ⟨d, hd, ?_⟩
      rw [hget]
      exact hfails
    split <;> exact iff_of_false (by simp) hnone

private theorem reachesFailure_iff {steps : OrderedRecord String WorkflowStepRecord}
    {definition : StepDefinition} :
    ReachesFailure steps definition ↔ ∃ d ∈ definition.dependencies,
      ∃ dependency, steps.get? d = some dependency ∧
        (dependency.state.isTerminalFailure = true ∨
          dependency.state.isWaiting = true ∧ ReachesFailure steps dependency.definition) := by
  constructor
  · intro h
    cases h with
    | failed hd hget hfailed => exact ⟨_, hd, _, hget, Or.inl hfailed⟩
    | waiting hd hget hwaiting hreaches => exact ⟨_, hd, _, hget, Or.inr ⟨hwaiting, hreaches⟩⟩
  · rintro ⟨d, hd, dependency, hget, hfailed | ⟨hwaiting, hreaches⟩⟩
    · exact .failed hd hget hfailed
    · exact .waiting hd hget hwaiting hreaches

private theorem isTerminalFailure_of_waiting {state : StepRunState} (h : state.isWaiting = true) :
    state.isTerminalFailure = false := by
  cases state <;> simp_all [StepRunState.isWaiting, StepRunState.isTerminalFailure]

namespace PlanKept

/-- The dependencies of a step are still recorded after a pass. -/
private theorem dependency_reconciled (h : PlanKept run) {stepId : String}
    {record : WorkflowStepRecord} (hrecord : run.steps.get? stepId = some record) :
    ∀ d ∈ record.definition.dependencies, ∃ dependency,
      (reconcileWorkflowSteps run).steps.get? d = some dependency := by
  intro d hd
  obtain ⟨before, hbefore⟩ := h.dependency_recorded hrecord hd
  obtain ⟨state, hstate⟩ := (sameButStates_iff.mp (reconcile_sameButStates run)).2 d before hbefore
  exact ⟨_, hstate⟩

/-- A pass blocks a waiting step just when a chain of waiting dependencies ends at a failure. -/
theorem reconcile_blocked_iff (h : PlanKept run) {stepId : String} {record : WorkflowStepRecord}
    (hrecord : run.steps.get? stepId = some record) :
    readiness run.capabilityProfiles record.definition (reconcileWorkflowSteps run).steps =
        .blocked ↔ ReachesFailure run.steps record.definition := by
  apply @PlanKept.induction run h (fun _ record =>
    readiness run.capabilityProfiles record.definition (reconcileWorkflowSteps run).steps =
      .blocked ↔ ReachesFailure run.steps record.definition) _ stepId record hrecord
  intro pre stepId post record horder hrecord ih
  rw [readiness_blocked_iff (h.dependency_reconciled hrecord), reachesFailure_iff]
  apply exists_congr
  intro d
  apply and_congr_right
  intro hd
  obtain ⟨before, hbefore⟩ := h.dependency_recorded hrecord hd
  have hearlier := ih d (h.dependencies_before hrecord horder d hd) before hbefore
  by_cases hwaiting : before.state.isWaiting = true
  · have hafter := h.reconcile_waiting_eq hbefore hwaiting
    have hkind : (readiness run.capabilityProfiles before.definition
          (reconcileWorkflowSteps run).steps).isTerminalFailure = true ↔
        ReachesFailure run.steps before.definition := by
      rw [← hearlier]
      rcases readiness_cases run.capabilityProfiles before.definition
          (reconcileWorkflowSteps run).steps with hstate | hstate | hstate <;>
        rw [hstate] <;> simp [StepRunState.isTerminalFailure]
    rw [hafter, hbefore]
    simp [hkind, hwaiting, isTerminalFailure_of_waiting hwaiting]
  · have hafter := reconcile_keeps hbefore (Bool.eq_false_iff.mpr hwaiting)
    rw [hafter, hbefore]
    simp [hwaiting]

/-- A succeeded step is the same before and after a pass. -/
private theorem succeeded_iff {d : String} {dependency : WorkflowStepRecord}
    (hstate : dependency.state = .succeeded) :
    (reconcileWorkflowSteps run).steps.get? d = some dependency ↔
      run.steps.get? d = some dependency := by
  constructor
  · intro hafter
    obtain ⟨before, hbefore, heq, hcases⟩ := reconcile_record hafter
    have hsame : dependency.state = before.state := by
      rcases hcases with hsame | ⟨-, hthree⟩
      · exact hsame
      · rw [hstate] at hthree
        simp at hthree
    rw [hbefore, heq, hsame]
  · intro hbefore
    apply reconcile_keeps hbefore
    rw [hstate]
    rfl

/-- A pass finds a waiting step ready just when its dependencies are done. -/
theorem reconcile_ready_iff {definition : StepDefinition} :
    readiness run.capabilityProfiles definition (reconcileWorkflowSteps run).steps = .ready ↔
      DependenciesDone run definition := by
  rw [readiness_ready_iff]
  unfold DependenciesDone stepSatisfiesDependents
  apply forall₂_congr
  intro d _
  apply exists_congr
  intro dependency
  rw [Bool.and_eq_true, decide_eq_true_eq, Bool.or_eq_true, Bool.not_eq_true',
    Option.isSome_iff_ne_none]
  constructor
  · rintro ⟨hafter, hstate, hintegrated⟩
    refine ⟨(succeeded_iff hstate).mp hafter, hstate, ?_⟩
    intro hrequires
    rw [hrequires] at hintegrated
    simpa using hintegrated
  · rintro ⟨hbefore, hstate, hintegrated⟩
    refine ⟨(succeeded_iff hstate).mpr hbefore, hstate, ?_⟩
    cases hrequires : stepRequiresIntegration run.capabilityProfiles dependency.definition with
    | false => exact Or.inl rfl
    | true => exact Or.inr (hintegrated hrequires)

/-- A pass gives every step the state the run calls for. -/
theorem reconcile_calledFor (h : PlanKept run) {stepId : String} {record : WorkflowStepRecord}
    (hrecord : run.steps.get? stepId = some record) :
    ∃ state, (reconcileWorkflowSteps run).steps.get? stepId = some { record with state } ∧
      CalledFor run record state := by
  by_cases hwaiting : record.state.isWaiting = true
  · refine ⟨_, h.reconcile_waiting_eq hrecord hwaiting, ?_⟩
    have hblocked := h.reconcile_blocked_iff hrecord
    have hready := @reconcile_ready_iff run record.definition
    have hcases := readiness_cases run.capabilityProfiles record.definition
      (reconcileWorkflowSteps run).steps
    generalize readiness run.capabilityProfiles record.definition
      (reconcileWorkflowSteps run).steps = state at hblocked hready hcases ⊢
    constructor
    · intro hnot
      rw [hnot] at hwaiting
      cases hwaiting
    · exact fun _ => hblocked
    · intro _
      rw [← hblocked, ← hready]
      constructor
      · rintro rfl
        exact ⟨by simp, rfl⟩
      · exact And.right
    · intro _
      rw [← hblocked, ← hready]
      rcases hcases with rfl | rfl | rfl <;> simp
  · have hfalse : record.state.isWaiting = false := Bool.eq_false_iff.mpr hwaiting
    refine ⟨record.state, reconcile_keeps hrecord hfalse, ?_⟩
    exact ⟨fun _ => rfl, fun hyes => absurd hyes hwaiting, fun hyes => absurd hyes hwaiting,
      fun hyes => absurd hyes hwaiting⟩

/-- A second pass changes nothing. -/
theorem reconcile_reconcile (h : PlanKept run) :
    reconcileWorkflowSteps (reconcileWorkflowSteps run) = reconcileWorkflowSteps run := by
  apply reconcile_of_isReconciled
  intro stepId record hrecord hwaiting
  obtain ⟨before, hbefore, -, hcases⟩ := reconcile_record hrecord
  have hbeforeWaiting : before.state.isWaiting = true := by
    rcases hcases with hsame | ⟨hyes, -⟩
    · rw [← hsame]
      exact hwaiting
    · exact hyes
  have hafter := h.reconcile_waiting_eq hbefore hbeforeWaiting
  rw [hrecord, Option.some.injEq] at hafter
  rw [hafter]
  rfl

end PlanKept

/-! ## The timeline of a pass -/

/-- The steps that became blocked, with what blocks each. -/
private def blockedEntries (previous next : WorkflowRunState) : List (String × List String) :=
  (next.steps.entries.filter fun entry => entry.2.state = .blocked ∧
    (previous.steps.get? entry.1).map (·.state) ≠ some .blocked).map fun entry =>
      (entry.1, entry.2.definition.dependencies.filter fun d =>
        match next.steps.get? d with
        | none => true
        | some dependency => dependency.state.isTerminalFailure)

private theorem blockedStepEvents_eq (previous next : WorkflowRunState) :
    blockedStepEvents previous next =
      (blockedEntries previous next).map fun entry => .stepBlocked entry.1 entry.2 := by
  unfold blockedStepEvents blockedEntries
  generalize next.steps.entries = entries
  induction entries with
  | nil => rfl
  | cons entry rest ih =>
    obtain ⟨stepId, record⟩ := entry
    rw [List.flatMap_cons, ih, List.filter_cons]
    dsimp only
    by_cases hold : record.state ≠ .blocked ∨
        (previous.steps.get? stepId).map (fun before => before.state) = some .blocked
    · have hnew : decide (record.state = .blocked ∧
          (previous.steps.get? stepId).map (·.state) ≠ some .blocked) = false := by
        rw [decide_eq_false_iff_not, not_and_or, not_not]
        exact hold
      rw [if_pos hold, hnew]
      rfl
    · have hnew : decide (record.state = .blocked ∧
          (previous.steps.get? stepId).map (·.state) ≠ some .blocked) = true := by
        rw [not_or, not_not] at hold
        exact decide_eq_true hold
      rw [if_neg hold, hnew]
      rfl

/-- The timeline names the steps that became blocked, when the dependencies of steps are
recorded. -/
theorem blockedStepEvents_names {previous next : WorkflowRunState}
    (hrecorded : ∀ stepId record, next.steps.get? stepId = some record →
      record.definition.dependencies.Nodup ∧ ∀ d ∈ record.definition.dependencies,
        ∃ dependency, next.steps.get? d = some dependency) :
    ∃ entries, NamesBlocked previous next (blockedStepEvents previous next) entries := by
  refine ⟨blockedEntries previous next, blockedStepEvents_eq previous next, ?_, ?_, ?_⟩
  · unfold blockedEntries
    rw [List.map_map]
    exact (List.filter_sublist.map Prod.fst).nodup next.steps.nodup
  · intro stepId
    unfold blockedEntries BecameBlocked
    rw [List.map_map, List.mem_map]
    constructor
    · rintro ⟨⟨id, record⟩, hentry, rfl⟩
      obtain ⟨hentry, hnew⟩ := List.mem_filter.mp hentry
      rw [OrderedRecord.mem_entries_iff] at hentry
      rw [decide_eq_true_eq] at hnew
      refine ⟨?_, hnew.2⟩
      show (next.steps.get? id).map _ = _
      rw [hentry, Option.map_some, hnew.1]
    · rintro ⟨hblocked, hnew⟩
      obtain ⟨record, hrecord, hstate⟩ := Option.map_eq_some_iff.mp hblocked
      refine ⟨(stepId, record), List.mem_filter.mpr ⟨?_, by simpa using ⟨hstate, by simpa using hnew⟩⟩, rfl⟩
      rw [OrderedRecord.mem_entries_iff]
      exact hrecord
  · intro stepId blockedBy hentry record hrecord
    unfold blockedEntries at hentry
    obtain ⟨⟨id, found⟩, hfound, heq⟩ := List.mem_map.mp hentry
    obtain ⟨rfl, rfl⟩ := Prod.mk.inj heq
    rw [List.mem_filter, OrderedRecord.mem_entries_iff] at hfound
    dsimp only at hfound
    rw [hrecord, Option.some.injEq] at hfound
    rw [← hfound.1]
    obtain ⟨hnodup, hdependencies⟩ := hrecorded id record hrecord
    refine ⟨hnodup.filter _, ?_⟩
    intro d
    rw [List.mem_filter]
    apply and_congr_right
    intro hd
    obtain ⟨dependency, hget⟩ := hdependencies d hd
    simp [hget]

/-- One pass computes the states a run calls for: a second pass changes nothing, a step that does
not wait is kept, a waiting one is blocked just when a chain of waiting dependencies ends at a
failure, and the timeline names just the steps that became blocked. -/
theorem reconcileWorkflowSteps_fixpoint (h : PlanKept run) (previous : WorkflowRunState) :
    reconcileWorkflowSteps (reconcileWorkflowSteps run) = reconcileWorkflowSteps run ∧
      (reconcileWorkflowSteps run).steps.keys = run.steps.keys ∧
      (∀ stepId record, run.steps.get? stepId = some record → ∃ state,
        (reconcileWorkflowSteps run).steps.get? stepId = some { record with state } ∧
          CalledFor run record state) ∧
      ∃ entries, NamesBlocked previous (reconcileWorkflowSteps run)
        (blockedStepEvents previous (reconcileWorkflowSteps run)) entries := by
  refine ⟨h.reconcile_reconcile, (sameButStates_iff.mp (reconcile_sameButStates run)).1,
    fun stepId record => h.reconcile_calledFor, ?_⟩
  apply blockedStepEvents_names
  intro stepId record hrecord
  obtain ⟨before, hbefore, heq, -⟩ := reconcile_record hrecord
  have hdefinition : record.definition = before.definition := by rw [heq]
  rw [hdefinition]
  constructor
  · have hplanned := (h.planned stepId before hbefore).1
    exact h.steps.graph.nodup_dependencies before.definition.node
      (List.mem_map_of_mem hplanned)
  · exact h.dependency_reconciled hbefore

/-- The created run after its first step failed. -/
def failedEditRun : WorkflowRunState :=
  { createdRun with
    steps := withStates (fun stepId => if stepId = "edit" then .failed else .planned)
      createdRun.steps }

theorem reconcileWorkflowSteps_fixpoint_failedEditRun :
    reconcileWorkflowSteps (reconcileWorkflowSteps failedEditRun) =
        reconcileWorkflowSteps failedEditRun ∧
      (reconcileWorkflowSteps failedEditRun).steps.keys = failedEditRun.steps.keys ∧
      (∀ stepId record, failedEditRun.steps.get? stepId = some record → ∃ state,
        (reconcileWorkflowSteps failedEditRun).steps.get? stepId = some { record with state } ∧
          CalledFor failedEditRun record state) ∧
      ∃ entries, NamesBlocked createdRun (reconcileWorkflowSteps failedEditRun)
        (blockedStepEvents createdRun (reconcileWorkflowSteps failedEditRun)) entries := by
  have hvalid : validateWorkflowPlan createdRun.plan.toJson = .ok createdRun.plan := by
    decide +kernel
  have hcreated : PlanKept createdRun :=
    @PlanKept.of_create createdRun (smallInput [editStep, checkStep] 2) rfl
      (validateWorkflowPlan_wellFormed hvalid)
  apply reconcileWorkflowSteps_fixpoint
  exact hcreated.of_sameDefinitions rfl (sameDefinitions_of_states
    ⟨fun stepId => if stepId = "edit" then .failed else .planned, rfl⟩)

end BuildConductor.Lifecycle
