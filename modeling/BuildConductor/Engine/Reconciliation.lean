import BuildConductor.Domain.StepsNormal
import BuildConductor.Engine.Scheduler

/-!
# What a reconciliation changes

`reconcileWorkflowSteps` rewrites the states of waiting steps and nothing else, and what it
writes is a fixpoint: every waiting step ends in the state its dependencies give it.
Supports `src/src/engine/scheduler.ts:39-82`.
-/

namespace BuildConductor.Engine

open Base Domain

/-! ## Rewriting states -/

/-- Rewrite the states of the step records and nothing else. -/
def withStates (states : String → StepRunState) (steps : OrderedRecord String WorkflowStepRecord) :
    OrderedRecord String WorkflowStepRecord :=
  steps.mapValues fun stepId record => { record with state := states stepId }

/-- The same records up to their states. -/
def SameButStates (before after : OrderedRecord String WorkflowStepRecord) : Prop :=
  ∃ states, after = withStates states before

@[simp] theorem get?_withStates (states : String → StepRunState)
    (steps : OrderedRecord String WorkflowStepRecord) (stepId : String) :
    (withStates states steps).get? stepId =
      (steps.get? stepId).map fun record => { record with state := states stepId } := by
  simp [withStates]

@[simp] theorem keys_withStates (states : String → StepRunState)
    (steps : OrderedRecord String WorkflowStepRecord) :
    (withStates states steps).keys = steps.keys := by
  simp [withStates]

/-- Records that agree up to states have the same keys, and each pair differs in its state. -/
theorem sameButStates_iff {before after : OrderedRecord String WorkflowStepRecord} :
    SameButStates before after ↔ after.keys = before.keys ∧
      ∀ stepId record, before.get? stepId = some record →
        ∃ state, after.get? stepId = some { record with state } := by
  constructor
  · rintro ⟨states, rfl⟩
    refine ⟨keys_withStates .., ?_⟩
    intro stepId record hrecord
    exact ⟨states stepId, by rw [get?_withStates, hrecord]; rfl⟩
  · rintro ⟨hkeys, hrecords⟩
    refine ⟨fun stepId => ((after.get? stepId).map (·.state)).getD .planned, ?_⟩
    apply OrderedRecord.ext_get?
    · rw [hkeys, keys_withStates]
    · intro stepId
      rw [get?_withStates]
      cases hrecord : before.get? stepId with
      | none =>
        rw [Option.map_none, ← Option.not_isSome_iff_eq_none, ← OrderedRecord.mem_keys_iff, hkeys,
          OrderedRecord.mem_keys_iff, hrecord]
        simp
      | some record =>
        obtain ⟨state, hstate⟩ := hrecords stepId record hrecord
        simp [hstate]

theorem SameButStates.refl (steps : OrderedRecord String WorkflowStepRecord) :
    SameButStates steps steps := by
  rw [sameButStates_iff]
  exact ⟨rfl, fun _ record hrecord => ⟨record.state, hrecord⟩⟩

theorem SameButStates.trans {first second third : OrderedRecord String WorkflowStepRecord}
    (h : SameButStates first second) (h' : SameButStates second third) :
    SameButStates first third := by
  rw [sameButStates_iff] at *
  refine ⟨h'.1.trans h.1, ?_⟩
  intro stepId record hrecord
  obtain ⟨state, hstate⟩ := h.2 stepId record hrecord
  obtain ⟨final, hfinal⟩ := h'.2 stepId _ hstate
  exact ⟨final, hfinal⟩

/-- Rewritten states change every record by its state. -/
theorem SameButStates.pointwise {R : String → WorkflowStepRecord → WorkflowStepRecord → Prop}
    (hR : ∀ stepId record state, R stepId record { record with state })
    {before after : OrderedRecord String WorkflowStepRecord} (h : SameButStates before after) :
    OrderedRecord.Pointwise R before after := by
  obtain ⟨states, rfl⟩ := h
  exact OrderedRecord.pointwise_mapValues (fun stepId record => hR stepId record (states stepId)) _

/-! ## One step -/

/-- The state its dependencies give a waiting step. -/
def readiness (profiles : RunCapabilityProfiles) (definition : StepDefinition)
    (steps : OrderedRecord String WorkflowStepRecord) : StepRunState :=
  if definition.dependencies.any fun id =>
      match steps.get? id with
      | none => true
      | some dependency => dependency.state.isTerminalFailure then .blocked
  else if definition.dependencies.all fun id =>
      match steps.get? id with
      | none => false
      | some dependency => stepSatisfiesDependents profiles dependency then .ready
  else .planned

/-- A step that does not wait keeps its state. -/
theorem nextStepState_of_not_waiting {profiles : RunCapabilityProfiles}
    {record : WorkflowStepRecord} {steps : OrderedRecord String WorkflowStepRecord}
    (h : record.state.isWaiting = false) : nextStepState profiles record steps = record.state := by
  unfold nextStepState
  rw [if_pos]
  cases hstate : record.state <;> simp_all [StepRunState.isWaiting, StepRunState.isTerminal]

/-- A waiting step takes the state its dependencies give it. -/
theorem nextStepState_of_waiting {profiles : RunCapabilityProfiles}
    {record : WorkflowStepRecord} {steps : OrderedRecord String WorkflowStepRecord}
    (h : record.state.isWaiting = true) :
    nextStepState profiles record steps = readiness profiles record.definition steps := by
  unfold nextStepState
  rw [if_neg]
  · rfl
  · cases hstate : record.state <;> simp_all [StepRunState.isWaiting, StepRunState.isTerminal]

/-- Dependencies only ever make a step planned, ready or blocked. -/
theorem readiness_cases (profiles : RunCapabilityProfiles) (definition : StepDefinition)
    (steps : OrderedRecord String WorkflowStepRecord) :
    readiness profiles definition steps = .planned ∨ readiness profiles definition steps = .ready ∨
      readiness profiles definition steps = .blocked := by
  unfold readiness
  split
  · exact Or.inr (Or.inr rfl)
  · split
    · exact Or.inr (Or.inl rfl)
    · exact Or.inl rfl

/-- A step is ready when every dependency is recorded and satisfies it. -/
theorem readiness_ready_iff {profiles : RunCapabilityProfiles} {definition : StepDefinition}
    {steps : OrderedRecord String WorkflowStepRecord} :
    readiness profiles definition steps = .ready ↔ ∀ id ∈ definition.dependencies,
      ∃ dependency, steps.get? id = some dependency ∧
        stepSatisfiesDependents profiles dependency = true := by
  have hall : (definition.dependencies.all fun id =>
        match steps.get? id with
        | none => false
        | some dependency => stepSatisfiesDependents profiles dependency) = true ↔
      ∀ id ∈ definition.dependencies, ∃ dependency, steps.get? id = some dependency ∧
        stepSatisfiesDependents profiles dependency = true := by
    rw [List.all_eq_true]
    apply forall₂_congr
    intro id _
    cases steps.get? id with
    | none => simp
    | some dependency => simp
  unfold readiness
  rw [← hall]
  split
  · next hany =>
    refine iff_of_false (by simp) ?_
    intro hready
    obtain ⟨id, hid, hfailed⟩ := List.any_eq_true.mp hany
    have hsatisfied := List.all_eq_true.mp hready id hid
    cases hget : steps.get? id with
    | none =>
      rw [hget] at hsatisfied
      cases hsatisfied
    | some dependency =>
      rw [hget] at hsatisfied hfailed
      dsimp only at hsatisfied hfailed
      unfold stepSatisfiesDependents at hsatisfied
      rw [Bool.and_eq_true, decide_eq_true_eq] at hsatisfied
      rw [hsatisfied.1] at hfailed
      cases hfailed
  · split
    · next hyes => exact iff_of_true rfl hyes
    · next hno => exact iff_of_false (by simp) hno

/-- Readiness looks at whether each dependency failed and whether it satisfies its dependents. -/
theorem readiness_congr {profiles : RunCapabilityProfiles} {definition : StepDefinition}
    {left right : OrderedRecord String WorkflowStepRecord}
    (hfailed : ∀ id ∈ definition.dependencies,
      (left.get? id).map (·.state.isTerminalFailure) =
        (right.get? id).map (·.state.isTerminalFailure))
    (hsatisfied : ∀ id ∈ definition.dependencies,
      (left.get? id).map (stepSatisfiesDependents profiles) =
        (right.get? id).map (stepSatisfiesDependents profiles)) :
    readiness profiles definition left = readiness profiles definition right := by
  unfold readiness
  have hany : (definition.dependencies.any fun id =>
        match left.get? id with
        | none => true
        | some dependency => dependency.state.isTerminalFailure) =
      definition.dependencies.any fun id =>
        match right.get? id with
        | none => true
        | some dependency => dependency.state.isTerminalFailure := by
    rw [Bool.eq_iff_iff, List.any_eq_true, List.any_eq_true]
    apply exists_congr
    intro id
    apply and_congr_right
    intro hid
    have heq := hfailed id hid
    cases hleft : left.get? id <;> cases hright : right.get? id <;> simp_all
  have hall : (definition.dependencies.all fun id =>
        match left.get? id with
        | none => false
        | some dependency => stepSatisfiesDependents profiles dependency) =
      definition.dependencies.all fun id =>
        match right.get? id with
        | none => false
        | some dependency => stepSatisfiesDependents profiles dependency := by
    rw [Bool.eq_iff_iff, List.all_eq_true, List.all_eq_true]
    apply forall_congr'
    intro id
    apply imp_congr_right
    intro hid
    have heq := hsatisfied id hid
    cases hleft : left.get? id <;> cases hright : right.get? id <;> simp_all
  rw [hany, hall]

private theorem get?_reconcileStep (profiles : RunCapabilityProfiles)
    (steps : OrderedRecord String WorkflowStepRecord) (stepId x : String) :
    (reconcileStep profiles steps stepId).get? x =
      if x = stepId then
        (steps.get? stepId).map fun record =>
          { record with state := nextStepState profiles record steps }
      else steps.get? x := by
  unfold reconcileStep
  cases hrecord : steps.get? stepId with
  | none =>
    by_cases hx : x = stepId
    · rw [if_pos hx, hx, hrecord]
      rfl
    · rw [if_neg hx]
  | some record => rw [OrderedRecord.get?_set]; rfl

private theorem reconcileStep_sameButStates (profiles : RunCapabilityProfiles)
    (steps : OrderedRecord String WorkflowStepRecord) (stepId : String) :
    SameButStates steps (reconcileStep profiles steps stepId) := by
  rw [sameButStates_iff]
  constructor
  · unfold reconcileStep
    cases hrecord : steps.get? stepId with
    | none => rfl
    | some record =>
      apply OrderedRecord.keys_set_of_mem
      rw [OrderedRecord.mem_keys_iff, hrecord]
      rfl
  · intro x record hrecord
    rw [get?_reconcileStep]
    by_cases hx : x = stepId
    · subst hx
      rw [if_pos rfl, hrecord]
      exact ⟨_, rfl⟩
    · rw [if_neg hx]
      exact ⟨record.state, hrecord⟩

/-! ## The whole plan -/

section Fold

variable (profiles : RunCapabilityProfiles)

private theorem foldl_sameButStates (ids : List String)
    (steps : OrderedRecord String WorkflowStepRecord) :
    SameButStates steps (ids.foldl (reconcileStep profiles) steps) := by
  induction ids generalizing steps with
  | nil => exact SameButStates.refl steps
  | cons id rest ih =>
    exact (reconcileStep_sameButStates profiles steps id).trans
      (ih (reconcileStep profiles steps id))

private theorem foldl_get?_of_not_mem {ids : List String} {x : String} (hx : x ∉ ids)
    (steps : OrderedRecord String WorkflowStepRecord) :
    (ids.foldl (reconcileStep profiles) steps).get? x = steps.get? x := by
  induction ids generalizing steps with
  | nil => rfl
  | cons id rest ih =>
    rw [List.mem_cons, not_or] at hx
    rw [List.foldl_cons, ih hx.2, get?_reconcileStep, if_neg hx.1]

private theorem foldl_keeps {ids : List String} {x : String} {record : WorkflowStepRecord}
    {steps : OrderedRecord String WorkflowStepRecord} (hrecord : steps.get? x = some record)
    (hstate : record.state.isWaiting = false) :
    (ids.foldl (reconcileStep profiles) steps).get? x = some record := by
  induction ids generalizing steps with
  | nil => exact hrecord
  | cons id rest ih =>
    rw [List.foldl_cons]
    apply ih
    rw [get?_reconcileStep]
    by_cases hx : x = id
    · subst hx
      rw [if_pos rfl, hrecord, Option.map_some, nextStepState_of_not_waiting hstate]
    · rw [if_neg hx, hrecord]

private theorem foldl_waiting {ids : List String} {x : String} {record : WorkflowStepRecord}
    {steps : OrderedRecord String WorkflowStepRecord} (hrecord : steps.get? x = some record)
    (hstate : record.state = .planned ∨ record.state = .ready ∨ record.state = .blocked) :
    ∃ state, (ids.foldl (reconcileStep profiles) steps).get? x = some { record with state } ∧
      (state = .planned ∨ state = .ready ∨ state = .blocked) := by
  induction ids generalizing steps record with
  | nil => exact ⟨record.state, hrecord, hstate⟩
  | cons id rest ih =>
    rw [List.foldl_cons]
    by_cases hx : x = id
    · have hnext : (reconcileStep profiles steps id).get? x =
          some { record with state := nextStepState profiles record steps } := by
        rw [get?_reconcileStep, if_pos hx, ← hx, hrecord]
        rfl
      apply ih hnext
      by_cases hwaiting : record.state.isWaiting = true
      · simp only [nextStepState_of_waiting hwaiting]
        exact readiness_cases profiles record.definition steps
      · simp only [nextStepState_of_not_waiting (Bool.eq_false_iff.mpr hwaiting)]
        exact hstate
    · apply ih _ hstate
      rw [get?_reconcileStep, if_neg hx, hrecord]

private theorem foldl_fixpoint {pre post : List String} {x : String} {record : WorkflowStepRecord}
    {steps : OrderedRecord String WorkflowStepRecord} (hnodup : (pre ++ x :: post).Nodup)
    (hrecord : steps.get? x = some record) (hwaiting : record.state.isWaiting = true)
    (hdeps : ∀ d ∈ record.definition.dependencies, d ∈ pre) :
    ((pre ++ x :: post).foldl (reconcileStep profiles) steps).get? x =
      some { record with
        state := readiness profiles record.definition
          ((pre ++ x :: post).foldl (reconcileStep profiles) steps) } := by
  rw [List.nodup_append] at hnodup
  have hpre : x ∉ pre := fun hmem => hnodup.2.2 x hmem x (List.mem_cons_self ..) rfl
  have hpost : x ∉ post := (List.nodup_cons.mp hnodup.2.1).1
  have hsettled : ∀ d ∈ pre,
      ((pre ++ x :: post).foldl (reconcileStep profiles) steps).get? d =
        (pre.foldl (reconcileStep profiles) steps).get? d := by
    intro d hd
    rw [List.foldl_append]
    apply foldl_get?_of_not_mem
    intro hmem
    exact hnodup.2.2 d hd d hmem rfl
  have hreached : (pre.foldl (reconcileStep profiles) steps).get? x = some record := by
    rw [foldl_get?_of_not_mem profiles hpre, hrecord]
  have hreadiness : readiness profiles record.definition
        ((pre ++ x :: post).foldl (reconcileStep profiles) steps) =
      readiness profiles record.definition (pre.foldl (reconcileStep profiles) steps) := by
    apply readiness_congr
    · intro d hd
      rw [hsettled d (hdeps d hd)]
    · intro d hd
      rw [hsettled d (hdeps d hd)]
  rw [hreadiness]
  rw [List.foldl_append, List.foldl_cons, foldl_get?_of_not_mem profiles hpost, get?_reconcileStep,
    if_pos rfl, hreached, Option.map_some, nextStepState_of_waiting hwaiting]

end Fold

/-- A reconciliation rewrites states only. -/
theorem reconcile_sameButStates (run : WorkflowRunState) :
    SameButStates run.steps (reconcileWorkflowSteps run).steps :=
  foldl_sameButStates run.capabilityProfiles _ run.steps

/-- A step that does not wait is left as it is. -/
theorem reconcile_keeps {run : WorkflowRunState} {stepId : String} {record : WorkflowStepRecord}
    (hrecord : run.steps.get? stepId = some record) (hstate : record.state.isWaiting = false) :
    (reconcileWorkflowSteps run).steps.get? stepId = some record :=
  foldl_keeps run.capabilityProfiles hrecord hstate

/-- A waiting or blocked step ends planned, ready or blocked. -/
theorem reconcile_waiting {run : WorkflowRunState} {stepId : String} {record : WorkflowStepRecord}
    (hrecord : run.steps.get? stepId = some record)
    (hstate : record.state = .planned ∨ record.state = .ready ∨ record.state = .blocked) :
    ∃ state, (reconcileWorkflowSteps run).steps.get? stepId = some { record with state } ∧
      (state = .planned ∨ state = .ready ∨ state = .blocked) :=
  foldl_waiting run.capabilityProfiles hrecord hstate

/-- Along an order that lists dependencies first, every waiting step ends in the state its
dependencies end up giving it. -/
theorem reconcile_fixpoint {run : WorkflowRunState} {stepId : String} {record : WorkflowStepRecord}
    {pre post : List String} (horder : topologicalStepIds run.plan = pre ++ stepId :: post)
    (hnodup : (topologicalStepIds run.plan).Nodup)
    (hrecord : run.steps.get? stepId = some record) (hwaiting : record.state.isWaiting = true)
    (hdeps : ∀ d ∈ record.definition.dependencies, d ∈ pre) :
    (reconcileWorkflowSteps run).steps.get? stepId =
      some { record with
        state := readiness run.capabilityProfiles record.definition
          (reconcileWorkflowSteps run).steps } := by
  rw [horder] at hnodup
  unfold reconcileWorkflowSteps
  simp only [horder]
  exact foldl_fixpoint run.capabilityProfiles hnodup hrecord hwaiting hdeps

/-- Every reconciled record is the record before it, as it was or with another waiting state. -/
theorem reconcile_record {run : WorkflowRunState} {stepId : String} {record : WorkflowStepRecord}
    (hrecord : (reconcileWorkflowSteps run).steps.get? stepId = some record) :
    ∃ before, run.steps.get? stepId = some before ∧
      record = { before with state := record.state } ∧
      (record.state = before.state ∨ before.state.isWaiting = true ∧
        (record.state = .planned ∨ record.state = .ready ∨ record.state = .blocked)) := by
  have hkeys := (sameButStates_iff.mp (reconcile_sameButStates run)).1
  have hmem : stepId ∈ run.steps.keys := by
    rw [← hkeys, OrderedRecord.mem_keys_iff, hrecord]
    rfl
  rw [OrderedRecord.mem_keys_iff, Option.isSome_iff_exists] at hmem
  obtain ⟨before, hbefore⟩ := hmem
  refine ⟨before, hbefore, ?_⟩
  by_cases hwaiting : before.state.isWaiting = true
  · have hcases : before.state = .planned ∨ before.state = .ready ∨ before.state = .blocked := by
      cases hstate : before.state <;> simp_all [StepRunState.isWaiting]
    obtain ⟨state, hstate, hthree⟩ := reconcile_waiting hbefore hcases
    rw [hrecord, Option.some.injEq] at hstate
    rw [hstate]
    exact ⟨rfl, Or.inr ⟨hwaiting, hthree⟩⟩
  · have hkept := reconcile_keeps hbefore (Bool.eq_false_iff.mpr hwaiting)
    rw [hrecord, Option.some.injEq] at hkept
    rw [hkept]
    exact ⟨rfl, Or.inl rfl⟩

/-! ## Reconciled runs -/

/-- Every step is in the state a reconciliation gives it. -/
def IsReconciled (run : WorkflowRunState) : Prop :=
  ∀ stepId record, run.steps.get? stepId = some record → record.state.isWaiting = true →
    record.state = readiness run.capabilityProfiles record.definition run.steps

/-- A reconciliation leaves a reconciled run as it is. -/
theorem reconcile_of_isReconciled {run : WorkflowRunState} (h : IsReconciled run) :
    reconcileWorkflowSteps run = run := by
  have hstep : ∀ stepId, reconcileStep run.capabilityProfiles run.steps stepId = run.steps := by
    intro stepId
    unfold reconcileStep
    cases hrecord : run.steps.get? stepId with
    | none => rfl
    | some record =>
      have hstate : nextStepState run.capabilityProfiles record run.steps = record.state := by
        by_cases hwaiting : record.state.isWaiting = true
        · rw [nextStepState_of_waiting hwaiting]
          exact (h stepId record hrecord hwaiting).symm
        · exact nextStepState_of_not_waiting (Bool.eq_false_iff.mpr hwaiting)
      dsimp only
      rw [hstate]
      exact OrderedRecord.set_of_get? hrecord
  have hfold : ∀ ids : List String,
      ids.foldl (reconcileStep run.capabilityProfiles) run.steps = run.steps := by
    intro ids
    induction ids with
    | nil => rfl
    | cons id rest ih => rw [List.foldl_cons, hstep, ih]
  unfold reconcileWorkflowSteps
  rw [hfold]

end BuildConductor.Engine
