import BuildConductor.Lifecycle.Tracking

/-!
# Readiness of stored steps

Every reachable run is reconciled: a waiting step is stored in the state its dependencies give
it, so the reconciliation a reader makes changes nothing. Supports
`src/src/engine/scheduler.ts:39-82`, `src/src/engine/workflow-state.ts:131-173`.
-/

namespace BuildConductor.Lifecycle

open Base Domain Security Engine Workflows Storage

variable {run next : WorkflowRunState} {now : Timestamp}

/-- What a reconciliation stores is reconciled. -/
private theorem isReconciled_of_reconciledSteps {steps : OrderedRecord String WorkflowStepRecord}
    (hkept : PlanKept next) (hprofiles : next.capabilityProfiles = run.capabilityProfiles)
    (hplan : next.plan = run.plan) (hsteps : next.steps = reconciledSteps run steps) :
    IsReconciled next := by
  have hbefore := hkept.before_reconciled hplan hsteps
  intro stepId record hrecord hwaiting
  rw [hsteps] at hrecord
  obtain ⟨before, hget, -, hcases⟩ := reconcile_record hrecord
  have hbeforeWaiting : before.state.isWaiting = true := by
    rcases hcases with hkeptState | ⟨hyes, -⟩
    · rw [← hkeptState]
      exact hwaiting
    · exact hyes
  have hready := hbefore.reconcile_waiting_eq hget hbeforeWaiting
  rw [show (reconcileWorkflowSteps { run with steps }).steps.get? stepId = some record from hrecord,
    Option.some.injEq] at hready
  rw [hready, hsteps, hprofiles]
  rfl

private theorem isReconciled_reserved {stepId attemptId : String} {record : WorkflowStepRecord}
    (h : IsReconciled run) (hrecord : run.steps.get? stepId = some record)
    (hwaiting : record.state.isWaiting = true)
    (hprofiles : next.capabilityProfiles = run.capabilityProfiles)
    (hsteps : next.steps = run.steps.set stepId (reservedRecord record attemptId)) :
    IsReconciled next := by
  have hfailed : record.state.isTerminalFailure = false := by
    cases hstate : record.state <;> simp_all [StepRunState.isWaiting, StepRunState.isTerminalFailure]
  have hsatisfied : stepSatisfiesDependents run.capabilityProfiles record = false := by
    unfold stepSatisfiesDependents
    cases hstate : record.state <;> simp_all [StepRunState.isWaiting]
  intro x later hlater hlaterWaiting
  rw [hsteps, OrderedRecord.get?_set] at hlater
  split at hlater
  · cases hlater
    cases hlaterWaiting
  · rw [h x later hlater hlaterWaiting, hprofiles, hsteps]
    apply readiness_congr
    · intro id _
      rw [OrderedRecord.get?_set]
      split
      · next hid =>
        rw [hid, hrecord, Option.map_some, Option.map_some, hfailed]
        rfl
      · rfl
    · intro id _
      rw [OrderedRecord.get?_set]
      split
      · next hid =>
        rw [hid, hrecord, Option.map_some, Option.map_some, hsatisfied]
        rfl
      · rfl

private theorem isReconciled_settled {cancelled : Bool} (hkept : PlanKept next)
    (hprofiles : next.capabilityProfiles = run.capabilityProfiles) (hplan : next.plan = run.plan)
    (hsteps : next.steps = (settledSteps cancelled run).steps) : IsReconciled next := by
  unfold settledSteps at hsteps
  split at hsteps
  · intro stepId record hrecord hwaiting
    rw [hsteps] at hrecord
    simp only [cancelOpenSteps, OrderedRecord.get?_mapValues, Option.map_eq_some_iff] at hrecord
    obtain ⟨before, -, hrecord⟩ := hrecord
    split at hrecord
    · rw [← hrecord] at hwaiting
      cases hwaiting
    · next hclosed =>
      rw [← hrecord] at hwaiting
      exfalso
      apply hclosed
      unfold isOpenStep
      cases hstate : before.state <;> simp_all [StepRunState.isWaiting]
  · exact isReconciled_of_reconciledSteps hkept hprofiles hplan hsteps

/-- Every transaction leaves the run reconciled. -/
theorem Transaction.apply_isReconciled {transaction : Transaction}
    (h : transaction.apply now run = .ok next) (hkept : PlanKept run) (hrun : IsReconciled run) :
    IsReconciled next := by
  have hnext := apply_planKept h hkept
  have hunchanged (hprofiles : next.capabilityProfiles = run.capabilityProfiles)
      (hsteps : next.steps = run.steps) : IsReconciled next := by
    unfold IsReconciled
    rw [hprofiles, hsteps]
    exact hrun
  cases transaction with
  | requestCancellation reason =>
    cases h
    have hwrite := requestCancellation_rewrites reason now run
    exact hunchanged hwrite.header.capabilityProfiles hwrite.steps
  | reserve attempt =>
    rcases reserveAttempt_ok h with ⟨-, rfl⟩ | ⟨hlaunchable, record, hrecord, hwrite⟩
    · exact hrun
    · obtain ⟨-, -, -, found, hfound, hwaiting, -⟩ := launchable_facts hlaunchable
      rw [hrecord, Option.some.injEq] at hfound
      rw [← hfound] at hwaiting
      exact isReconciled_reserved hrun hrecord hwaiting hwrite.header.capabilityProfiles hwrite.steps
  | markRunning attemptId =>
    cases h
    exact hrun
  | recordWorker attemptId workerId =>
    cases h
    exact hrun
  | settleStep stepId attempt executed routing =>
    obtain ⟨record, artifactIds, -, hwrite⟩ := settleStep_ok h
    exact isReconciled_of_reconciledSteps hnext hwrite.header.capabilityProfiles hwrite.plan
      hwrite.steps
  | failStep stepId message =>
    obtain ⟨record, -, hwrite⟩ := failStep_ok h
    exact isReconciled_of_reconciledSteps hnext hwrite.header.capabilityProfiles hwrite.plan
      hwrite.steps
  | recordIntegration ticket commit =>
    obtain ⟨record, -, hwrite⟩ := recordIntegration_ok h
    exact isReconciled_of_reconciledSteps hnext hwrite.header.capabilityProfiles hwrite.plan
      hwrite.steps
  | recordIntegrationFailure ticket error =>
    obtain ⟨record, -, hwrite⟩ := recordIntegrationFailure_ok h
    exact isReconciled_of_reconciledSteps hnext hwrite.header.capabilityProfiles hwrite.plan
      hwrite.steps
  | settleRun cancelled =>
    cases h
    have hwrite := settleRun_rewrites cancelled now run
    exact isReconciled_settled hnext hwrite.header.capabilityProfiles hwrite.plan hwrite.steps
  | recover decide =>
    obtain ⟨⟨settled, recovered⟩, hrecover, rfl⟩ := map_ok_iff.mp h
    obtain ⟨bound, hbound⟩ := exists_number_bound (activeAttempts run)
    obtain ⟨steps, attempts, -, ⟨-, rfl⟩ | ⟨-, hwrite⟩⟩ := recoverWorkflowRun_ok hbound hrecover
    · exact hrun
    · exact isReconciled_of_reconciledSteps hnext hwrite.header.capabilityProfiles hwrite.plan
        hwrite.steps
  | relaunch stopped =>
    cases h
    obtain ⟨bound, hbound⟩ := exists_attemptIds_bound run
    have hwrite := @relaunchSteps_rewrites run now stopped bound hbound
    exact isReconciled_of_reconciledSteps hnext hwrite.header.capabilityProfiles hwrite.plan
      hwrite.steps
  | retry =>
    obtain ⟨bound, hbound⟩ := exists_attemptIds_bound run
    obtain ⟨-, ⟨-, rfl⟩ | ⟨-, hwrite⟩⟩ := retrySteps_ok hbound h
    · exact hrun
    · exact isReconciled_of_reconciledSteps hnext hwrite.header.capabilityProfiles hwrite.plan
        hwrite.steps
  | admission request =>
    obtain ⟨-, authority, plan, -, -, -, hheader, hplan, -, -, -, hsteps, -, -⟩ := admitSteps_ok h
    exact @isReconciled_of_reconciledSteps { run with plan } _ _ hnext
      hheader.capabilityProfiles hplan hsteps

/-- A created run is reconciled. -/
private theorem isReconciled_of_create {input : CreateWorkflowRunStateInput}
    (hcreated : Created input run) (hkept : PlanKept run) : IsReconciled run := by
  intro stepId record hrecord _
  rw [hcreated.initial hkept hrecord]
  unfold initialStepRecord readiness
  dsimp only
  have hstate : ∀ id ∈ record.definition.dependencies, ∃ dependency,
      run.steps.get? id = some dependency ∧ dependency.state.isTerminalFailure = false ∧
        stepSatisfiesDependents run.capabilityProfiles dependency = false := by
    intro id hid
    obtain ⟨dependency, hdependency⟩ := hkept.dependency_recorded hrecord hid
    refine ⟨dependency, hdependency, ?_⟩
    rw [hcreated.initial hkept hdependency]
    unfold initialStepRecord stepSatisfiesDependents
    dsimp only
    split
    · exact ⟨rfl, rfl⟩
    · exact ⟨rfl, rfl⟩
  by_cases hnone : record.definition.dependencies = []
  · rw [if_pos hnone, hnone]
    rfl
  · rw [if_neg hnone, if_neg, if_neg]
    · intro hall
      obtain ⟨id, rest, hcons⟩ := List.exists_cons_of_ne_nil hnone
      have hid : id ∈ record.definition.dependencies := by
        rw [hcons]
        exact List.mem_cons_self ..
      obtain ⟨dependency, hdependency, -, hunsatisfied⟩ := hstate id hid
      have hyes := List.all_eq_true.mp hall id hid
      rw [hdependency] at hyes
      dsimp only at hyes
      rw [hunsatisfied] at hyes
      cases hyes
    · intro hany
      obtain ⟨id, hid, hyes⟩ := List.any_eq_true.mp hany
      obtain ⟨dependency, hdependency, hopen, -⟩ := hstate id hid
      rw [hdependency] at hyes
      dsimp only at hyes
      rw [hopen] at hyes
      cases hyes

/-- Every reachable run is reconciled. -/
theorem isReconciled_reachable {accepts : WorkflowRunState → Prop} {world : World}
    (h : (engineSystem PlanValidated accepts).Reachable world) : IsReconciled world.run := by
  apply h.invariant
  · intro s hstarts
    obtain ⟨input, -, hcreate⟩ := hstarts.input
    exact isReconciled_of_create (createWorkflowRunState_ok hcreate) (planKept_of_starts hstarts)
  · intro s a t hreach hrun hstep
    rcases Step.run_cases hstep with hsame | ⟨transaction, now, -, happly⟩
    · rw [hsame]
      exact hrun
    · exact Transaction.apply_isReconciled happly (planKept_reachable hreach) hrun

end BuildConductor.Lifecycle
