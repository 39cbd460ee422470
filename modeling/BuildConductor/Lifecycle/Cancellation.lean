import BuildConductor.Lifecycle.Transactions

/-!
# Cancellation

Whether a cancelled run stays cancelled. Every transaction looks at the stored status before
it writes another one, except the record of a failed integration and the relaunch of
interrupted work. `src/src/engine/engine.ts:409-723`,
`src/src/workflows/change-run.ts:342-396`.
-/

namespace BuildConductor.Lifecycle

open Base Domain Security Engine Workflows Storage

/-- The transactions that write a status without a look at the stored one. -/
def Transaction.ignoresStatus : Transaction → Bool
  | .recordIntegrationFailure _ _ => true
  | .relaunch _ => true
  | _ => false

/-- A step that does not write a status over a cancelled run without looking at it. -/
def KeepsCancelled (world : World) : Action → Prop
  | .write transaction => transaction.ignoresStatus = true → world.run.state ≠ .cancelled
  | _ => True

variable {run next : WorkflowRunState} {now : Timestamp}

private theorem settledLifecycle_cancelled (outcome : StepOutcome) (retrying : Bool) :
    settledLifecycle .cancelled outcome retrying = .cancelled := by
  unfold settledLifecycle
  rw [if_pos (by decide)]

private theorem settledRunLifecycle_cancelled (states : List StepRunState) :
    settledRunLifecycle .cancelled states = .cancelled := by
  unfold settledRunLifecycle
  rw [if_pos (by decide)]

private theorem recoveredLifecycle_cancelled (steps : OrderedRecord String WorkflowStepRecord) :
    recoveredLifecycle .cancelled steps = .cancelled := by
  unfold recoveredLifecycle
  rw [if_neg]
  rintro ⟨hrunning, -⟩
  cases hrunning

/-- A transaction that looks at the status keeps a cancelled one. -/
theorem Transaction.apply_keeps_cancelled {transaction : Transaction}
    (h : transaction.apply now run = .ok next) (hlooks : transaction.ignoresStatus = false)
    (hstate : run.state = .cancelled) : next.state = .cancelled := by
  cases transaction with
  | requestCancellation reason =>
    cases h
    rw [(requestCancellation_rewrites reason now run).state, hstate]
  | reserve attempt =>
    rcases reserveAttempt_ok h with ⟨-, rfl⟩ | ⟨-, record, -, hwrite⟩
    · exact hstate
    · rw [hwrite.state, hstate]
  | markRunning attemptId =>
    cases h
    exact hstate
  | recordWorker attemptId workerId =>
    cases h
    exact hstate
  | settleStep stepId attempt executed routing =>
    obtain ⟨record, artifactIds, -, hwrite⟩ := settleStep_ok h
    rw [hwrite.state, hstate]
    exact settledLifecycle_cancelled _ _
  | failStep stepId message =>
    obtain ⟨record, -, hwrite⟩ := failStep_ok h
    rw [hwrite.state, if_pos hstate, hstate]
  | recordIntegration ticket commit =>
    obtain ⟨record, -, hwrite⟩ := recordIntegration_ok h
    rw [hwrite.state, hstate]
  | recordIntegrationFailure ticket error => cases hlooks
  | settleRun cancelled =>
    cases h
    rw [(settleRun_rewrites cancelled now run).state, hstate]
    exact settledRunLifecycle_cancelled _
  | recover decide =>
    obtain ⟨⟨settled, recovered⟩, hrecover, rfl⟩ := map_ok_iff.mp h
    obtain ⟨bound, hbound⟩ := exists_number_bound (activeAttempts run)
    obtain ⟨steps, attempts, -, ⟨-, rfl⟩ | ⟨-, hwrite⟩⟩ := recoverWorkflowRun_ok hbound hrecover
    · exact hstate
    · rw [hwrite.state, hstate]
      exact recoveredLifecycle_cancelled _
  | relaunch stopped => cases hlooks
  | retry =>
    obtain ⟨bound, hbound⟩ := exists_attemptIds_bound run
    exact absurd hstate (retrySteps_ok hbound h).1
  | admission request =>
    have hrunning := (admitSteps_ok h).1
    rw [hstate] at hrunning
    cases hrunning

/-- The two transactions that ignore the status give a cancelled run another one. -/
theorem Transaction.apply_loses_cancelled {transaction : Transaction}
    (h : transaction.apply now run = .ok next) (hignores : transaction.ignoresStatus = true) :
    next.state ≠ .cancelled := by
  cases transaction with
  | recordIntegrationFailure ticket error =>
    obtain ⟨record, -, hwrite⟩ := recordIntegrationFailure_ok h
    rw [hwrite.state]
    decide
  | relaunch stopped =>
    cases h
    obtain ⟨bound, hbound⟩ := exists_attemptIds_bound run
    rw [(relaunchSteps_rewrites stopped hbound).state]
    decide
  | _ => cases hignores

/-- One step keeps a cancelled run cancelled exactly when it looks at the status. -/
theorem step_keeps_cancelled_iff {accepts : WorkflowRunState → Prop} {world later : World}
    {action : Action} (hstep : Step accepts world action later)
    (hcancelled : world.run.state = .cancelled) :
    later.run.state = .cancelled ↔ KeepsCancelled world action := by
  cases hstep with
  | @write transaction next process now hissues happly _ =>
    cases hignores : transaction.ignoresStatus with
    | true =>
      constructor
      · intro hstate
        exact absurd hstate (Transaction.apply_loses_cancelled happly hignores)
      · intro hkeeps
        exact absurd hcancelled (hkeeps hignores)
    | false =>
      constructor
      · intro _ hyes
        rw [hignores] at hyes
        cases hyes
      · intro _
        exact Transaction.apply_keeps_cancelled happly hignores hcancelled
  | requestCancellation happly _ =>
    constructor
    · intro _ hyes
      cases hyes
    · intro _
      exact Transaction.apply_keeps_cancelled happly rfl hcancelled
  | settleCancelled _ happly _ =>
    constructor
    · intro _ hyes
      cases hyes
    · intro _
      exact Transaction.apply_keeps_cancelled happly rfl hcancelled
  | refuse _ => exact ⟨fun _ => trivial, fun _ => hcancelled⟩
  | move _ _ => exact ⟨fun _ => trivial, fun _ => hcancelled⟩
  | dropCanceller _ => exact ⟨fun _ => trivial, fun _ => hcancelled⟩
  | resume _ => exact ⟨fun _ => trivial, fun _ => hcancelled⟩
  | assessRetry _ _ _ => exact ⟨fun _ => trivial, fun _ => hcancelled⟩
  | crash _ => exact ⟨fun _ => trivial, fun _ => hcancelled⟩
  | stop _ _ _ => exact ⟨fun _ => trivial, fun _ => hcancelled⟩

/-- Once cancelled, a run stays cancelled along every run of the system in which no failed
integration and no relaunch is recorded over a cancelled status. -/
theorem cancelled_absorbing {starts : CreateWorkflowRunStateInput → Prop}
    {accepts : WorkflowRunState → Prop} {world later : World}
    (hruns : ((engineSystem starts accepts).restrict KeepsCancelled).Runs world later)
    (hcancelled : world.run.state = .cancelled) : later.run.state = .cancelled := by
  apply hruns.preserves _ hcancelled
  intro s action t hs hstep
  exact (step_keeps_cancelled_iff hstep.2 hs).mpr hstep.1

/-! ## A cancelled run that fails -/

/-- The run once another process has asked to cancel it. -/
def requestedRun : WorkflowRunState :=
  { succeededRun with
    events := succeededRun.events ++ [⟨3, "3", .runCancellationRequested "stop"⟩]
    eventSequence := 3 }

/-- The run once that process has settled it. -/
def cancelledRun : WorkflowRunState :=
  { requestedRun with
    state := .cancelled
    steps := .ofList [("edit", editRecord .succeeded),
      ("check", { initialStepRecord checkStep with state := .cancelled })]
    events := requestedRun.events ++
      [⟨4, "3", .stepCancelled "check" none none⟩, ⟨5, "3", .runSettled .cancelled none⟩]
    eventSequence := 5
    updatedAt := "3" }

/-- While `edit` is being integrated another process cancels the run; then the integration fails
on a conflict, and the engine records the run as failed. -/
theorem cancelled_not_absorbing : ¬ ∀ (sha256Hex : String → String) (world later : World),
    (storedEngine sha256Hex).Reachable world → world.run.state = .cancelled →
    (storedEngine sha256Hex).Runs world later → later.run.state = .cancelled := by
  intro h
  have hrequest : (Transaction.requestCancellation "stop").apply (clock "3") succeededRun =
      .ok requestedRun := rfl
  have hsettle : (Transaction.settleRun true).apply (clock "3") requestedRun = .ok cancelledRun := rfl
  have hrequested : (storedEngine id).Reachable
      ⟨requestedRun, .engine ⟨.merging editTicket "c1", [], false⟩, 1, []⟩ :=
    (succeededRun_reachable id).step_to (Step.requestCancellation hrequest fun _ => rfl) rfl
  have hcancelled : (storedEngine id).Reachable
      (engineAt cancelledRun (.merging editTicket "c1") []) :=
    hrequested.step_to (Step.settleCancelled (by decide) hsettle fun _ => rfl) rfl
  have hfailing : (storedEngine id).Runs (engineAt cancelledRun (.merging editTicket "c1") [])
      (engineAt cancelledRun (.failingIntegration editTicket "conflict") []) :=
    .snoc (.refl _) (Step.move rfl (Moves.mergeFailed rfl))
  cases hrecord : (Transaction.recordIntegrationFailure editTicket "conflict").apply (clock "4")
      cancelledRun with
  | error message => cases hrecord
  | ok failedRun =>
    have haccepted : Accepts id failedRun := by
      cases hrecord
      rfl
    have hfailed : (storedEngine id).Runs (engineAt cancelledRun (.merging editTicket "c1") [])
        (engineAt failedRun .reloading []) :=
      .snoc hfailing (Step.write (Issues.recordIntegrationFailure rfl) hrecord fun _ => haccepted)
    exact Transaction.apply_loses_cancelled hrecord rfl (h id _ _ hcancelled rfl hfailed)

/-- The run stays cancelled while the engine reads it. -/
theorem cancelled_absorbing_cancelledRun :
    (engineAt cancelledRun (.returned .cancelled) []).run.state = .cancelled := by
  have hload : ((engineSystem PlanValidated (Accepts id)).restrict KeepsCancelled).step
      (engineAt cancelledRun .integrating []) .move
      (engineAt cancelledRun (.returned .cancelled) []) :=
    ⟨trivial, Step.move rfl (Moves.load rfl)⟩
  exact cancelled_absorbing (.snoc (.refl _) hload) rfl

end BuildConductor.Lifecycle
