import BuildConductor.Engine.Recovery

/-!
# Reopening a run

The two transactions that set a stopped run back to running: the relaunch of work an
interruption stopped, and the retry of failed work. `src/src/workflows/change-run.ts`.
-/

namespace BuildConductor.Workflows

open Base Domain Engine

/-- The steps recovery failed that are still failed. `src/src/workflows/change-run.ts:347-353`. -/
def stoppedSteps (state : WorkflowRunState) (recovered : List RecoveredAttempt) : List String :=
  (((recovered.filter fun entry => entry.outcome = .failed).map (·.stepId)).eraseDups).filter
    fun stepId => (state.steps.get? stepId).map (·.state) = some .failed

/-- The newest attempt id of a step and the number of its next attempt, as the entry of a
scheduled retry names them. -/
def retryScheduled (current : WorkflowRunState) (reason stepId : String) : WorkflowEventBody :=
  let attemptIds := ((current.steps.get? stepId).map (·.attemptIds)).getD []
  .stepRetryScheduled stepId (attemptIds.getLast?.getD "") (attemptIds.length + 1) reason

/-- The transaction of `relaunchInterruptedSteps`, over the steps recovery stopped. The status is
written without a look at the current one. `src/src/workflows/change-run.ts:357-394`. -/
def relaunchSteps (stopped : List String) (now : Timestamp) (current : WorkflowRunState) :
    WorkflowRunState :=
  let steps := current.steps.mapValues fun stepId record =>
    if record.state = .blocked ∨ (record.state = .failed ∧ stepId ∈ stopped) then
      { record with state := .planned, error := none }
    else record
  appendWorkflowEvents
    (reconcileWorkflowSteps
      { current with steps, error := none, state := .running, updatedAt := now.text })
    (stopped.map (retryScheduled current "the resumed run runs the interrupted work again")) now

/-- The steps a retry resets. `src/src/workflows/change-run.ts:432-437`. -/
def retryResetIds (current : WorkflowRunState) : List String :=
  (current.steps.entries.filter fun entry =>
    entry.2.state = .failed ∨ entry.2.state = .blocked).map Prod.fst

/-- The transaction of `retry`. With nothing to reset the state is returned unchanged.
`src/src/workflows/change-run.ts:423-480`. -/
def retrySteps (now : Timestamp) (current : WorkflowRunState) : Except String WorkflowRunState :=
  if current.state = .cancelled then .error s!"Cancelled run {current.id} cannot be retried"
  else if retryResetIds current = [] then .ok current
  else
    let steps := current.steps.mapValues fun _ record =>
      if record.state = .failed ∨ record.state = .blocked then
        { record with state := .planned, error := none, integrationError := none }
      else record
    .ok (appendWorkflowEvents
      (reconcileWorkflowSteps
        { current with steps, error := none, state := .running, updatedAt := now.text })
      ((retryResetIds current).map
        (retryScheduled current "the user retried the failed work of this run")) now)

end BuildConductor.Workflows
