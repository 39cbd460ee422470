import BuildConductor.Engine.Events
import BuildConductor.Engine.Retry
import BuildConductor.Engine.Scheduler

/-!
# Engine transactions

Every state update the engine makes inside a store transaction, as a function of the
current state. A transaction throws on a step the state does not hold. One clock
reading serves a whole transaction. `src/src/engine/engine.ts`.
-/

namespace BuildConductor.Engine

open Base Domain

/-- `cancel`, its first transaction. `src/src/engine/engine.ts:141-150`. -/
def requestCancellation (reason : String) (now : Timestamp) (current : WorkflowRunState) :
    WorkflowRunState :=
  appendWorkflowEvents current [.runCancellationRequested reason] now

/-- A launch in preparation: what `launchStep` read before it acquired a workspace.
`src/src/engine/engine.ts:257-266`. -/
structure LaunchTicket where
  stepId : String
  requirement : WorkspaceRequirement
  attemptNumber : Nat
  startPoint : String
deriving DecidableEq, Repr

/-- `src/src/engine/engine.ts:257-266`. -/
def launchTicket (state : WorkflowRunState) (stepId : String) : Except String LaunchTicket := do
  let record ← requireStep state stepId
  pure
    { stepId
      requirement := stepWorkspaceRequirement state.capabilityProfiles record.definition
      attemptNumber := record.attemptIds.length + 1
      startPoint := state.integrationHead }

/-- The attempt a launch reserves. `src/src/engine/engine.ts:280-291`. -/
def preparedAttempt (ticket : LaunchTicket) (workspace : Workspace ticket.requirement ticket.startPoint)
    (attemptId : String) (now : Timestamp) : WorkflowStepAttempt :=
  { id := attemptId
    stepId := ticket.stepId
    number := ticket.attemptNumber
    state := .prepared
    workspaceRequirement := ticket.requirement
    workspacePath := workspace.path
    branch := present workspace.branch
    baseCommit := workspace.baseCommit
    startedAt := now.text
    finishedAt := none
    summary := none
    error := none
    workerId := none
    commit := none
    evidence := none
    artifactIds := none
    workspaceReleaseError := none }

/-- The reservation transaction of `launchStep`; the state is returned unchanged when the step
may no longer start. `src/src/engine/engine.ts:293-321`. -/
def reserveAttempt (attempt : WorkflowStepAttempt) (now : Timestamp) (current : WorkflowRunState) :
    Except String WorkflowRunState :=
  if attempt.stepId ∉ launchableStepIds current then pure current
  else do
    let next ← updateStep current attempt.stepId fun record =>
      { record with state := .running, attemptIds := record.attemptIds ++ [attempt.id] }
    pure (appendWorkflowEvents
      { next with attempts := current.attempts ++ [attempt], updatedAt := now.text }
      [.stepLaunched attempt.stepId attempt.id attempt.number attempt.workspaceRequirement] now)

/-- The second transaction of `launchStep`. `src/src/engine/engine.ts:327-333`. -/
def markAttemptRunning (attemptId : String) (now : Timestamp) (current : WorkflowRunState) :
    WorkflowRunState :=
  { updateStepAttempt current attemptId (fun attempt => { attempt with state := .running }) with
    updatedAt := now.text }

/-- The transaction recording the worker that carries an attempt out.
`src/src/workflows/change-run.ts:611-621`. -/
def recordWorker (attemptId workerId : String) (now : Timestamp) (current : WorkflowRunState) :
    WorkflowRunState :=
  { updateStepAttempt current attemptId (fun attempt => { attempt with workerId := some workerId })
    with updatedAt := now.text }

/-- The attempt update of `settleStep`. `src/src/engine/engine.ts:447-465`. -/
def settledAttempt (outcome : StepOutcome) (result : StepExecutionResult) (artifactIds : List String)
    (attempt : WorkflowStepAttempt) : WorkflowStepAttempt :=
  let settled :=
    { attempt with
      state := outcome.attemptState
      finishedAt := some result.finishedAt.text
      workerId := (present outcome.workerId).or attempt.workerId
      workspaceReleaseError :=
        (present result.workspaceReleaseError).or attempt.workspaceReleaseError }
  match outcome with
  | .succeeded summary _ commit evidence =>
    { settled with
      summary := (present summary).or attempt.summary
      commit := (present commit).or attempt.commit
      evidence := evidence.or attempt.evidence
      artifactIds := if artifactIds = [] then attempt.artifactIds else some artifactIds }
  | .failed error _ _ => { settled with error := some error }
  | .cancelled error _ => { settled with error := some error }

/-- The step update of `settleStep`. `src/src/engine/engine.ts:466-476`. -/
def settledRecord (outcome : StepOutcome) (retrying : Bool) (record : WorkflowStepRecord) :
    WorkflowStepRecord :=
  match outcome with
  | .succeeded _ _ _ _ => { record with state := .succeeded }
  | .failed error _ _ =>
    if retrying then { record with state := .ready }
    else { record with state := .failed, error := some error }
  | .cancelled error _ => { record with state := .cancelled, error := some error }

/-- The entries `settleStep` appends for the settled attempt. `src/src/engine/engine.ts:477-511`. -/
def settlementEvents (stepId : String) (attempt : WorkflowStepAttempt) (outcome : StepOutcome)
    (classification : Option StepFailureClassification) (summaries : List ArtifactSummary) :
    List WorkflowEventBody :=
  let published := summaries.map fun summary =>
    WorkflowEventBody.artifactPublished stepId attempt.id summary.id summary.output summary.kind
      summary.sizeBytes
  let reason := (classification.map (·.reason)).getD ""
  match outcome with
  | .succeeded summary _ _ _ => published ++ [.stepSucceeded stepId attempt.id (present summary)]
  | .cancelled error _ => published ++ [.stepCancelled stepId (some attempt.id) (some error)]
  | .failed error _ _ =>
    published ++
      [.stepFailed stepId attempt.id error ((classification.map (·.failureClass)).getD .terminal)
        reason] ++
      (if classification.map (·.failureClass) = some .retryable then
        [.stepRetryScheduled stepId attempt.id (attempt.number + 1) reason]
      else [])

/-- The run status after a settlement. `src/src/engine/engine.ts:513-520`. -/
def settledLifecycle (current : WorkflowRunLifecycleState) (outcome : StepOutcome)
    (retrying : Bool) : WorkflowRunLifecycleState :=
  if current ≠ .running then current
  else
    match outcome with
    | .cancelled _ _ => .cancelled
    | .failed _ _ _ => if retrying then .running else .failed
    | .succeeded _ _ _ _ => .running

/-- The transaction of `settleStep`. `src/src/engine/engine.ts:409-537`. -/
def settleStep (stepId : String) (attempt : WorkflowStepAttempt) (executed : StepExecutionResult)
    (routing : Except RoutingFailure (List ArtifactSummary)) (now : Timestamp)
    (current : WorkflowRunState) : Except String WorkflowRunState := do
  let (outcome, summaries) := routedOutcome executed.outcome routing
  let record ← requireStep current stepId
  let classification := classifyStepFailure outcome executed.timedOut attempt.number
    (stepRetryPolicy record.definition).maxAttempts
  let retrying : Bool := classification.map (·.failureClass) = some .retryable
  let attempted := updateStepAttempt current attempt.id
    (settledAttempt outcome executed (summaries.map (·.id)))
  let next ← updateStep attempted stepId (settledRecord outcome retrying)
  let reconciled := reconcileWorkflowSteps next
  pure (appendWorkflowEvents
    { reconciled with
      state := settledLifecycle reconciled.state outcome retrying
      updatedAt := now.text }
    (settlementEvents stepId attempt outcome classification summaries ++
      blockedStepEvents next reconciled) now)

/-- `failStep`. `src/src/engine/engine.ts:539-573`. -/
def failStep (stepId message : String) (now : Timestamp) (current : WorkflowRunState) :
    Except String WorkflowRunState := do
  let failed ← updateStep current stepId fun record =>
    { record with state := .failed, error := some message }
  let reconciled := reconcileWorkflowSteps failed
  pure (appendWorkflowEvents
    { reconciled with
      state := if reconciled.state = .cancelled then reconciled.state else .failed
      updatedAt := now.text }
    (.stepFailed stepId "" message .terminal "the step could not start" ::
      blockedStepEvents failed reconciled) now)

/-- An integration in progress: what `integratePendingSteps` read.
`src/src/engine/engine.ts:578-600`. -/
structure IntegrationTicket where
  stepId : String
  attempt : WorkflowStepAttempt
  expectedHead : String
deriving DecidableEq, Repr

/-- `state.attempts.findLast(...)`. `src/src/engine/engine.ts:588-591`. -/
def latestSucceededAttempt (state : WorkflowRunState) (stepId : String) :
    Option WorkflowStepAttempt :=
  state.attempts.findRev? fun candidate => candidate.stepId = stepId && candidate.state = .succeeded

/-- The transaction recording an integrated step. `src/src/engine/engine.ts:612-632`. -/
def recordIntegration (ticket : IntegrationTicket) (integratedCommit : String) (now : Timestamp)
    (current : WorkflowRunState) : Except String WorkflowRunState := do
  let next ← updateStep current ticket.stepId fun record =>
    { record with integratedCommit := some integratedCommit }
  pure (appendWorkflowEvents
    (reconcileWorkflowSteps
      { next with integrationHead := integratedCommit, updatedAt := now.text })
    [.stepIntegrated ticket.stepId (present ticket.attempt.commit) integratedCommit] now)

/-- The message of a failed integration. `src/src/engine/engine.ts:634`. -/
def integrationFailureMessage (stepId error : String) : String :=
  s!"Failed to integrate step {stepId}: {error}"

/-- The transaction recording a failed integration. The status is written without a look at the
current one. `src/src/engine/engine.ts:633-656`. -/
def recordIntegrationFailure (ticket : IntegrationTicket) (error : String) (now : Timestamp)
    (current : WorkflowRunState) : Except String WorkflowRunState := do
  let message := integrationFailureMessage ticket.stepId error
  let failed ← updateStep current ticket.stepId fun record =>
    { record with state := .failed, integrationError := some message }
  let reconciled := reconcileWorkflowSteps failed
  pure (appendWorkflowEvents
    { reconciled with state := .failed, updatedAt := now.text }
    (.stepFailed ticket.stepId ticket.attempt.id message .terminal
        "the produced commit could not be integrated" ::
      blockedStepEvents failed reconciled) now)

/-- Whether a settlement ends what a step had not finished. `src/src/engine/engine.ts:676-682`. -/
def isOpenStep (record : WorkflowStepRecord) : Bool :=
  record.state ≠ .succeeded && record.state ≠ .failed && record.state ≠ .cancelled

/-- End every step that had not finished. `src/src/engine/engine.ts:675-686`. -/
def cancelOpenSteps (state : WorkflowRunState) : WorkflowRunState :=
  { state with
    steps := state.steps.mapValues fun _ record =>
      if isOpenStep record then { record with state := .cancelled } else record }

/-- The entries of the steps a cancellation ends, in step order. -/
def cancelledStepEvents (state : WorkflowRunState) : List WorkflowEventBody :=
  (state.steps.entries.filter fun entry => isOpenStep entry.2).map fun entry =>
    .stepCancelled entry.1 none none

/-- Whether a settlement cancels. `src/src/engine/engine.ts:671-674`. -/
def isCancelling (cancelled : Bool) (state : WorkflowRunLifecycleState) : Bool :=
  (cancelled || state = .cancelled) && state ≠ .failed && state ≠ .completed

/-- The status a run settles to. `src/src/engine/engine.ts:687-699`. -/
def settledRunLifecycle (state : WorkflowRunLifecycleState) (states : List StepRunState) :
    WorkflowRunLifecycleState :=
  if state ≠ .running then state
  else if states.any fun value => !value.isTerminal then .failed
  else if states.all (· = .succeeded) then .completed
  else if .cancelled ∈ states then .cancelled
  else .failed

/-- The error of a run that stopped while steps were waiting. `src/src/engine/engine.ts:700-703`. -/
def settledRunError (state : WorkflowRunLifecycleState) (states : List StepRunState) :
    Option String :=
  if state = .failed ∧ (states.any fun value => !value.isTerminal) then
    some "The workflow stopped while steps were still waiting to run"
  else none

/-- `settleRun`. `src/src/engine/engine.ts:661-723`. -/
def settleRun (cancelled : Bool) (now : Timestamp) (current : WorkflowRunState) :
    WorkflowRunState :=
  let reconciled := reconcileWorkflowSteps current
  let cancelling := isCancelling cancelled reconciled.state
  let next := if cancelling then cancelOpenSteps reconciled else reconciled
  let cancellations := if cancelling then cancelledStepEvents reconciled else []
  let states := next.steps.values.map (·.state)
  let state := settledRunLifecycle next.state states
  let error := settledRunError state states
  appendWorkflowEvents
    { next with state, error := error.or next.error, updatedAt := now.text }
    (cancellations ++ [.runSettled state error]) now

end BuildConductor.Engine
