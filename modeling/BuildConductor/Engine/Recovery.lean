import BuildConductor.Engine.Transactions

/-!
# Recovery of an interrupted run

The decision about each interrupted attempt from what git and the artifact store
answer, and the transaction that settles them. `src/src/engine/recovery.ts`.
-/

namespace BuildConductor.Engine

open Base Domain

/-- What git and the artifact store answer during one recovery. -/
structure RecoveryObservations where
  /-- `git.branchHead` of a branch. -/
  branchHead : String → Except String String
  /-- `git.verifyTaskCommit` of a branch, a head and a base. -/
  verifyTaskCommit : String → String → String → Except String Unit
  /-- The durable artifact ids, none when no artifact store is configured. -/
  durable : Option (List String)
  /-- The evidence document an artifact holds, when it can be read and has the stored shape. -/
  readEvidence : String → Option TaskValidationEvidence

/-- `src/src/engine/recovery.ts:66-78`. -/
structure InterruptedAttemptDecision where
  commit : Option String
  artifactIds : List String
  evidence : Option TaskValidationEvidence
  retryReason : Option String
  blockedReason : Option String
deriving DecidableEq

namespace InterruptedAttemptDecision

/-- Nothing to adopt and nothing in the way. -/
def nothing : InterruptedAttemptDecision := ⟨none, [], none, none, none⟩

/-- Adopt a commit. -/
def adopt (commit : String) (artifactIds : List String) (evidence : Option TaskValidationEvidence) :
    InterruptedAttemptDecision :=
  ⟨some commit, artifactIds, evidence, none, none⟩

/-- Not adopted, though it may run again. -/
def retryBecause (reason : String) : InterruptedAttemptDecision := ⟨none, [], none, some reason, none⟩

/-- The branch could not be reconciled. -/
def blockedBecause (reason : String) : InterruptedAttemptDecision :=
  ⟨none, [], none, none, some reason⟩

end InterruptedAttemptDecision

/-- The outcome of `interruptedAttemptCommit`. -/
inductive BranchInspection
  | noCommit
  | commit (hash : String)
  | unreconciled (reason : String)

/-- The commit an interrupted attempt left on its branch. `src/src/engine/recovery.ts:125-158`. -/
def interruptedAttemptCommit (observations : RecoveryObservations) (attempt : WorkflowStepAttempt) :
    BranchInspection :=
  match present attempt.branch with
  | none => .noCommit
  | some branch =>
    match present attempt.commit with
    | some commit => .commit commit
    | none =>
      match observations.branchHead branch with
      | .error message => .unreconciled s!"could not reconcile step branch: {message}"
      | .ok head =>
        if head = attempt.baseCommit then .noCommit
        else
          match observations.verifyTaskCommit branch head attempt.baseCommit with
          | .error message => .unreconciled s!"could not reconcile step branch: {message}"
          | .ok () => .commit head

/-- The declared outputs with the artifact id each would have. `src/src/engine/recovery.ts:103-122`. -/
def declaredArtifactIds (step : StepDefinition) (attempt : WorkflowStepAttempt) :
    List (String × Option String) :=
  (step.outputs.getD []).map fun output =>
    (output, (artifactIdFor ⟨step.id, output, attempt.number⟩).toOption)

/-- `EVIDENCE_OUTPUT`. -/
def evidenceOutput : String := "evidence"

/-- `src/src/engine/recovery.ts:226-253`. -/
def adoptedEvidence (observations : RecoveryObservations) (step : StepDefinition)
    (attempt : WorkflowStepAttempt) : Option TaskValidationEvidence := do
  let artifactId ← (artifactIdFor ⟨step.id, evidenceOutput, attempt.number⟩).toOption
  let evidence ← observations.readEvidence artifactId
  if evidence.passed then some evidence else none

/-- Decide one interrupted attempt from durable evidence. `src/src/engine/recovery.ts:170-223`. -/
def inspectInterruptedAttempt (observations : RecoveryObservations) (step : StepDefinition)
    (attempt : WorkflowStepAttempt) : InterruptedAttemptDecision :=
  match interruptedAttemptCommit observations attempt with
  | .noCommit => .nothing
  | .unreconciled reason => .blockedBecause reason
  | .commit commit =>
    let declared := declaredArtifactIds step attempt
    let durable := observations.durable.getD []
    let missing := declared.filter fun entry =>
      match entry.2 with
      | none => true
      | some artifactId => artifactId ∉ durable
    let artifactIds := declared.filterMap Prod.snd
    if declared ≠ [] ∧ observations.durable = none then
      .retryBecause
        s!"no artifact store is configured to verify the declared output{
          pluralSuffix declared.length} of {step.id}"
    else if missing ≠ [] then
      .retryBecause
        s!"did not durably store the declared output{
          pluralSuffix missing.length} of {step.id}: {joinNames (missing.map Prod.fst)}"
    else if attempt.evidence.isSome then .adopt commit artifactIds attempt.evidence
    else if evidenceOutput ∉ step.outputs.getD [] then .adopt commit artifactIds none
    else
      match adoptedEvidence observations step attempt with
      | some evidence => .adopt commit artifactIds (some evidence)
      | none =>
        .retryBecause s!"published no readable passing validation evidence for {step.id}"

/-- How recovery settled one attempt. `src/src/engine/recovery.ts:50-57`. -/
inductive RecoveryOutcome
  | adoptedCommit (commit : String)
  | retryScheduled
  | failed
deriving DecidableEq

/-- `src/src/engine/recovery.ts:50-57`. -/
structure RecoveredAttempt where
  attemptId : String
  stepId : String
  outcome : RecoveryOutcome
deriving DecidableEq

/-- Why an interrupted attempt could not be adopted. `src/src/engine/recovery.ts:306-309`. -/
def interruptionReason (decision : InterruptedAttemptDecision) : String :=
  match decision.blockedReason.or decision.retryReason with
  | some obstacle => s!"The run was interrupted and {obstacle}"
  | none => "The run was interrupted before this attempt settled"

/-- The loop variables of the recovery transaction. -/
structure RecoveryProgress where
  next : WorkflowRunState
  events : List WorkflowEventBody
  recovered : List RecoveredAttempt

/-- Settle one interrupted attempt. `src/src/engine/recovery.ts:268-350`. -/
def recoverAttempt (decide : WorkflowStepAttempt → InterruptedAttemptDecision) (now : Timestamp)
    (progress : RecoveryProgress) (attempt : WorkflowStepAttempt) :
    Except String RecoveryProgress := do
  let decision := decide attempt
  let record ← requireStep progress.next attempt.stepId
  match present decision.commit with
  | some commit =>
    let adopted := updateStepAttempt progress.next attempt.id fun settled =>
      { settled with
        state := .succeeded
        finishedAt := some now.text
        commit := some commit
        evidence := decision.evidence.or settled.evidence
        artifactIds :=
          if decision.artifactIds = [] then settled.artifactIds else some decision.artifactIds }
    let next ← updateStep adopted attempt.stepId fun record => { record with state := .succeeded }
    pure
      { next
        events := progress.events ++ [.stepSucceeded attempt.stepId attempt.id
          (some s!"Adopted commit {commit} created before the interruption")]
        recovered := progress.recovered ++ [⟨attempt.id, attempt.stepId, .adoptedCommit commit⟩] }
  | none =>
    let reason := interruptionReason decision
    let interrupted := updateStepAttempt progress.next attempt.id fun settled =>
      { settled with state := .interrupted, finishedAt := some now.text, error := some reason }
    let budget := (stepRetryPolicy record.definition).maxAttempts
    let retry : Bool := decision.blockedReason = none ∧ attempt.number < budget
    let next ← updateStep interrupted attempt.stepId fun record =>
      if retry then { record with state := .ready }
      else { record with state := .failed, error := some reason }
    pure
      { next
        events := progress.events ++
          [.stepFailed attempt.stepId attempt.id reason (if retry then .retryable else .terminal)
            (if retry then
              s!"the interrupted attempt may run again within its budget of {budget}"
            else "the interrupted attempt cannot safely run again")] ++
          (if retry then
            [.stepRetryScheduled attempt.stepId attempt.id (attempt.number + 1) reason]
          else [])
        recovered := progress.recovered ++
          [⟨attempt.id, attempt.stepId, if retry then .retryScheduled else .failed⟩] }

/-- Give every blocked step another chance; reconciliation blocks it again if it must be.
`src/src/engine/recovery.ts:354-360`. -/
def unblockSteps (state : WorkflowRunState) : WorkflowRunState :=
  { state with
    steps := state.steps.mapValues fun _ record =>
      if record.state = .blocked then { record with state := .planned } else record }

/-- The decision about an attempt that was active when the run was loaded, and the empty one
for any other. `src/src/engine/recovery.ts:254-266,276`. -/
def recoveryDecision (observations : RecoveryObservations) (loaded : WorkflowRunState)
    (attempt : WorkflowStepAttempt) : InterruptedAttemptDecision :=
  match (activeAttempts loaded).find? fun candidate => candidate.id = attempt.id with
  | none => .nothing
  | some candidate =>
    match loaded.steps.get? candidate.stepId with
    | none => .nothing
    | some record => inspectInterruptedAttempt observations record.definition candidate

/-- The status after recovery. `src/src/engine/recovery.ts:361-367`. -/
def recoveredLifecycle (current : WorkflowRunLifecycleState)
    (steps : OrderedRecord String WorkflowStepRecord) : WorkflowRunLifecycleState :=
  if current = .running ∧ steps.values.any (fun record => record.state = .failed) then .failed
  else current

/-- The transaction of `recoverWorkflowRun`, with what it settled. `src/src/engine/recovery.ts:248-377`. -/
def recoverWorkflowRun (decide : WorkflowStepAttempt → InterruptedAttemptDecision) (now : Timestamp)
    (current : WorkflowRunState) : Except String (WorkflowRunState × List RecoveredAttempt) := do
  let progress ← (activeAttempts current).foldlM (recoverAttempt decide now) ⟨current, [], []⟩
  if progress.events = [] then pure (current, progress.recovered)
  else
    let next := unblockSteps progress.next
    let reconciled := reconcileWorkflowSteps next
    pure (appendWorkflowEvents
      { reconciled with
        state := recoveredLifecycle current.state reconciled.steps
        updatedAt := now.text }
      (progress.events ++ blockedStepEvents next reconciled) now, progress.recovered)

end BuildConductor.Engine
