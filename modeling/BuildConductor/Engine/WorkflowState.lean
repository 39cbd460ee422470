import BuildConductor.Base.OrderedRecord
import BuildConductor.Domain.Artifacts
import BuildConductor.Engine.Workspaces
import BuildConductor.Security.Authority

/-!
# Workflow run state

The durable state of one engine run: its steps, attempts and timeline, how a run is
created, and the updates every transaction is made of.
`src/src/engine/workflow-state.ts`, `src/src/engine/events.ts:17-75`.
-/

namespace BuildConductor.Engine

open Base Domain Security

/-- `src/src/engine/workflow-state.ts:16-23`. -/
inductive StepRunState
  | planned | ready | running | succeeded | failed | blocked | cancelled
deriving DecidableEq, Repr

namespace StepRunState

/-- `TERMINAL_STEP_STATES`. `src/src/engine/workflow-state.ts:31-36`. -/
def isTerminal : StepRunState → Bool
  | succeeded | failed | blocked | cancelled => true
  | planned | ready | running => false

/-- `TERMINAL_STEP_FAILURE_STATES`. `src/src/engine/workflow-state.ts:38-42`. -/
def isTerminalFailure : StepRunState → Bool
  | failed | blocked | cancelled => true
  | planned | ready | running | succeeded => false

/-- A state that waits for its dependencies. -/
def isWaiting : StepRunState → Bool
  | planned | ready => true
  | running | succeeded | failed | blocked | cancelled => false

end StepRunState

/-- `src/src/engine/workflow-state.ts:25-29`. -/
inductive WorkflowRunLifecycleState
  | running | completed | failed | cancelled
deriving DecidableEq, Repr

/-- The name of a step state. -/
def StepRunState.name : StepRunState → String
  | planned => "planned"
  | ready => "ready"
  | running => "running"
  | succeeded => "succeeded"
  | failed => "failed"
  | blocked => "blocked"
  | cancelled => "cancelled"

/-- The name of a run status. -/
def WorkflowRunLifecycleState.name : WorkflowRunLifecycleState → String
  | running => "running"
  | completed => "completed"
  | failed => "failed"
  | cancelled => "cancelled"

/-- `src/src/engine/retry.ts:8`. -/
inductive StepFailureClass
  | retryable | terminal
deriving DecidableEq, Repr

/-- The body of one timeline entry. `src/src/engine/events.ts:20-73`. -/
inductive WorkflowEventBody
  | stepLaunched (stepId attemptId : String) (attemptNumber : Nat)
      (workspaceRequirement : WorkspaceRequirement)
  | stepSucceeded (stepId attemptId : String) (summary : Option String)
  | stepFailed (stepId attemptId error : String) (failureClass : StepFailureClass) (reason : String)
  | stepRetryScheduled (stepId attemptId : String) (nextAttemptNumber : Nat) (reason : String)
  | stepCancelled (stepId : String) (attemptId error : Option String)
  | stepBlocked (stepId : String) (blockedBy : List String)
  | stepAdmitted (stepId proposedBy reason : String)
  | artifactPublished (stepId attemptId artifactId output : String) (artifactKind : ArtifactKind)
      (sizeBytes : Nat)
  | stepIntegrated (stepId : String) (commit : Option String) (integrationHead : String)
  | runCancellationRequested (reason : String)
  | runSettled (state : WorkflowRunLifecycleState) (error : Option String)
deriving DecidableEq, Repr

/-- One timeline entry. `src/src/engine/events.ts:15-18`. -/
structure WorkflowEvent where
  sequence : Nat
  timestamp : String
  body : WorkflowEventBody
deriving DecidableEq, Repr

/-- One execution of one step. `src/src/engine/workflow-state.ts:45-70`. -/
structure WorkflowStepAttempt where
  id : String
  stepId : String
  number : Nat
  state : AttemptState
  workspaceRequirement : WorkspaceRequirement
  workspacePath : String
  branch : Option String
  baseCommit : String
  startedAt : String
  finishedAt : Option String
  summary : Option String
  error : Option String
  workerId : Option String
  commit : Option String
  evidence : Option TaskValidationEvidence
  artifactIds : Option (List String)
  workspaceReleaseError : Option String
deriving DecidableEq, Repr

/-- `src/src/engine/workflow-state.ts:72-83`. -/
structure WorkflowStepRecord where
  definition : StepDefinition
  state : StepRunState
  attemptIds : List String
  integratedCommit : Option String
  integrationError : Option String
  error : Option String
deriving DecidableEq, Repr

/-- `src/src/engine/workflow-state.ts:85-114`. -/
structure WorkflowRunState where
  id : String
  state : WorkflowRunLifecycleState
  plan : WorkflowPlan
  repositoryRoot : String
  baseBranch : String
  baseCommit : String
  integrationBranch : String
  integrationHead : String
  capabilityProfiles : RunCapabilityProfiles
  authority : Option FrozenAuthority
  steps : OrderedRecord String WorkflowStepRecord
  attempts : List WorkflowStepAttempt
  events : List WorkflowEvent
  eventSequence : Nat
  droppedEvents : Nat
  maxConcurrentWorkers : Nat
  error : Option String
  createdAt : String
  updatedAt : String
deriving DecidableEq

/-- `src/src/engine/workflow-state.ts:116-129`. -/
structure CreateWorkflowRunStateInput where
  id : String
  plan : WorkflowPlan
  repositoryRoot : String
  baseBranch : String
  baseCommit : String
  integrationBranch : String
  integrationHead : String
  capabilityProfiles : RunCapabilityProfiles
  authority : Option FrozenAuthority
  maxConcurrentWorkers : Nat
  createdAt : Timestamp

/-- The record a declared step starts with. -/
def initialStepRecord (definition : StepDefinition) : WorkflowStepRecord :=
  { definition
    state := if definition.dependencies = [] then .ready else .planned
    attemptIds := []
    integratedCommit := none
    integrationError := none
    error := none }

/-- `src/src/engine/workflow-state.ts:131-173`. -/
def createWorkflowRunState (input : CreateWorkflowRunStateInput) :
    Except String WorkflowRunState := do
  ensure (1 ≤ input.maxConcurrentWorkers ∧ input.maxConcurrentWorkers ≤ maxSafeInteger)
    "maxConcurrentWorkers must be a positive integer"
  pure
    { id := input.id
      state := .running
      plan := input.plan
      repositoryRoot := input.repositoryRoot
      baseBranch := input.baseBranch
      baseCommit := input.baseCommit
      integrationBranch := input.integrationBranch
      integrationHead := input.integrationHead
      capabilityProfiles := input.capabilityProfiles
      authority := input.authority
      steps := .ofList (input.plan.steps.map fun definition =>
        (definition.id, initialStepRecord definition))
      attempts := []
      events := []
      eventSequence := 0
      droppedEvents := 0
      maxConcurrentWorkers := input.maxConcurrentWorkers
      error := none
      createdAt := input.createdAt.text
      updatedAt := input.createdAt.text }

/-- `src/src/engine/workflow-state.ts:175-184`. -/
def requireStep (state : WorkflowRunState) (stepId : String) : Except String WorkflowStepRecord :=
  require (state.steps.get? stepId) s!"Step disappeared from run state: {stepId}"

/-- Replace one step's record by an update of it. `src/src/engine/workflow-state.ts:193-203`. -/
def updateStep (state : WorkflowRunState) (stepId : String)
    (update : WorkflowStepRecord → WorkflowStepRecord) : Except String WorkflowRunState := do
  let record ← requireStep state stepId
  pure { state with steps := state.steps.set stepId (update record) }

/-- Update every attempt with an id. `src/src/engine/workflow-state.ts:205-216`. -/
def updateStepAttempt (state : WorkflowRunState) (attemptId : String)
    (update : WorkflowStepAttempt → WorkflowStepAttempt) : WorkflowRunState :=
  { state with
    attempts := state.attempts.map fun attempt =>
      if attempt.id = attemptId then update attempt else attempt }

/-- The attempts of one step, oldest first. -/
def attemptsOf (state : WorkflowRunState) (stepId : String) : List WorkflowStepAttempt :=
  state.attempts.filter fun attempt => attempt.stepId = stepId

/-- The attempts still in an active state. -/
def activeAttempts (state : WorkflowRunState) : List WorkflowStepAttempt :=
  state.attempts.filter fun attempt => attempt.state.isActive

/-- A step update succeeds exactly on a recorded step. -/
theorem updateStep_ok_iff {state next : WorkflowRunState} {stepId : String}
    {update : WorkflowStepRecord → WorkflowStepRecord} :
    updateStep state stepId update = .ok next ↔
      ∃ record, state.steps.get? stepId = some record ∧
        next = { state with steps := state.steps.set stepId (update record) } := by
  simp only [updateStep, requireStep, bind_ok_iff, require_ok_iff, pure, Except.pure,
    Except.ok.injEq]
  constructor
  · rintro ⟨record, hrecord, rfl⟩
    exact ⟨record, hrecord, rfl⟩
  · rintro ⟨record, hrecord, rfl⟩
    exact ⟨record, hrecord, rfl⟩

/-! ## Small runs

Builders for the concrete runs that later modules evaluate. -/

/-- A change step that may edit the files under its paths. -/
def changeStep (id : String) (dependencies allowedPaths : List String) : StepDefinition :=
  { id, title := id, description := id, dependencies
    inputs := none, outputs := none, profile := none, capabilities := none, pathLocks := none
    resourceLocks := none, timeoutMs := none, retry := none
    body := .change ["it works"] allowedPaths [⟨"true", []⟩] }

/-- An investigation step: it reads the repository and never commits. -/
def investigationStep (id : String) (dependencies : List String) : StepDefinition :=
  { id, title := id, description := id, dependencies
    inputs := none, outputs := none, profile := none, capabilities := none, pathLocks := none
    resourceLocks := none, timeoutMs := none, retry := none
    body := .investigation ["why"] }

/-- The plan of some steps. -/
def smallPlan (steps : List StepDefinition) : WorkflowPlan := ⟨"plan", steps, [⟨"true", []⟩]⟩

/-- A run of some steps under the default capability profiles. -/
def smallInput (steps : List StepDefinition) (maxConcurrentWorkers : Nat) :
    CreateWorkflowRunStateInput :=
  { id := "run", plan := smallPlan steps, repositoryRoot := "/repo", baseBranch := "main"
    baseCommit := "base", integrationBranch := "integration", integrationHead := "base"
    capabilityProfiles := defaultCapabilityProfiles, authority := none, maxConcurrentWorkers
    createdAt := ⟨"0", by decide⟩ }

/-- The state a small run starts in. -/
def smallRun (steps : List StepDefinition) : WorkflowRunState :=
  { id := "run", state := .running, plan := smallPlan steps, repositoryRoot := "/repo"
    baseBranch := "main", baseCommit := "base", integrationBranch := "integration"
    integrationHead := "base", capabilityProfiles := defaultCapabilityProfiles, authority := none
    steps := .ofList (steps.map fun definition => (definition.id, initialStepRecord definition))
    attempts := [], events := [], eventSequence := 0, droppedEvents := 0
    maxConcurrentWorkers := 2, error := none, createdAt := "0", updatedAt := "0" }

example : createWorkflowRunState (smallInput [changeStep "edit" [] ["src/a"]] 2) =
    .ok (smallRun [changeStep "edit" [] ["src/a"]]) := rfl

/-- A finished or running attempt of a small change step. -/
def smallAttempt (id stepId : String) (number : Nat) (state : AttemptState) (commit : Option String) :
    WorkflowStepAttempt :=
  { id, stepId, number, state, workspaceRequirement := .mutable
    workspacePath := "/worktrees/" ++ id, branch := some ("task/" ++ id), baseCommit := "base"
    startedAt := "1", finishedAt := if state.isActive then none else some "2"
    summary := none, error := none, workerId := none, commit, evidence := none
    artifactIds := none, workspaceReleaseError := none }

end BuildConductor.Engine
