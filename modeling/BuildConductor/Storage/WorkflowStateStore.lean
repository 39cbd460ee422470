import BuildConductor.Domain.StepsNormal
import BuildConductor.Engine.Events
import BuildConductor.Engine.Scheduler

/-!
# The workflow state store

The complete check a stored run passes before the engine may act on it, and the
transaction every write goes through. A typed state already has the field types the
source tests for, so the tests on types leave no trace here; every test on values is
kept, in order. `src/src/storage/workflow-state-store.ts`, `src/src/storage/file-storage.ts`.
-/

namespace BuildConductor.Storage

open Base Domain Security Engine

/-- `src/src/storage/workflow-state-store.ts:97-101`. -/
def assertString (value path : String) : Except String Unit :=
  ensure (value ≠ "") s!"{path} must be a non-empty string"

/-- `src/src/storage/workflow-state-store.ts:103-107`. -/
def assertOptionalString (value : Option String) (path : String) : Except String Unit :=
  ensure (value ≠ some "") s!"{path} must be a non-empty string"

/-- `src/src/storage/workflow-state-store.ts:115-119`. -/
def assertPositiveInteger (value : Nat) (path : String) : Except String Unit :=
  ensure (1 ≤ value ∧ value ≤ maxSafeInteger) s!"{path} must be a positive safe integer"

/-- `src/src/storage/workflow-state-store.ts:121-125`. -/
def assertCountingInteger (value : Nat) (path : String) : Except String Unit :=
  ensure (value ≤ maxSafeInteger) s!"{path} must be a non-negative safe integer"

/-- `SAFE_RUN_ID`. `src/src/storage/workflow-state-store.ts:52`. -/
def isSafeRunId (id : String) : Bool :=
  match id.toList with
  | [] => false
  | c :: rest => c.isAlphanum && rest.all fun d => d.isAlphanum || d = '_' || d = '-'

/-! ## Evidence -/

/-- `src/src/storage/file-storage.ts:141-156`. -/
def validateExecutionBoundary (boundary : ValidationExecutionBoundary) (path : String) :
    Except String Unit :=
  ensure (boundary.sandbox = .nono ↔ boundary.network = .blocked)
    s!"{path}.executionBoundary is invalid"

/-- `src/src/storage/file-storage.ts:85-159`. -/
def validateStoredEvidence (evidence : TaskValidationEvidence) (path : String) :
    Except String Unit := do
  assertString evidence.startedAt s!"{path}.startedAt"
  assertString evidence.finishedAt s!"{path}.finishedAt"
  forM evidence.changedFiles.zipIdx fun (file, index) => do
    assertString file.path s!"{path}.changedFiles[{index}].path"
    assertString file.status s!"{path}.changedFiles[{index}].status"
    assertOptionalString file.previousPath s!"{path}.changedFiles[{index}].previousPath"
  forM evidence.checks.zipIdx fun (check, index) =>
    match check.executionBoundary with
    | none => pure ()
    | some boundary => validateExecutionBoundary boundary s!"{path}.checks[{index}]"

/-! ## Events -/

/-- The integers of an event body. `src/src/storage/workflow-state-store.ts:147-172`. -/
def WorkflowEventBody.integers : WorkflowEventBody → List (String × Nat)
  | .stepLaunched _ _ attemptNumber _ => [("attemptNumber", attemptNumber)]
  | .stepRetryScheduled _ _ nextAttemptNumber _ => [("nextAttemptNumber", nextAttemptNumber)]
  | .artifactPublished _ _ _ _ _ sizeBytes => [("sizeBytes", sizeBytes)]
  | _ => []

/-- `src/src/storage/workflow-state-store.ts:174-227`. -/
def validateEvent (event : WorkflowEvent) (path : String) : Except String Unit := do
  assertPositiveInteger event.sequence s!"{path}.sequence"
  assertString event.timestamp s!"{path}.at"
  forM (WorkflowEventBody.integers event.body) fun (field, value) =>
    assertCountingInteger value s!"{path}.{field}"

/-- The timeline loop, returning the last sequence. `src/src/storage/workflow-state-store.ts:243-256`. -/
def validateTimeline : Nat → Nat → List WorkflowEvent → Except String Nat
  | _, previous, [] => pure previous
  | index, previous, event :: rest => do
    validateEvent event s!"run.events[{index}]"
    ensure (previous < event.sequence)
      s!"run.events[{index}].sequence must increase strictly along the timeline"
    validateTimeline (index + 1) event.sequence rest

/-- `src/src/storage/workflow-state-store.ts:229-270`. -/
def validateStoredEvents (run : WorkflowRunState) : Except String Unit := do
  ensure (run.events.length ≤ maxWorkflowEvents)
    s!"run.events retains {run.events.length} entries; the window is {maxWorkflowEvents}"
  assertCountingInteger run.eventSequence "run.eventSequence"
  assertCountingInteger run.droppedEvents "run.droppedEvents"
  let last ← validateTimeline 0 0 run.events
  ensure (run.eventSequence = run.events.length + run.droppedEvents)
    "run.eventSequence must equal the retained events plus the dropped events"
  ensure (run.events = [] ∨ last = run.eventSequence)
    "run.events must end at the highest assigned sequence"

/-! ## Steps -/

/-- The checks on one step record. `src/src/storage/workflow-state-store.ts:285-324`. -/
def validateStoredStep (run : WorkflowRunState) (definition : StepDefinition) :
    Except String Unit := do
  let path := s!"run.steps.{definition.id}"
  let record ← require (run.steps.get? definition.id) s!"{path} must be an object"
  ensure (record.definition = definition) s!"{path}.definition does not match the plan"
  ensure record.attemptIds.Nodup s!"{path}.attemptIds must be unique"
  assertOptionalString record.integratedCommit s!"{path}.integratedCommit"
  ensure (record.integratedCommit = none ∨ record.integrationError = none)
    s!"{path} cannot have both an integrated commit and an integration error"
  ensure (record.integratedCommit = none ∨ record.state = .succeeded)
    s!"{path} is integrated without having succeeded"
  ensure (record.integratedCommit = none ∨ stepRequiresIntegration run.capabilityProfiles definition)
    s!"{path} is integrated without mutate-repository authority"

/-- `src/src/storage/workflow-state-store.ts:265-319`. -/
def validateStoredSteps (run : WorkflowRunState) (plan : WorkflowPlan) : Except String Unit := do
  ensure (run.steps.keys.length = plan.steps.length)
    "run.steps must contain exactly the plan steps"
  forM plan.steps (validateStoredStep run)

/-! ## Attempts -/

/-- The evidence of an attempt. `src/src/storage/workflow-state-store.ts:395-404`. -/
def validateAttemptEvidence (attempt : WorkflowStepAttempt) (path : String) : Except String Unit :=
  match attempt.evidence with
  | none => pure ()
  | some evidence => do
    validateStoredEvidence evidence s!"{path}.evidence"
    ensure (attempt.commit ≠ none)
      s!"{path}.evidence records checks for a commit this attempt never made"

/-- The checks on one attempt, against the attempts before it.
`src/src/storage/workflow-state-store.ts:338-430`. -/
def validateStoredAttempt (profiles : RunCapabilityProfiles) (plan : WorkflowPlan)
    (before : List WorkflowStepAttempt) (attempt : WorkflowStepAttempt) : Except String Unit := do
  let path := s!"run.attempts[{before.length}]"
  assertString attempt.id s!"{path}.id"
  assertString attempt.stepId s!"{path}.stepId"
  assertString attempt.baseCommit s!"{path}.baseCommit"
  assertString attempt.startedAt s!"{path}.startedAt"
  assertOptionalString attempt.branch s!"{path}.branch"
  assertOptionalString attempt.finishedAt s!"{path}.finishedAt"
  assertOptionalString attempt.commit s!"{path}.commit"
  assertOptionalString attempt.workerId s!"{path}.workerId"
  let definition ← require (plan.steps.find? fun step => step.id = attempt.stepId)
    s!"{path}.stepId references an unknown step"
  assertPositiveInteger attempt.number s!"{path}.number"
  let approved := stepWorkspaceRequirement profiles definition
  ensure (attempt.workspaceRequirement = approved)
    s!"{path}.workspaceRequirement is {attempt.workspaceRequirement.name}, but {
      attempt.stepId} is approved for {approved.name}"
  ensure (attempt.workspacePath = "" ↔ attempt.workspaceRequirement = .none)
    s!"{path}.workspacePath must be empty exactly for a step without a workspace"
  ensure (attempt.branch.isSome ↔ attempt.workspaceRequirement = .mutable)
    s!"{path}.branch must be present exactly for a mutable workspace"
  ensure (attempt.commit = none ∨ attempt.workspaceRequirement = .mutable)
    s!"{path} recorded a commit without a mutable workspace"
  validateAttemptEvidence attempt path
  ensure (attempt.state ≠ .succeeded ∨ (attempt.finishedAt ≠ none ∧ attempt.finishedAt ≠ some ""))
    s!"{path}.finishedAt must be a non-empty string"
  ensure (attempt.id ∉ before.map (·.id)) s!"Duplicate attempt id: {attempt.id}"
  ensure (∀ earlier ∈ before,
      ¬ (earlier.stepId = attempt.stepId ∧ earlier.number = attempt.number))
    s!"Duplicate attempt number {attempt.number} for step {attempt.stepId}"
  ensure (attempt.state.isActive = false ∨
      ∀ earlier ∈ before, earlier.state.isActive → earlier.stepId ≠ attempt.stepId)
    s!"Step {attempt.stepId} has more than one active attempt"

/-- The reference a step holds to one of its attempts. `src/src/storage/workflow-state-store.ts:432-444`. -/
def validateAttemptReference (run : WorkflowRunState) (stepId attemptId : String) :
    Except String Unit :=
  ensure ((run.attempts.find? fun attempt => attempt.id = attemptId).map (·.stepId) = some stepId)
    s!"run.steps.{stepId} references invalid attempt {attemptId}"

/-- `src/src/storage/workflow-state-store.ts:328-461`. -/
def validateStoredAttempts (run : WorkflowRunState) (plan : WorkflowPlan) : Except String Unit := do
  forEachAfter (validateStoredAttempt run.capabilityProfiles plan) [] run.attempts
  forM run.steps.entries fun (stepId, record) =>
    forM record.attemptIds (validateAttemptReference run stepId)
  ensure ((run.steps.values.flatMap (·.attemptIds)).eraseDups.length = run.attempts.length)
    "Every attempt must be referenced by its step"
  let occupied := (activeAttempts run).filter fun attempt =>
    match plan.steps.find? fun step => step.id = attempt.stepId with
    | none => false
    | some definition => stepConsumesWorkerSlot run.capabilityProfiles definition
  ensure (occupied.length ≤ run.maxConcurrentWorkers)
    "Run has more active attempts than its concurrency limit"

/-! ## Integration -/

/-- The integration loop, returning the expected head. `src/src/storage/workflow-state-store.ts:469-490`. -/
def validateIntegratedPrefix (run : WorkflowRunState) (plan : WorkflowPlan) :
    String → Bool → List String → Except String String
  | expectedHead, _, [] => pure expectedHead
  | expectedHead, sawUnintegrated, stepId :: rest =>
    match plan.steps.find? fun step => step.id = stepId, run.steps.get? stepId with
    | some definition, some record =>
      if ¬ stepRequiresIntegration run.capabilityProfiles definition then
        validateIntegratedPrefix run plan expectedHead sawUnintegrated rest
      else
        match record.integratedCommit with
        | none => validateIntegratedPrefix run plan expectedHead true rest
        | some commit => do
          ensure (sawUnintegrated = false)
            s!"Integrated steps must form a deterministic topological prefix; {stepId} is out of order"
          validateIntegratedPrefix run plan commit sawUnintegrated rest
    | _, _ => validateIntegratedPrefix run plan expectedHead sawUnintegrated rest

/-- The checks on one step of a completed run. `src/src/storage/workflow-state-store.ts:505-520`. -/
def validateCompletedStep (run : WorkflowRunState) (plan : WorkflowPlan) (stepId : String)
    (record : WorkflowStepRecord) : Except String Unit := do
  ensure (record.state = .succeeded)
    s!"Completed run cannot contain step {stepId} in state {record.state.name}"
  match plan.steps.find? fun step => step.id = stepId with
  | none => pure ()
  | some definition =>
    ensure (stepRequiresIntegration run.capabilityProfiles definition = false ∨
        record.integratedCommit ≠ none)
      s!"Completed run cannot contain unintegrated step {stepId}"

/-- `src/src/storage/workflow-state-store.ts:463-522`. -/
def validateStoredIntegration (run : WorkflowRunState) (plan : WorkflowPlan) :
    Except String Unit := do
  let expectedHead ←
    validateIntegratedPrefix run plan run.baseCommit false (topologicalStepIds plan)
  ensure (run.integrationHead = expectedHead)
    s!"run.integrationHead must match the last integrated step commit ({expectedHead})"
  ensure ((plan.steps.any (stepRequiresIntegration run.capabilityProfiles)) = false ∨
      run.integrationBranch ≠ run.baseBranch)
    "run.integrationBranch must differ from run.baseBranch when a step may commit"
  if run.state = .completed then
    forM run.steps.entries fun (stepId, record) => validateCompletedStep run plan stepId record
  else pure ()

/-! ## The stored run -/

/-- `src/src/storage/workflow-state-store.ts:87-92`. -/
structure StoredWorkflowRun where
  revision : Nat
  run : WorkflowRunState

variable (sha256Hex : String → String)

/-- The authority checks of a stored run. `src/src/storage/workflow-state-store.ts:562-579`. -/
def validateRunAuthority (run : WorkflowRunState) (plan : WorkflowPlan) : Except String Unit :=
  match run.authority with
  | none => pure ()
  | some stored => do
    let authority ← validateStoredAuthority sha256Hex stored "run.authority"
    assertStoredAuthorityConsistency authority run.repositoryRoot plan run.capabilityProfiles
      "run.authority"

/-- The run part of `validateStoredWorkflowRun`. `src/src/storage/workflow-state-store.ts:540-596`. -/
def validateRun (run : WorkflowRunState) : Except String Unit := do
  assertString run.id "run.id"
  ensure (isSafeRunId run.id) s!"Unsafe run id: {run.id}"
  assertString run.repositoryRoot "run.repositoryRoot"
  assertString run.baseBranch "run.baseBranch"
  assertString run.baseCommit "run.baseCommit"
  assertString run.integrationBranch "run.integrationBranch"
  assertString run.integrationHead "run.integrationHead"
  assertString run.createdAt "run.createdAt"
  assertString run.updatedAt "run.updatedAt"
  let plan ← validateWorkflowPlan run.plan.toJson
  assertCapabilityProfiles run.capabilityProfiles "run.capabilityProfiles"
  validateRunAuthority sha256Hex run plan
  ensure (1 ≤ run.maxConcurrentWorkers ∧ run.maxConcurrentWorkers ≤ maxConcurrentWorkersLimit)
    s!"run.maxConcurrentWorkers must be an integer from 1 to {maxConcurrentWorkersLimit}"
  validateStoredSteps run plan
  validateStoredAttempts run plan
  validateStoredIntegration run plan
  validateStoredEvents run

/-- `src/src/storage/workflow-state-store.ts:531-597`. -/
def validateStoredWorkflowRun (stored : StoredWorkflowRun) : Except String StoredWorkflowRun := do
  assertCountingInteger stored.revision "revision"
  validateRun sha256Hex stored.run
  pure stored

/-- One write of the store: the update of the stored run, checked before it is written. An
update that changes nothing writes nothing. `src/src/storage/workflow-state-store.ts:705-729`. -/
def transaction (mutate : WorkflowRunState → Except String WorkflowRunState)
    (stored : StoredWorkflowRun) : Except String StoredWorkflowRun := do
  let next ← mutate stored.run
  ensure (next.id = stored.run.id) "A transaction must not change the run id"
  if next = stored.run then pure stored
  else do
    assertAuthorityTransition stored.run.authority next.authority
    validateStoredWorkflowRun sha256Hex ⟨stored.revision + 1, next⟩

/-- What the store holds once a transaction has ended: a refused one throws before it writes.
`src/src/storage/workflow-state-store.ts:705-729`. -/
def afterTransaction (mutate : WorkflowRunState → Except String WorkflowRunState)
    (stored : StoredWorkflowRun) : StoredWorkflowRun :=
  match transaction sha256Hex mutate stored with
  | .ok next => next
  | .error _ => stored

/-- A refused update leaves the store as it was. -/
theorem afterTransaction_of_error {mutate : WorkflowRunState → Except String WorkflowRunState}
    {stored : StoredWorkflowRun} {error : String} (h : mutate stored.run = .error error) :
    afterTransaction sha256Hex mutate stored = stored := by
  have hrefused : transaction sha256Hex mutate stored = .error error := by
    unfold transaction
    rw [h]
    rfl
  rw [afterTransaction, hrefused]

/-- A state the store accepts. -/
def Accepts (run : WorkflowRunState) : Prop := validateRun sha256Hex run = .ok ()

/-- The whole check is the check of the revision and of the run. -/
theorem validateStoredWorkflowRun_ok_iff {stored result : StoredWorkflowRun} :
    validateStoredWorkflowRun sha256Hex stored = .ok result ↔
      stored.revision ≤ maxSafeInteger ∧ Accepts sha256Hex stored.run ∧ result = stored := by
  simp only [validateStoredWorkflowRun, assertCountingInteger, seq_ok_iff, ensure_ok_iff, Accepts,
    pure, Except.pure, Except.ok.injEq]
  constructor
  · rintro ⟨hrevision, hrun, rfl⟩
    exact ⟨hrevision, hrun, rfl⟩
  · rintro ⟨hrevision, hrun, rfl⟩
    exact ⟨hrevision, hrun, rfl⟩

end BuildConductor.Storage
