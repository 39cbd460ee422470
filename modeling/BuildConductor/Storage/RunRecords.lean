import BuildConductor.Domain.ArtifactRecords
import BuildConductor.Storage.RunStore

/-!
# The records of a stored run

The checks on the tables of a run that keeps its own attempts: the attempts its tasks name, the
reviews and their findings, the repairs on top of the integrated tasks, the workers that wait, the
review rounds and the final validations. `src/src/storage/run-store.ts:422-1053`.
-/

namespace BuildConductor.Storage.RunStore

open Base Domain

/-! ## Integrated tasks -/

/-- The tasks whose commits are integrated come first. `src/src/storage/run-store.ts:422-435`. -/
def validateIntegratedTasks (tasks : OrderedRecord String RunTask) :
    Bool → List String → Except String Unit
  | _, [] => pure ()
  | foundUnintegratedTask, taskId :: rest =>
    match tasks.get? taskId with
    | none => validateIntegratedTasks tasks foundUnintegratedTask rest
    | some task =>
      if task.integratedCommit = none then validateIntegratedTasks tasks true rest
      else do
        ensure (foundUnintegratedTask = false)
          s!"Integrated tasks must form a deterministic topological prefix; {taskId} is out of order"
        validateIntegratedTasks tasks foundUnintegratedTask rest

/-- The head after the integrated tasks. `src/src/storage/run-store.ts:671-679`. -/
def integratedTasksHead (tasks : OrderedRecord String RunTask) (baseCommit : String)
    (order : List String) : String :=
  order.foldl (fun head taskId =>
    ((tasks.get? taskId).bind (·.integratedCommit)).getD head) baseCommit

/-! ## Attempt references -/

/-- The attempts one task names. `src/src/storage/run-store.ts:506-524`. -/
def validateTaskReferences (attempts : List TaskAttempt) (taskId : String) (task : RunTask) :
    Except String Unit := do
  ensure task.attemptIds.Nodup s!"Task {taskId} has duplicate attempt ids"
  forM task.attemptIds fun attemptId =>
    ensure ((attempts.find? fun attempt => attempt.id = attemptId).map (·.taskId) = some taskId)
      s!"Task {taskId} references invalid attempt {attemptId}"

/-- `src/src/storage/run-store.ts:505-527`. -/
def validateReferences (run : OrchestrationRun) : Except String Unit := do
  forM run.tasks.entries fun (taskId, task) => validateTaskReferences run.attempts taskId task
  ensure ((run.tasks.values.flatMap (·.attemptIds)).dedup.length = run.attempts.length)
    "Every run attempt must be referenced by its task"

/-! ## Reviews -/

/-- The checks on one finding, against the findings before it.
`src/src/storage/run-store.ts:584-636`. -/
def validateFinding (attempt : ReviewAttempt) (path : String) (before : List ReviewFinding)
    (earlier : List String) (finding : ReviewFinding) : Except String Unit := do
  let findingPath := s!"{path}.findings[{before.length}]"
  assertString finding.id s!"{findingPath}.id"
  assertString finding.title s!"{findingPath}.title"
  assertString finding.description s!"{findingPath}.description"
  assertString finding.recommendation s!"{findingPath}.recommendation"
  ensure (finding.category = attempt.category)
    s!"{findingPath}.category must match its review attempt"
  ensure (finding.paths ≠ [] ∧ "" ∉ finding.paths) s!"{findingPath}.paths must be non-empty strings"
  assertOptionalString finding.repairAttemptId s!"{findingPath}.repairAttemptId"
  ensure (finding.id ∉ earlier ++ before.map (·.id)) s!"Duplicate review finding id: {finding.id}"

/-- The findings of an attempt, none when it reported none. -/
def findingsOf (attempt : ReviewAttempt) : List ReviewFinding := attempt.findings.getD []

/-- The checks on one review attempt, against the attempts before it.
`src/src/storage/run-store.ts:537-655`. -/
def validateReviewAttempt (before : List ReviewAttempt) (attempt : ReviewAttempt) :
    Except String Unit := do
  let path := s!"run.reviewAttempts[{before.length}]"
  assertString attempt.id s!"{path}.id"
  assertString attempt.worktreePath s!"{path}.worktreePath"
  assertString attempt.baseCommit s!"{path}.baseCommit"
  assertString attempt.startedAt s!"{path}.startedAt"
  assertOptionalString attempt.branch s!"{path}.branch"
  ensure (1 ≤ attempt.round) s!"{path}.round must be a positive integer"
  ensure (1 ≤ attempt.number) s!"{path}.number must be a positive integer"
  forEachAfter (fun earlier finding => validateFinding attempt path earlier
    ((before.flatMap findingsOf).map (·.id)) finding) [] (findingsOf attempt)
  if attempt.state = .succeeded then do
    assertPresent attempt.finishedAt s!"{path}.finishedAt"
    assertPresent attempt.summary s!"{path}.summary"
    ensure (attempt.findings ≠ none) s!"{path}.findings must be present when succeeded"
  else pure ()
  ensure (attempt.id ∉ before.map (·.id)) s!"Duplicate review attempt id: {attempt.id}"

/-- `src/src/storage/run-store.ts:531-655`. -/
def validateReviewAttempts (run : OrchestrationRun) : Except String Unit :=
  forEachAfter validateReviewAttempt [] run.reviewAttempts

/-- `findingRounds`: every finding with the round it was reported in.
`src/src/storage/run-store.ts:533-536`, `src/src/storage/run-store.ts:637-638`. -/
def findingRounds (attempts : List ReviewAttempt) : List (String × Nat) :=
  attempts.flatMap fun attempt => (findingsOf attempt).map fun finding => (finding.id, attempt.round)

/-! ## Repairs -/

/-- The head after the repairs that were integrated. `src/src/storage/run-store.ts:746`. -/
def repairedHead (tasksHead : String) (attempts : List RepairAttempt) : String :=
  attempts.foldl (fun head attempt => attempt.integratedCommit.getD head) tasksHead

instance lawfulFindingRounds : LawfulBEq (String × Nat) := inferInstance

/-- The checks on one repair, against the repairs before it.
`src/src/storage/run-store.ts:680-757`. -/
def validateRepairAttempt (rounds : List (String × Nat)) (tasksHead : String)
    (before : List RepairAttempt) (attempt : RepairAttempt) : Except String Unit := do
  let path := s!"run.repairAttempts[{before.length}]"
  assertString attempt.id s!"{path}.id"
  assertString attempt.branch s!"{path}.branch"
  assertString attempt.worktreePath s!"{path}.worktreePath"
  assertString attempt.baseCommit s!"{path}.baseCommit"
  assertString attempt.startedAt s!"{path}.startedAt"
  ensure (1 ≤ attempt.round) s!"{path}.round must be a positive integer"
  ensure (1 ≤ attempt.number) s!"{path}.number must be a positive integer"
  ensure (attempt.findingIds ≠ [] ∧ ∀ id ∈ attempt.findingIds, (id, attempt.round) ∈ rounds)
    s!"{path}.findingIds must reference review findings"
  validateCommitEvidence attempt.evidence attempt.commit path
  if attempt.integratedCommit ≠ none then do
    assertPresent attempt.commit s!"{path}.commit"
    ensure (attempt.baseCommit = repairedHead tasksHead before)
      s!"{path}.baseCommit breaks the integration chain"
  else pure ()
  if attempt.state = .succeeded then do
    assertPresent attempt.finishedAt s!"{path}.finishedAt"
    assertPresent attempt.integratedCommit s!"{path}.integratedCommit"
  else pure ()
  ensure (attempt.id ∉ before.map (·.id)) s!"Duplicate repair attempt id: {attempt.id}"

/-- `src/src/storage/run-store.ts:656-758`. -/
def validateRepairAttempts (run : OrchestrationRun) (order : List String) : Except String Unit :=
  forEachAfter (validateRepairAttempt (findingRounds run.reviewAttempts)
    (integratedTasksHead run.tasks run.baseCommit order)) [] run.repairAttempts

/-! ## Waiting workers -/

/-- The worker and the state of the attempt a waiting worker belongs to.
`src/src/storage/run-store.ts:809-822`. -/
def blockedAttempt (run : OrchestrationRun) (blocked : BlockedWorkerState) :
    Option (Option String × AttemptState) :=
  match blocked.attemptKind with
  | .task => (run.attempts.find? fun attempt => attempt.id = blocked.attemptId).map
      fun attempt => (attempt.workerId, attempt.state)
  | .review => (run.reviewAttempts.find? fun attempt => attempt.id = blocked.attemptId).map
      fun attempt => (attempt.workerId, attempt.state)
  | .repair => (run.repairAttempts.find? fun attempt => attempt.id = blocked.attemptId).map
      fun attempt => (attempt.workerId, attempt.state)

/-- The key a waiting request is known by. `src/src/storage/run-store.ts:802`. -/
def blockedRequestKey (blocked : BlockedWorkerState) : String :=
  blocked.workerId ++ "\x00" ++ blocked.requestId

/-- The checks on one waiting worker, against those before it.
`src/src/storage/run-store.ts:763-831`. -/
def validateBlockedWorker (run : OrchestrationRun) (before : List BlockedWorkerState)
    (blocked : BlockedWorkerState) : Except String Unit := do
  let path := s!"run.blockedWorkers[{before.length}]"
  assertString blocked.attemptId s!"{path}.attemptId"
  assertString blocked.workerId s!"{path}.workerId"
  assertString blocked.blockedAt s!"{path}.blockedAt"
  assertString blocked.requestId s!"{path}.requestId"
  assertOptionalString blocked.timeoutAt s!"{path}.timeoutAt"
  ensure (utf16Length blocked.requestId ≤ 256) s!"{path}.requestId exceeds 256 characters"
  ensure (blockedRequestKey blocked ∉ before.map blockedRequestKey)
    s!"Duplicate blocked worker request {blocked.requestId} for {blocked.workerId}"
  let attempt ← require (blockedAttempt run blocked)
    s!"{path}.attemptId references an unknown attempt"
  ensure (attempt.1 = some blocked.workerId) s!"{path}.workerId does not match its attempt"
  ensure (attempt.2.isActive = true) s!"{path} must reference an active attempt"

/-- `src/src/storage/run-store.ts:759-832`. -/
def validateBlockedWorkers (run : OrchestrationRun) : Except String Unit :=
  forEachAfter (validateBlockedWorker run) [] run.blockedWorkers

/-! ## Review rounds -/

/-- Which record proves the execution of a run. `src/src/storage/run-store.ts:661-670`. -/
inductive ExecutionRecord
  | legacy | engine
deriving DecidableEq, Repr

/-- `src/src/storage/run-store.ts:665-670`. -/
def executionRecord (run : OrchestrationRun) : ExecutionRecord :=
  if run.attempts ≠ [] ∨ run.reviewAttempts ≠ [] ∨ run.repairAttempts ≠ [] then .legacy else .engine

/-- `src/src/storage/run-store.ts:833-844`. -/
def validateIntegrationHead (run : OrchestrationRun) (order : List String) : Except String Unit :=
  let expected := repairedHead (integratedTasksHead run.tasks run.baseCommit order) run.repairAttempts
  ensure (executionRecord run = .engine ∨ run.integrationHead = expected)
    s!"run.integrationHead must match integrated task and repair commits ({expected})"

/-- The categories a list of attempts succeeded in. `src/src/storage/run-store.ts:870-889`. -/
def succeededCategories (attempts : List ReviewAttempt) (attemptIds : List String) :
    List ReviewCategory :=
  attemptIds.filterMap fun attemptId =>
    (attempts.find? fun attempt => attempt.id = attemptId).bind fun attempt =>
      if attempt.state = .succeeded then some attempt.category else none

/-- The check on one attempt a round names. `src/src/storage/run-store.ts:871-890`. -/
def validateRoundAttempt (attempts : List ReviewAttempt) (round : ReviewRound) (path : String)
    (before : List String) (attemptId : String) : Except String Unit := do
  let attempt ← require ((attempts.find? fun attempt => attempt.id = attemptId).filter fun attempt =>
      attempt.round = round.number ∧ attempt.baseCommit = round.baseCommit)
    s!"{path} references invalid review attempt {attemptId}"
  ensure (attempt.category ∉ succeededCategories attempts before)
    s!"{path} has duplicate succeeded review categories"

/-- The checks on one round, against the rounds before it. `src/src/storage/run-store.ts:849-911`. -/
def validateReviewRound (run : OrchestrationRun) (before : List ReviewRound) (round : ReviewRound) :
    Except String Unit := do
  let path := s!"run.reviewRounds[{before.length}]"
  ensure (round.number = before.length + 1) s!"{path}.number must be sequential"
  assertString round.baseCommit s!"{path}.baseCommit"
  assertString round.startedAt s!"{path}.startedAt"
  ensure round.attemptIds.Nodup s!"{path}.attemptIds must be a unique array"
  forEachAfter (validateRoundAttempt run.reviewAttempts round path) [] round.attemptIds
  match round.repairAttemptId with
  | none => pure ()
  | some repairAttemptId =>
    ensure ((run.repairAttempts.find? fun repair => repair.id = repairAttemptId).map (·.round) =
      some round.number) s!"{path}.repairAttemptId is invalid"
  ensure (round.state = .succeeded →
      (succeededCategories run.reviewAttempts round.attemptIds).dedup.length =
        ReviewCategory.all.length)
    s!"{path} succeeded without all review categories"

/-- `src/src/storage/run-store.ts:845-916`. -/
def validateReviewRounds (run : OrchestrationRun) : Except String Unit := do
  forEachAfter (validateReviewRound run) [] run.reviewRounds
  ensure ((run.reviewRounds.flatMap (·.attemptIds)).dedup.length = run.reviewAttempts.length)
    "Every review attempt must be referenced by a review round"

/-- A finding counts as repaired once its repair is integrated.
`src/src/storage/run-store.ts:917-937`. -/
def validateRepairedFinding (repairs : List RepairAttempt) (finding : ReviewFinding) :
    Except String Unit :=
  if finding.status ≠ .repaired then pure ()
  else
    ensure ((repairs.find? fun repair => repair.id = finding.repairAttemptId.getD "undefined").any
        fun repair => repair.state = .succeeded ∧ (present repair.integratedCommit).isSome ∧
          finding.id ∈ repair.findingIds)
      s!"Repaired finding {finding.id} must reference an integrated repair attempt"

/-- `src/src/storage/run-store.ts:917-937`. -/
def validateRepairedFindings (run : OrchestrationRun) : Except String Unit :=
  forM (run.reviewAttempts.flatMap findingsOf) (validateRepairedFinding run.repairAttempts)

/-- An important finding no repair settled. `src/src/storage/run-store.ts:948-957`. -/
def isUnresolved (finding : ReviewFinding) : Bool :=
  finding.status = .repairRequired ∨ finding.status = .unresolved

/-- `["reviewed", "validating", "completed"]`. `src/src/storage/run-store.ts:941-944`. -/
def isReviewedState : RunState → Bool
  | .reviewed | .validating | .completed => true
  | .planning | .awaitingApproval | .running | .integrating | .reviewing | .repairing | .failed
  | .cancelled => false

/-- `src/src/storage/run-store.ts:938-960`. -/
def validateReviewedState (run : OrchestrationRun) : Except String Unit :=
  if executionRecord run = .legacy ∧ isReviewedState run.state then do
    ensure (run.reviewRounds.getLast?.map (·.state) = some .succeeded)
      "Reviewed run must have a succeeded final review round"
    ensure (∀ finding ∈ run.reviewAttempts.flatMap findingsOf, isUnresolved finding = false)
      "Reviewed run cannot contain unresolved important findings"
  else pure ()

/-! ## Final validation -/

/-- The evidence is that of the approved commands, all passed, in order.
`src/src/storage/run-store.ts:1013-1033`. -/
def provesCommands (commands : List ValidationCommand) (checks : List ValidationCheckEvidence) : Bool :=
  checks.length = commands.length ∧
    (checks.zip commands).all fun (check, command) =>
      check.passed ∧ check.command = command.command ∧ check.args = command.args

/-- The evidence of a final validation. `src/src/storage/run-store.ts:991-1010`. -/
def validateFinalEvidence (evidence : FinalValidationEvidence) (path : String) :
    Except String Unit := do
  assertString evidence.startedAt s!"{path}.evidence.startedAt"
  assertString evidence.finishedAt s!"{path}.evidence.finishedAt"
  validateStoredEvidence
    ⟨evidence.startedAt, evidence.finishedAt, evidence.passed, [], "", evidence.checks⟩
    s!"{path}.evidence"

/-- The checks on one final validation, against those before it.
`src/src/storage/run-store.ts:965-1041`. -/
def validateFinalAttempt (commands : List ValidationCommand) (before : List FinalValidationAttempt)
    (attempt : FinalValidationAttempt) : Except String Unit := do
  let path := s!"run.finalValidationAttempts[{before.length}]"
  assertString attempt.id s!"{path}.id"
  assertString attempt.integrationCommit s!"{path}.integrationCommit"
  assertString attempt.worktreePath s!"{path}.worktreePath"
  assertString attempt.startedAt s!"{path}.startedAt"
  ensure (attempt.number = before.length + 1) s!"{path}.number must be sequential"
  assertOptionalString attempt.finishedAt s!"{path}.finishedAt"
  assertOptionalString attempt.error s!"{path}.error"
  match attempt.evidence with
  | none => pure ()
  | some evidence => validateFinalEvidence evidence path
  if attempt.state = .succeeded then do
    assertPresent attempt.finishedAt s!"{path}.finishedAt"
    ensure (attempt.evidence.map (·.passed) = some true) s!"{path} succeeded without passing evidence"
    ensure (attempt.evidence.any fun evidence => provesCommands commands evidence.checks)
      s!"{path} evidence must match every approved final validation command in order"
  else pure ()
  ensure (attempt.id ∉ before.map (·.id)) s!"Duplicate final validation attempt id: {attempt.id}"

/-- `runningFinalAttempts`. `src/src/storage/run-store.ts:1042-1044`. -/
def runningFinalAttempts (run : OrchestrationRun) : List FinalValidationAttempt :=
  run.finalValidationAttempts.filter fun attempt => attempt.state = .running

/-- `src/src/storage/run-store.ts:961-1053`. -/
def validateFinalAttempts (run : OrchestrationRun) (plan : TaskPlan) : Except String Unit := do
  forEachAfter (validateFinalAttempt plan.finalValidationCommands) [] run.finalValidationAttempts
  ensure ((runningFinalAttempts run).length ≤ 1)
    "Run cannot have more than one active final validation attempt"
  ensure (run.state = .validating ↔ (runningFinalAttempts run).length = 1)
    "Validating run state must have exactly one running final validation attempt"

end BuildConductor.Storage.RunStore
