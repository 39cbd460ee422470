import BuildConductor.Base.OrderedRecord
import BuildConductor.Domain.Review
import BuildConductor.Domain.TaskPlans
import BuildConductor.Git.History
import BuildConductor.Security.Authority
import BuildConductor.Security.Policy

/-!
# The stored run

The record a run is approved, executed and finished under. A run the workflow engine executes
keeps its attempts in the workflow snapshot, and its own attempt lists are empty.
`src/src/domain/types.ts:9-41`, `src/src/domain/types.ts:174-473`.
-/

namespace BuildConductor.Domain

open Base Security Git

/-- `src/src/domain/types.ts:9-20`. -/
inductive RunState
  | planning | awaitingApproval | running | integrating | reviewing | repairing | reviewed
  | validating | completed | failed | cancelled
deriving DecidableEq, Repr

/-- `src/src/domain/types.ts:22-30`. -/
inductive TaskState
  | planned | ready | running | validating | succeeded | failed | blocked | cancelled
deriving DecidableEq, Repr

/-- The name a document uses. -/
def RunState.name : RunState → String
  | planning => "planning"
  | awaitingApproval => "awaiting_approval"
  | running => "running"
  | integrating => "integrating"
  | reviewing => "reviewing"
  | repairing => "repairing"
  | reviewed => "reviewed"
  | validating => "validating"
  | completed => "completed"
  | failed => "failed"
  | cancelled => "cancelled"

/-- `src/src/domain/types.ts:174-179`. -/
inductive PlanRevisionSource
  | generated | sidecar | edited | restored | migrated
deriving DecidableEq, Repr

/-- `src/src/domain/types.ts:181-188`. -/
structure PlanRevision where
  number : Nat
  createdAt : String
  source : PlanRevisionSource
  plan : TaskPlan
  maxConcurrentWorkers : Nat
  restoredFrom : Option Nat
deriving DecidableEq, Repr

/-- `src/src/domain/types.ts:190-204`. -/
structure TaskAttempt where
  id : String
  taskId : String
  number : Nat
  state : AttemptState
  branch : String
  worktreePath : String
  baseCommit : String
  workerId : Option String
  startedAt : String
  finishedAt : Option String
  error : Option String
  commit : Option String
  evidence : Option TaskValidationEvidence
deriving DecidableEq, Repr

/-- `src/src/domain/types.ts:206`. -/
inductive WorkerUiMethod
  | select | confirm | input | editor
deriving DecidableEq, Repr

/-- `"task" | "review" | "repair"`. -/
inductive BlockedAttemptKind
  | task | review | repair
deriving DecidableEq, Repr

/-- `src/src/domain/types.ts:244-252`. -/
structure BlockedWorkerState where
  attemptKind : BlockedAttemptKind
  attemptId : String
  workerId : String
  blockedAt : String
  requestId : String
  method : WorkerUiMethod
  timeoutAt : Option String
deriving DecidableEq, Repr

/-- `src/src/domain/types.ts:265-271`. -/
structure RunTask where
  definition : TaskDefinition
  state : TaskState
  attemptIds : List String
  integratedCommit : Option String
  integrationError : Option String
deriving DecidableEq, Repr

/-- `src/src/domain/types.ts:290-301`. -/
structure ReviewFinding where
  id : String
  category : ReviewCategory
  severity : ReviewSeverity
  confidence : ReviewConfidence
  title : String
  description : String
  paths : List String
  recommendation : String
  status : ReviewFindingStatus
  repairAttemptId : Option String
deriving DecidableEq, Repr

/-- `src/src/domain/types.ts:303-319`. -/
structure ReviewAttempt where
  id : String
  round : Nat
  category : ReviewCategory
  number : Nat
  state : AttemptState
  branch : Option String
  worktreePath : String
  baseCommit : String
  workerId : Option String
  startedAt : String
  finishedAt : Option String
  error : Option String
  summary : Option String
  findings : Option (List ReviewFinding)
deriving DecidableEq, Repr

/-- `src/src/domain/types.ts:321-326`. -/
inductive ReviewRoundState
  | running | repairing | succeeded | failed | cancelled
deriving DecidableEq, Repr

/-- `src/src/domain/types.ts:328-337`. -/
structure ReviewRound where
  number : Nat
  state : ReviewRoundState
  baseCommit : String
  attemptIds : List String
  startedAt : String
  finishedAt : Option String
  repairAttemptId : Option String
  error : Option String
deriving DecidableEq, Repr

/-- `src/src/domain/types.ts:339-355`. -/
structure RepairAttempt where
  id : String
  round : Nat
  number : Nat
  state : AttemptState
  findingIds : List String
  branch : String
  worktreePath : String
  baseCommit : String
  workerId : Option String
  startedAt : String
  finishedAt : Option String
  error : Option String
  commit : Option String
  integratedCommit : Option String
  evidence : Option TaskValidationEvidence
deriving DecidableEq, Repr

/-- `src/src/domain/types.ts:357-360`. -/
structure RunRequest where
  sourcePath : String
  text : String
deriving DecidableEq, Repr

/-- `src/src/domain/types.ts:362-367`. -/
inductive FinalValidationAttemptState
  | running | succeeded | failed | cancelled | interrupted
deriving DecidableEq, Repr

/-- `src/src/domain/types.ts:369-374`. -/
structure FinalValidationEvidence where
  startedAt : String
  finishedAt : String
  passed : Bool
  checks : List ValidationCheckEvidence
deriving DecidableEq, Repr

/-- `src/src/domain/types.ts:376-386`. -/
structure FinalValidationAttempt where
  id : String
  number : Nat
  state : FinalValidationAttemptState
  integrationCommit : String
  worktreePath : String
  startedAt : String
  finishedAt : Option String
  error : Option String
  evidence : Option FinalValidationEvidence
deriving DecidableEq, Repr

/-- `src/src/domain/types.ts:401-411`. -/
structure GitVerificationEvidence where
  verifiedAt : String
  integrationBranch : String
  integrationHead : String
  baseBranch : String
  baseCommit : String
  commits : List GitCommitEvidence
  userBranch : String
  userHead : String
deriving DecidableEq, Repr

/-- `src/src/domain/types.ts:413-416`. -/
structure FinalReviewSummary where
  category : ReviewCategory
  summary : String
deriving DecidableEq, Repr

/-- `src/src/domain/types.ts:418-431`. -/
structure MergeReadyEvidence where
  generatedAt : String
  securityPolicy : RunSecurityPolicy
  integrationBranch : String
  integrationHead : String
  baseBranch : String
  baseCommit : String
  commits : List IntegratedCommitEvidence
  finalReviews : List FinalReviewSummary
  remainingRisks : List ReviewFinding
  finalChecks : List ValidationCheckEvidence
  git : GitVerificationEvidence
deriving DecidableEq, Repr

/-- The schema version every run carries is fixed by its type. `src/src/domain/types.ts:433-473`. -/
structure OrchestrationRun where
  revision : Nat
  id : String
  state : RunState
  repositoryRoot : String
  baseBranch : String
  baseCommit : String
  integrationBranch : String
  request : RunRequest
  securityPolicy : RunSecurityPolicy
  authority : Option FrozenAuthority
  plan : TaskPlan
  planRevision : Nat
  planRevisions : List PlanRevision
  approvedPlanRevision : Option Nat
  tasks : OrderedRecord String RunTask
  attempts : List TaskAttempt
  integrationHead : String
  reviewRounds : List ReviewRound
  reviewAttempts : List ReviewAttempt
  repairAttempts : List RepairAttempt
  blockedWorkers : List BlockedWorkerState
  finalValidationAttempts : List FinalValidationAttempt
  mergeReadyEvidence : Option MergeReadyEvidence
  error : Option String
  maxConcurrentWorkers : Nat
  createdAt : String
  updatedAt : String
  approvedAt : Option String
deriving DecidableEq

/-- `MIN_CONCURRENT_WORKERS`. `src/src/domain/types.ts:6`. -/
def minConcurrentWorkers : Nat := 2

/-! ## Small runs -/

/-- A task that declares one path and one check. -/
def smallTask (id : String) (dependencies : List String) (path : String) : TaskDefinition :=
  { id, title := id, description := id, dependencies, acceptanceCriteria := ["it works"]
    allowedPaths := [path], validationCommands := [⟨"true", []⟩] }

/-- A plan of some tasks with one final check. -/
def smallTaskPlan (tasks : List TaskDefinition) : TaskPlan := ⟨"plan", tasks, [⟨"true", []⟩]⟩

/-- An approved run of a plan without an authority, just started. -/
def startedRun (plan : TaskPlan) : OrchestrationRun :=
  { revision := 1, id := "run", state := .running, repositoryRoot := "/repo", baseBranch := "main"
    baseCommit := "base", integrationBranch := "conductor/run/integration"
    request := ⟨"request.md", "do it"⟩
    securityPolicy := configuredPolicy .decline ⟨.none, .host, none⟩
    authority := none, plan, planRevision := 1
    planRevisions := [⟨1, "0", .generated, plan, 2, none⟩], approvedPlanRevision := some 1
    tasks := .ofList (plan.tasks.map fun task => (task.id, ⟨task, .planned, [], none, none⟩))
    attempts := [], integrationHead := "base", reviewRounds := [], reviewAttempts := []
    repairAttempts := [], blockedWorkers := [], finalValidationAttempts := []
    mergeReadyEvidence := none, error := none, maxConcurrentWorkers := 2, createdAt := "0"
    updatedAt := "1", approvedAt := some "1" }

/-- An attempt at a task. -/
def smallTaskAttempt (id taskId : String) (number : Nat) (state : AttemptState)
    (commit : Option String) : TaskAttempt :=
  { id, taskId, number, state, branch := "task/" ++ id, worktreePath := "/worktrees/" ++ id
    baseCommit := "base", workerId := none, startedAt := "1"
    finishedAt := if state.isActive then none else some "2", error := none, commit
    evidence := commit.map fun _ => ⟨"1", "2", true, [], "hash", []⟩ }

end BuildConductor.Domain
