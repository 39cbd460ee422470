import BuildConductor.Security.Freezing
import BuildConductor.Storage.RunRecords

/-!
# The check of a stored run

The whole check a run passes at every read and before every write: its header, the authority it was
frozen under, the history of its plan, its records, and the evidence that makes it ready to merge.
`src/src/storage/run-store.ts:189-1430`.
-/

namespace BuildConductor.Storage.RunStore

open Base Domain Security Git

/-- The text of an absent value. -/
def textOf (value : Option String) : String := value.getD "undefined"

/-! ## Header, authority and plan history -/

/-- `src/src/storage/run-store.ts:206-240`. -/
def validateHeader (run : OrchestrationRun) : Except String Unit := do
  ensure (run.revision ≤ maxSafeInteger) "run.revision must be a non-negative safe integer"
  assertString run.id "run.id"
  ensure (isSafeRunId run.id) s!"Unsafe run id: {run.id}"
  assertRunSecurityPolicy run.securityPolicy "run.securityPolicy"
  assertString run.repositoryRoot "run.repositoryRoot"
  assertString run.baseBranch "run.baseBranch"
  assertString run.baseCommit "run.baseCommit"
  assertString run.integrationBranch "run.integrationBranch"
  assertString run.createdAt "run.createdAt"
  assertString run.updatedAt "run.updatedAt"
  ensure (run.integrationBranch = s!"conductor/{run.id}/integration")
    s!"run.integrationBranch must be conductor/{run.id}/integration"
  ensure (run.integrationBranch ≠ run.baseBranch)
    "run.integrationBranch must differ from run.baseBranch"

/-- A number of workers a run may use. `src/src/storage/run-store.ts:265-273`. -/
def validateWorkerLimit (limit : Nat) (path : String) : Except String Unit :=
  ensure (minConcurrentWorkers ≤ limit ∧ limit ≤ maxConcurrentWorkersLimit)
    s!"{path}.maxConcurrentWorkers must be an integer from {minConcurrentWorkers} to {maxConcurrentWorkersLimit}"

/-- The checks on one plan revision, against those before it.
`src/src/storage/run-store.ts:283-327`. -/
def validatePlanRevision (before : List PlanRevision) (revision : PlanRevision) :
    Except String Unit := do
  let path := s!"run.planRevisions[{before.length}]"
  ensure (revision.number = before.length + 1) s!"{path}.number must be sequential"
  assertString revision.createdAt s!"{path}.createdAt"
  let _ ← validateTaskPlan revision.plan.toJson
  validateWorkerLimit revision.maxConcurrentWorkers path
  match revision.source, revision.restoredFrom with
  | .restored, restoredFrom =>
    ensure (restoredFrom.any fun number => 1 ≤ number ∧ number ≤ maxSafeInteger ∧
        number < revision.number)
      s!"{path}.restoredFrom must reference an earlier plan revision"
  | _, restoredFrom =>
    ensure (restoredFrom = none) s!"{path}.restoredFrom is only valid for restored revisions"

/-- `src/src/storage/run-store.ts:274-340`. -/
def validatePlanHistory (run : OrchestrationRun) (plan : TaskPlan) : Except String Unit := do
  ensure (1 ≤ run.planRevision ∧ run.planRevision ≤ maxSafeInteger)
    "run.planRevision must be a positive safe integer"
  ensure (run.planRevisions ≠ []) "run.planRevisions must be a non-empty array"
  forEachAfter validatePlanRevision [] run.planRevisions
  ensure (run.planRevision = run.planRevisions.length)
    "run.planRevision must identify the latest plan revision"
  ensure (run.planRevisions.getLast?.map (fun latest => (latest.plan, latest.maxConcurrentWorkers)) =
      some (plan, run.maxConcurrentWorkers))
    "run.plan and maxConcurrentWorkers must match the latest plan revision"

/-- The states only an approved run has. `src/src/storage/run-store.ts:359-367`. -/
def requiresApproval : RunState → Bool
  | .running | .integrating | .reviewing | .repairing | .reviewed | .validating | .completed => true
  | .planning | .awaitingApproval | .failed | .cancelled => false

/-- `src/src/storage/run-store.ts:341-376`. -/
def validateApproval (run : OrchestrationRun) : Except String Unit := do
  assertOptionalString run.approvedAt "run.approvedAt"
  ensure (run.approvedAt = none ↔ run.approvedPlanRevision = none)
    "run.approvedAt and run.approvedPlanRevision must appear together"
  ensure (∀ revision ∈ run.approvedPlanRevision, revision = run.planRevision)
    "run.approvedPlanRevision must match the immutable current plan revision"
  ensure (requiresApproval run.state = true → run.approvedPlanRevision ≠ none)
    s!"Run state {run.state.name} requires plan approval"
  ensure (run.state = .planning ∨ run.state = .awaitingApproval → run.approvedPlanRevision = none)
    s!"Run state {run.state.name} cannot already have plan approval"

/-! ## Merge-ready evidence -/

/-- The refs the evidence was gathered at. `src/src/storage/run-store.ts:1062-1090`. -/
def validateEvidenceRefs (run : OrchestrationRun) (evidence : MergeReadyEvidence) :
    Except String Unit := do
  assertString evidence.generatedAt "run.mergeReadyEvidence.generatedAt"
  assertString evidence.integrationBranch "run.mergeReadyEvidence.integrationBranch"
  assertString evidence.integrationHead "run.mergeReadyEvidence.integrationHead"
  assertString evidence.baseBranch "run.mergeReadyEvidence.baseBranch"
  assertString evidence.baseCommit "run.mergeReadyEvidence.baseCommit"
  assertRunSecurityPolicy evidence.securityPolicy "run.mergeReadyEvidence.securityPolicy"
  ensure (evidence.securityPolicy = run.securityPolicy)
    "run.mergeReadyEvidence.securityPolicy must match the immutable run policy"
  ensure (evidence.integrationBranch = run.integrationBranch ∧
      evidence.integrationHead = run.integrationHead ∧ evidence.baseBranch = run.baseBranch ∧
      evidence.baseCommit = run.baseCommit)
    "run.mergeReadyEvidence does not match the run refs"

/-- What git answered about the refs. `src/src/storage/run-store.ts:1103-1136`. -/
def validateEvidenceGit (run : OrchestrationRun) (git : GitVerificationEvidence) :
    Except String Unit := do
  assertString git.verifiedAt "run.mergeReadyEvidence.git.verifiedAt"
  assertString git.integrationBranch "run.mergeReadyEvidence.git.integrationBranch"
  assertString git.integrationHead "run.mergeReadyEvidence.git.integrationHead"
  assertString git.baseBranch "run.mergeReadyEvidence.git.baseBranch"
  assertString git.baseCommit "run.mergeReadyEvidence.git.baseCommit"
  assertString git.userBranch "run.mergeReadyEvidence.git.userBranch"
  assertString git.userHead "run.mergeReadyEvidence.git.userHead"
  ensure (git.integrationBranch = run.integrationBranch ∧
      git.integrationHead = run.integrationHead ∧ git.baseBranch = run.baseBranch ∧
      git.baseCommit = run.baseCommit ∧ git.userBranch = run.baseBranch ∧
      git.userHead = run.baseCommit)
    "run.mergeReadyEvidence.git does not prove untouched refs"

/-- `src/src/storage/run-store.ts:1140-1156`. -/
def validateClaimedCommits (commits : List IntegratedCommitEvidence) : Except String Unit :=
  forM commits.zipIdx fun (commit, index) => do
    assertString commit.integratedCommit
      s!"run.mergeReadyEvidence.commits[{index}].integratedCommit"
    assertString commit.sourceCommit s!"run.mergeReadyEvidence.commits[{index}].sourceCommit"

/-- The last succeeded attempt of a task. `src/src/storage/run-store.ts:1167-1173`. -/
def sourceAttempt (attempts : List TaskAttempt) (attemptIds : List String) : Option TaskAttempt :=
  attempts.reverse.find? fun attempt =>
    attempt.id ∈ attemptIds ∧ attempt.state = .succeeded ∧ attempt.commit ≠ none

/-- The commit a task is merged with. `src/src/storage/run-store.ts:1159-1183`. -/
def expectedTaskCommit (run : OrchestrationRun) (taskId : String) :
    Except String IntegratedCommitEvidence := do
  let task ← require (run.tasks.get? taskId) s!"Missing persisted task {taskId}"
  let sourceCommit ← require ((sourceAttempt run.attempts task.attemptIds).bind (·.commit))
    s!"Task {taskId} lacks source commit evidence"
  pure ⟨.task, taskId, sourceCommit, textOf task.integratedCommit⟩

/-- The commit a repair is merged with. `src/src/storage/run-store.ts:1184-1198`. -/
def expectedRepairCommit (repair : RepairAttempt) : Option IntegratedCommitEvidence :=
  if repair.state = .succeeded then
    match repair.commit, repair.integratedCommit with
    | some commit, some integratedCommit => some ⟨.repair, repair.id, commit, integratedCommit⟩
    | _, _ => none
  else none

/-- `src/src/storage/run-store.ts:1157-1207`. -/
def validateLegacyCommits (run : OrchestrationRun) (order : List String)
    (commits : List IntegratedCommitEvidence) : Except String Unit := do
  let tasks ← order.mapM (expectedTaskCommit run)
  ensure (commits = tasks ++ run.repairAttempts.filterMap expectedRepairCommit)
    "run.mergeReadyEvidence.commits must exactly match integrated task and repair order"

/-- `src/src/storage/run-store.ts:1208-1243`. -/
def validateGitCommits (baseCommit : String) (claimed : List IntegratedCommitEvidence)
    (commits : List GitCommitEvidence) : Except String Unit := do
  let message := "run.mergeReadyEvidence.git.commits must match the exact linear integration chain"
  let hashes := claimed.map (·.integratedCommit)
  ensure (commits.length = hashes.length) message
  forM (commits.zip (hashes.zip (baseCommit :: hashes))).zipIdx fun ((commit, expected), index) => do
    assertString commit.subject s!"run.mergeReadyEvidence.git.commits[{index}].subject"
    ensure (commit.hash = expected.1 ∧ commit.parent = expected.2) message

/-- The succeeded reviews of the last round. `src/src/storage/run-store.ts:1249-1260`. -/
def finalReviewAttempts (run : OrchestrationRun) (round : ReviewRound) : List ReviewAttempt :=
  run.reviewAttempts.filter fun attempt =>
    attempt.round = round.number ∧ attempt.state = .succeeded

/-- What the last round reported for a category. `src/src/storage/run-store.ts:1261-1271`. -/
def expectedFinalReview (attempts : List ReviewAttempt) (category : ReviewCategory) :
    Except String FinalReviewSummary := do
  let summary ← require
    ((attempts.find? fun attempt => attempt.category = category).bind (·.summary))
    s!"run.mergeReadyEvidence is missing the final {category.name} review"
  pure ⟨category, summary⟩

/-- `String.prototype.localeCompare`: whether the left text sorts no later than the right. -/
abbrev LocaleOrder := String → String → Bool

section Evidence

variable (localeCompare : LocaleOrder)

/-- The reviews of a run that kept its own attempts. `src/src/storage/run-store.ts:1248-1293`. -/
def validateLegacyReviews (run : OrchestrationRun) (evidence : MergeReadyEvidence) :
    Except String Unit := do
  let latestRound ← require run.reviewRounds.getLast?
    "run.mergeReadyEvidence requires a completed final review round"
  let attempts := finalReviewAttempts run latestRound
  let reviews ← ReviewCategory.all.mapM (expectedFinalReview attempts)
  ensure (evidence.finalReviews = reviews)
    "run.mergeReadyEvidence.finalReviews must match the final review round"
  let risks := ((attempts.flatMap findingsOf).filter fun finding =>
    finding.status = .deferred).mergeSort fun left right => localeCompare left.id right.id
  ensure (evidence.remainingRisks = risks)
    "run.mergeReadyEvidence.remainingRisks must match deferred findings from the final review round"

/-- The reviews of a run the engine executed. `src/src/storage/run-store.ts:1294-1335`. -/
def validateEngineReviews (evidence : MergeReadyEvidence) : Except String Unit := do
  ensure (evidence.finalReviews.map (·.category) = ReviewCategory.all)
    "run.mergeReadyEvidence.finalReviews must cover every review category in order"
  forM evidence.finalReviews.zipIdx fun (review, index) =>
    assertString review.summary s!"run.mergeReadyEvidence.finalReviews[{index}].summary"
  forM evidence.remainingRisks.zipIdx fun (finding, index) => do
    ensure (finding.status = .deferred)
      "run.mergeReadyEvidence.remainingRisks must contain only deferred findings"
    assertString finding.id s!"run.mergeReadyEvidence.remainingRisks[{index}].id"
  let riskIds := evidence.remainingRisks.map (·.id)
  ensure (riskIds = riskIds.mergeSort localeCompare)
    "run.mergeReadyEvidence.remainingRisks must be sorted by finding id"

/-- The last final validation that passed at the integration head.
`src/src/storage/run-store.ts:1321-1326`. -/
def successfulValidation (run : OrchestrationRun) : Option FinalValidationAttempt :=
  run.finalValidationAttempts.reverse.find? fun attempt =>
    attempt.state = .succeeded ∧ attempt.integrationCommit = run.integrationHead

/-- `src/src/storage/run-store.ts:1054-1338`. -/
def validateMergeReady (run : OrchestrationRun) (order : List String) : Except String Unit :=
  match run.mergeReadyEvidence with
  | none => pure ()
  | some evidence => do
    validateEvidenceRefs run evidence
    validateEvidenceGit run evidence.git
    validateClaimedCommits evidence.commits
    match executionRecord run with
    | .legacy => validateLegacyCommits run order evidence.commits
    | .engine => pure ()
    validateGitCommits run.baseCommit evidence.commits evidence.git.commits
    match executionRecord run with
    | .legacy => validateLegacyReviews localeCompare run evidence
    | .engine => validateEngineReviews localeCompare evidence
    ensure (((successfulValidation run).bind (·.evidence)).map (·.checks) = some evidence.finalChecks)
      "run.mergeReadyEvidence.finalChecks must match passing final validation evidence"

end Evidence

/-- `src/src/storage/run-store.ts:1339-1363`. -/
def validateSettledState (run : OrchestrationRun) : Except String Unit := do
  ensure (run.state = .completed →
      (successfulValidation run).isSome ∧ run.mergeReadyEvidence ≠ none)
    "Completed run requires passing final validation at integrationHead and merge-ready evidence"
  ensure (run.state = .failed ∨ run.state = .cancelled → run.mergeReadyEvidence = none)
    s!"{run.state.name} run cannot have merge-ready evidence"

/-! ## Active work -/

/-- The attempts at tasks that are under way. `src/src/storage/run-store.ts:1364-1366`. -/
def activeTaskAttempts (run : OrchestrationRun) : List TaskAttempt :=
  run.attempts.filter fun attempt => attempt.state.isActive

/-- How many attempts are under way. `src/src/storage/run-store.ts:1367-1371`. -/
def activeAttemptCount (run : OrchestrationRun) : Nat :=
  (activeTaskAttempts run).length +
    (run.reviewAttempts.filter fun attempt => attempt.state.isActive).length +
    (run.repairAttempts.filter fun attempt => attempt.state.isActive).length

/-- The check of one task against its attempts. `src/src/storage/run-store.ts:1388-1410`. -/
def validateActiveTask (run : OrchestrationRun) (taskId : String) (task : RunTask) :
    Except String Unit := do
  ensure (task.state.isRunning = true → taskId ∈ (activeTaskAttempts run).map (·.taskId))
    s!"Active task {taskId} has no active attempt"
  ensure (task.state = .succeeded → task.attemptIds.any fun attemptId =>
      (run.attempts.find? fun attempt => attempt.id = attemptId).map (·.state) = some .succeeded)
    s!"Succeeded task {taskId} has no succeeded committed attempt"

/-- `src/src/storage/run-store.ts:1364-1410`. -/
def validateActiveWork (run : OrchestrationRun) : Except String Unit := do
  ensure (activeAttemptCount run ≤ run.maxConcurrentWorkers)
    "Run has more active attempts than its concurrency limit"
  forM (activeTaskAttempts run) fun attempt =>
    ensure (((activeTaskAttempts run).map (·.taskId)).count attempt.taskId ≤ 1)
      s!"Task {attempt.taskId} has more than one active attempt"
  forM run.tasks.entries fun (taskId, task) => validateActiveTask run taskId task

/-- `src/src/storage/run-store.ts:1411-1423`. -/
def validateUnapproved (run : OrchestrationRun) : Except String Unit :=
  ensure (run.approvedPlanRevision = none →
      run.attempts = [] ∧ run.reviewRounds = [] ∧ run.reviewAttempts = [] ∧
      run.repairAttempts = [] ∧ run.finalValidationAttempts = [] ∧
      run.mergeReadyEvidence = none ∧ run.integrationHead = run.baseCommit)
    "Unapproved run cannot contain execution side effects"

/-- `src/src/storage/run-store.ts:1424-1428`. -/
def validateRequest (request : RunRequest) : Except String Unit := do
  assertString request.sourcePath "run.request.sourcePath"
  assertString request.text "run.request.text"

/-! ## The whole check -/

section Whole

variable (sha256Hex : String → String) (localeCompare : LocaleOrder)

/-- `src/src/storage/run-store.ts:241-264`. -/
def validateAuthority (run : OrchestrationRun) (plan : TaskPlan) : Except String Unit :=
  match run.authority with
  | none => pure ()
  | some stored => do
    let capabilityProfiles ← require run.securityPolicy.workers.capabilityProfiles
      "run.authority requires a security policy that freezes capability profiles"
    let authority ← validateStoredAuthority sha256Hex stored "run.authority"
    let workflowPlan ← readWorkflowPlanDocument plan.toJson
    assertAuthorityConsistencyUnder sha256Hex (some run.securityPolicy) authority run.repositoryRoot
      workflowPlan capabilityProfiles "run.authority"

/-- The checks on the records of a run, once its plan is known. `src/src/storage/run-store.ts:377-1428`. -/
def validateRecords (run : OrchestrationRun) (plan : TaskPlan) (order : List String) :
    Except String Unit := do
  validateTasks run plan
  validateIntegratedTasks run.tasks false order
  validateAttempts run plan
  validateReferences run
  assertString run.integrationHead "run.integrationHead"
  assertOptionalString run.error "run.error"
  validateReviewAttempts run
  validateRepairAttempts run order
  validateBlockedWorkers run
  validateIntegrationHead run order
  validateReviewRounds run
  validateRepairedFindings run
  validateReviewedState run
  validateFinalAttempts run plan
  validateMergeReady localeCompare run order
  validateSettledState run
  validateActiveWork run
  validateUnapproved run
  validateRequest run.request

/-- `src/src/storage/run-store.ts:189-1430`. -/
def validateStoredRun (run : OrchestrationRun) : Except String OrchestrationRun := do
  validateHeader run
  let plan ← validateTaskPlan run.plan.toJson
  validateAuthority sha256Hex run plan
  validateWorkerLimit run.maxConcurrentWorkers "run"
  validatePlanHistory run plan
  validateApproval run
  let order ← topologicalTaskIds plan
  validateRecords localeCompare run plan order
  pure run

end Whole

end BuildConductor.Storage.RunStore
