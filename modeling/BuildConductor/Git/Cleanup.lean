import BuildConductor.Domain.Runs
import BuildConductor.Git.Repository

/-!
# Cleaning up after a run

The two passes that remove the worktrees and branches a run left behind: one for every run, which
keeps what attempts still need, and one for ended runs. `src/src/git/worktrees.ts:97-137,344-658`.
-/

namespace BuildConductor.Git

open Base Domain

/-- `src/src/git/worktrees.ts:65-71`. -/
structure ResourceReconciliationReport where
  removedWorktrees : List String
  removedBranches : List String
  retainedDirtyWorktrees : List String
  retainedUnexpectedWorktrees : List String
  retainedUnexpectedBranches : List String
deriving DecidableEq, Repr

/-- A report of nothing. -/
def ResourceReconciliationReport.empty : ResourceReconciliationReport := ⟨[], [], [], [], []⟩

/-- `GitWorktreeManager`. `src/src/git/worktrees.ts:99-107`. -/
structure WorktreeManager where
  machine : Machine
  worktreeRoot : String
  legacyWorktreeRoot : Option String

namespace WorktreeManager

variable (manager : WorktreeManager)

/-- `src/src/git/worktrees.ts:127-137`. -/
def canonicalPath (path : String) : String :=
  let target := manager.machine.resolve path
  let canonicalRoot := canonicalizeExistingPrefix manager.machine manager.worktreeRoot
  let fromRoot := relativePath (manager.machine.resolve manager.worktreeRoot) target
  if fromRoot = "" then canonicalRoot
  else if !leavesRoot fromRoot && !posixIsAbsolute fromRoot then joinPaths [canonicalRoot, fromRoot]
  else canonicalizeExistingPrefix manager.machine target

/-- `src/src/git/worktrees.ts:117-125`. -/
def canonicalRunRoots (runId : String) : List String :=
  manager.canonicalPath (joinPaths [manager.worktreeRoot, runId]) ::
    (manager.legacyWorktreeRoot.map fun root =>
      canonicalizeExistingPrefix manager.machine (joinPaths [root, runId])).toList

/-- The states of attempts whose worktrees are kept. -/
def keepsWorktree (state : AttemptState) : Bool :=
  state ∈ [.prepared, .launched, .running, .validating, .failed]

/-- The branch names of a run start with this. -/
def branchesOf (run : OrchestrationRun) : String := s!"conductor/{run.id}/"

/-- The commits a run recorded as starting points. `src/src/git/worktrees.ts:521-542`. -/
def safeStartPoints (run : OrchestrationRun) : List String :=
  run.baseCommit :: run.integrationHead :: run.reviewRounds.map (·.baseCommit) ++
    run.attempts.map (·.baseCommit) ++ run.reviewAttempts.map (·.baseCommit) ++
    run.repairAttempts.map (·.baseCommit)

/-- The branches the first pass never deletes. `src/src/git/worktrees.ts:520,527,538`. -/
def protectedBranches (run : OrchestrationRun) : List String :=
  run.integrationBranch :: run.attempts.map (·.branch) ++
    run.reviewAttempts.filterMap (·.branch) ++ run.repairAttempts.map (·.branch)

/-- The worktrees of attempts the first pass keeps. `src/src/git/worktrees.ts:526-556`. -/
def retainedPaths (run : OrchestrationRun) : List String :=
  ((run.attempts.filter fun attempt => keepsWorktree attempt.state).map (·.worktreePath) ++
    (run.reviewAttempts.filter fun attempt => keepsWorktree attempt.state).map (·.worktreePath) ++
    (run.repairAttempts.filter fun attempt => keepsWorktree attempt.state).map (·.worktreePath) ++
    (run.finalValidationAttempts.filter fun attempt =>
      attempt.state = .running || attempt.state = .failed).map (·.worktreePath)).map
    manager.canonicalPath

/-- Where the integration of a run keeps its scratch worktrees.
`src/src/git/worktrees.ts:562-569`. -/
def integrationScratch (run : OrchestrationRun) : String :=
  let scratch :=
    integrationScratchDirectoryPrefix manager.machine run.repositoryRoot run.integrationBranch
  joinPaths [manager.canonicalPath (dirname scratch), basename scratch]

/-- The path is the worktree of a scratch directory. `src/src/git/worktrees.ts:572-577`. -/
def isIntegrationScratch (run : OrchestrationRun) (target : String) : Bool :=
  target = joinPaths [dirname target, "worktree"] &&
    startsWith (dirname target) (manager.integrationScratch run)

/-- `/^attempt-[1-9][0-9]*$/.test(name)`. -/
def isAttemptDirectory (name : List Char) : Bool :=
  match name.drop 8 with
  | first :: rest =>
    name.take 8 = "attempt-".toList && first ≠ '0' && (first :: rest).all Char.isDigit
  | [] => false

/-- The worktree is a detached one of a final validation. `src/src/git/worktrees.ts:586-592`. -/
def isDetachedFinalValidation (runRoot target : String) (worktree : GitWorktreeInfo) : Bool :=
  worktree.branch = none &&
    match (relativePath runRoot target).toList.splitBy fun _ c => c ≠ '/' && c ≠ '\\' with
    | [first, separator :: name] => first = "final-validation".toList &&
        (separator = '/' || separator = '\\') && isAttemptDirectory name
    | _ => false

/-- The worktree is removed unless Git refuses. -/
def removeReported (target : String) (report : ResourceReconciliationReport) :
    GitCommand ResourceReconciliationReport := do
  if ← Effect.attempt (removeWorktree manager.machine target false) then
    pure { report with removedWorktrees := report.removedWorktrees ++ [target] }
  else
    pure { report with retainedUnexpectedWorktrees := report.retainedUnexpectedWorktrees ++ [target] }

/-- The branch is deleted unless Git refuses. -/
def deleteReported (branch expectedHead : String) (report : ResourceReconciliationReport) :
    GitCommand ResourceReconciliationReport := do
  if ← Effect.attempt (deleteBranch manager.machine branch expectedHead) then
    pure { report with removedBranches := report.removedBranches ++ [branch] }
  else
    pure { report with retainedUnexpectedBranches := report.retainedUnexpectedBranches ++ [branch] }

/-- A worktree that is clean and where it is expected is removed. -/
def removeClean (target : String) (isExpected : Bool) (report : ResourceReconciliationReport) :
    GitCommand ResourceReconciliationReport := do
  let status ← Effect.lift (manager.machine.status target)
  if status ≠ "" then
    pure { report with retainedDirtyWorktrees := report.retainedDirtyWorktrees ++ [target] }
  else if isExpected then manager.removeReported target report
  else
    pure { report with retainedUnexpectedWorktrees := report.retainedUnexpectedWorktrees ++ [target] }

/-- One worktree of the first pass. `src/src/git/worktrees.ts:570-617`. -/
def reconcileWorktree (run : OrchestrationRun) (report : ResourceReconciliationReport)
    (worktree : GitWorktreeInfo) : GitCommand ResourceReconciliationReport := do
  let target := manager.machine.resolve worktree.path
  if manager.isIntegrationScratch run target then do
    removeWorktree manager.machine target true
    removeDirectory manager.machine (dirname target)
    pure { report with removedWorktrees := report.removedWorktrees ++ [target] }
  else
    let runRoot := (manager.canonicalRunRoots run.id).find? fun root =>
      isPathInside manager.machine.workingDirectory root target
    match runRoot with
    | none => pure report
    | some runRoot =>
      let isOwnedBranch := worktree.branch.any fun branch => startsWith branch (branchesOf run)
      if target ∈ manager.retainedPaths run ∨
          (isOwnedBranch = false ∧ isDetachedFinalValidation runRoot target worktree = false) ∨
          worktree.prunable then pure report
      else manager.removeClean target (worktree.head ∈ safeStartPoints run) report

/-- The branches checked out in some worktree. -/
def checkedOutBranches (worktrees : List GitWorktreeInfo) : List String :=
  worktrees.filterMap (·.branch)

/-- One branch of the first pass. `src/src/git/worktrees.ts:626-650`. -/
def reconcileBranch (run : OrchestrationRun) (checkedOut : List String)
    (report : ResourceReconciliationReport) (branch : String × String) :
    GitCommand ResourceReconciliationReport :=
  if branch.1 = run.integrationBranch ∨ branch.1 ∈ protectedBranches run ∨ branch.1 ∈ checkedOut then
    pure report
  else if branch.2 ∉ safeStartPoints run then
    pure { report with
      retainedUnexpectedBranches := report.retainedUnexpectedBranches ++ [branch.1] }
  else manager.deleteReported branch.1 branch.2 report

/-- The first pass. `src/src/git/worktrees.ts:503-658`. -/
def reconcileRunResources (run : OrchestrationRun) : GitCommand ResourceReconciliationReport := do
  let worktrees ← Effect.read (·.worktrees)
  let report ← worktrees.foldlM (manager.reconcileWorktree run) .empty
  pruneWorktrees
  let remaining ← Effect.read (·.worktrees)
  let branches ← Effect.read (·.listBranches (branchesOf run))
  branches.foldlM (manager.reconcileBranch run (checkedOutBranches remaining)) report

/-- Where the worktrees of an ended run are expected to be. `src/src/git/worktrees.ts:363-403`. -/
def expectedWorktreeHeads (run : OrchestrationRun) : OrderedRecord String String :=
  .ofList (run.attempts.map (fun attempt =>
      (manager.canonicalPath attempt.worktreePath, attempt.commit.getD attempt.baseCommit)) ++
    run.reviewAttempts.map (fun attempt =>
      (manager.canonicalPath attempt.worktreePath, attempt.baseCommit)) ++
    run.repairAttempts.map (fun attempt =>
      (manager.canonicalPath attempt.worktreePath, attempt.commit.getD attempt.baseCommit)) ++
    run.finalValidationAttempts.map fun attempt =>
      (manager.canonicalPath attempt.worktreePath, attempt.integrationCommit))

/-- The branches of an ended run that hold no work. `src/src/git/worktrees.ts:364-396`. -/
def deletableBranchHeads (run : OrchestrationRun) : OrderedRecord String String :=
  .ofList ((run.attempts.filter (·.commit.isNone)).map (fun attempt =>
      (attempt.branch, attempt.baseCommit)) ++
    run.reviewAttempts.filterMap (fun attempt =>
      attempt.branch.map fun branch => (branch, attempt.baseCommit)) ++
    (run.repairAttempts.filter (·.commit.isNone)).map fun attempt =>
      (attempt.branch, attempt.baseCommit))

/-- A head a record expects; an empty one counts as none. -/
def expectedHead? (heads : OrderedRecord String String) (key : String) : Option String :=
  (heads.get? key).filter (· ≠ "")

/-- One worktree of the second pass. `src/src/git/worktrees.ts:408-432`. -/
def pruneWorktree (run : OrchestrationRun) (report : ResourceReconciliationReport)
    (worktree : GitWorktreeInfo) : GitCommand ResourceReconciliationReport :=
  let target := manager.machine.resolve worktree.path
  if (manager.canonicalRunRoots run.id).any fun root =>
      isPathInside manager.machine.workingDirectory root target then
    match expectedHead? (manager.expectedWorktreeHeads run) target with
    | none => pure report
    | some expectedHead => manager.removeClean target (worktree.head = expectedHead) report
  else pure report

/-- One branch of the second pass. `src/src/git/worktrees.ts:441-470`. -/
def pruneBranch (run : OrchestrationRun) (checkedOut : List String)
    (report : ResourceReconciliationReport) (branch : String × String) :
    GitCommand ResourceReconciliationReport :=
  if branch.1 = run.integrationBranch ∨ branch.1 ∈ checkedOut then pure report
  else
    match expectedHead? (deletableBranchHeads run) branch.1 with
    | none => pure report
    | some expectedHead =>
      if branch.2 ≠ expectedHead then
        pure { report with
          retainedUnexpectedBranches := report.retainedUnexpectedBranches ++ [branch.1] }
      else manager.deleteReported branch.1 expectedHead report

/-- The reports of both passes; what one of them removed is not retained.
`src/src/git/worktrees.ts:471-500`. -/
def mergeReports (first second : ResourceReconciliationReport) : ResourceReconciliationReport :=
  let removedWorktrees := (first.removedWorktrees ++ second.removedWorktrees).eraseDups
  let removedBranches := (first.removedBranches ++ second.removedBranches).eraseDups
  { removedWorktrees, removedBranches
    retainedDirtyWorktrees :=
      (first.retainedDirtyWorktrees ++ second.retainedDirtyWorktrees).eraseDups.filter
        (· ∉ removedWorktrees)
    retainedUnexpectedWorktrees :=
      (first.retainedUnexpectedWorktrees ++ second.retainedUnexpectedWorktrees).eraseDups.filter
        (· ∉ removedWorktrees)
    retainedUnexpectedBranches :=
      (first.retainedUnexpectedBranches ++ second.retainedUnexpectedBranches).eraseDups.filter
        (· ∉ removedBranches) }

/-- Both passes, for a run that ended. `src/src/git/worktrees.ts:344-501`. -/
def pruneRunResources (run : OrchestrationRun) : GitCommand ResourceReconciliationReport := do
  Effect.lift (ensure (run.state ∈ [.completed, .failed, .cancelled])
    s!"Cannot prune resources for non-terminal run {run.id}")
  let orphanReport ← manager.reconcileRunResources run
  let worktrees ← Effect.read (·.worktrees)
  let report ← worktrees.foldlM (manager.pruneWorktree run) .empty
  pruneWorktrees
  let remaining ← Effect.read (·.worktrees)
  let branches ← Effect.read (·.listBranches (branchesOf run))
  let report ← branches.foldlM (manager.pruneBranch run (checkedOutBranches remaining)) report
  pure (mergeReports orphanReport report)

end WorktreeManager

end BuildConductor.Git
