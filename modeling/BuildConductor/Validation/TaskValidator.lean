import BuildConductor.Domain.Paths
import BuildConductor.Domain.TaskPlans
import BuildConductor.Git.TaskCommits
import BuildConductor.Security.Capabilities
import BuildConductor.Validation.Suites

/-!
# Focused validation

What a worker left behind is checked against the authority of its task, then by the commands of the
task, and must be the same before and after them. `src/src/validation/task-validator.ts`.
-/

namespace BuildConductor.Validation

open Base Domain Git Security

/-- `src/src/validation/task-validator.ts:16-27`. -/
structure TaskValidationInput where
  allowedPaths : List String
  validationCommands : List ValidationCommand
  branch : String
  baseCommit : String
  securityPolicy : Option RunSecurityPolicy
  withheldPaths : List String

/-- What happens while a task is validated. -/
structure TaskValidationReading where
  /-- The message of the signal, when it is aborted before anything. -/
  aborted : Option String
  before : WorktreeReading
  diffCheck : Except String Unit
  suite : SuiteReading
  after : WorktreeReading
  startedAt : String
  diffStartedAt : String
  diffFinishedAt : String
  finishedAt : String

/-- How a validation ends. A failure keeps its evidence, and whether its cause is a breach of the
frozen capabilities. -/
inductive TaskValidationAnswer
  | passed (snapshot : TaskWorktreeSnapshot) (evidence : TaskValidationEvidence)
  | failed (message : String) (evidence : TaskValidationEvidence) (breach : Bool)
  | thrown (message : String)

/-- The names of some paths, once each. -/
def distinctNames (paths : List String) : String := joinNames paths.eraseDups

section Scope

variable (input : TaskValidationInput)

/-- The boundary of the frozen change profile, when there is one.
`src/src/validation/task-validator.ts:119-125`. -/
def assertMutationBoundary (snapshot : TaskWorktreeSnapshot) : Except String Unit :=
  match input.securityPolicy.bind fun policy => policy.workers.capabilityProfiles with
  | none => pure ()
  | some profiles =>
    assertCapabilityBoundary profiles.change (snapshot.changedFiles.map (·.path))

/-- Every changed path is approved, and none is withheld.
`src/src/validation/task-validator.ts:126-147`. -/
def assertApprovedScope (snapshot : TaskWorktreeSnapshot) : Except String Unit := do
  let changed := changedPaths snapshot.changedFiles
  let outOfScope := changed.filter fun path => !pathIsAllowed path input.allowedPaths
  ensure (outOfScope = [])
    s!"Task changed paths outside its approved scope: {distinctNames outOfScope}"
  let withheld := changed.filter fun path => pathIsAllowed path input.withheldPaths
  ensure (withheld = [])
    s!"Task changed paths the approved envelope withholds: {distinctNames withheld}"

end Scope

section Validate

variable (localeCompare : String → String → Bool) (commandTimeoutMs : Nat)
  (input : TaskValidationInput) (reading : TaskValidationReading)

/-- The evidence of some checks of a snapshot. -/
def taskEvidence (snapshot : Option TaskWorktreeSnapshot) (checks : List ValidationCheckEvidence)
    (passed : Bool) : TaskValidationEvidence where
  startedAt := reading.startedAt
  finishedAt := reading.finishedAt
  passed
  changedFiles := (snapshot.map (·.changedFiles)).getD []
  diffHash := (snapshot.map (·.diffHash)).getD ""
  checks

/-- The check of `git diff --check`. `src/src/validation/task-validator.ts:165-184`. -/
def diffCheckEvidence (stderrTail : String) (passed : Bool) : ValidationCheckEvidence where
  command := "git"
  args := ["diff", "--check", input.baseCommit, "--"]
  startedAt := reading.diffStartedAt
  finishedAt := reading.diffFinishedAt
  exitCode := some (if passed then 0 else 1)
  stdoutTail := ""
  stderrTail
  passed
  executionBoundary := none

/-- How the focused validation words its failures. Nothing is looked at between its commands. -/
def taskSuiteRules : SuiteRules where
  aborted := "Validation aborted"
  timedOut := s!"Validation command timed out after {commandTimeoutMs}ms"
  failed := "Validation command failed"
  afterCommand _ _ := .ok ()

/-- The worktree is looked at again behind the commands. `src/src/validation/task-validator.ts:217-245`. -/
def settleValidation (snapshot : TaskWorktreeSnapshot) (checks : List ValidationCheckEvidence) :
    TaskValidationAnswer :=
  match inspectTaskWorktree localeCompare reading.after input.branch input.baseCommit with
  | .error _ =>
    .failed "Task worktree could not be re-inspected after validation"
      (taskEvidence reading (some snapshot) checks false) false
  | .ok finalSnapshot =>
    if finalSnapshot = snapshot then
      .passed snapshot (taskEvidence reading (some snapshot) checks true)
    else
      .failed "Validation commands modified the task worktree"
        (taskEvidence reading (some snapshot) checks false) false

/-- The checks of a snapshot that is in scope. `src/src/validation/task-validator.ts:164-245`. -/
def checkSnapshot (snapshot : TaskWorktreeSnapshot) : TaskValidationAnswer :=
  match reading.diffCheck with
  | .error message =>
    .failed "git diff --check failed"
      (taskEvidence reading (some snapshot) [diffCheckEvidence input reading message false] false)
      false
  | .ok () =>
    match runCommands (taskSuiteRules commandTimeoutMs)
        (input.securityPolicy.map (·.validation)) reading.suite 0
        [diffCheckEvidence input reading "" true] input.validationCommands with
    | .error (.thrown message) => .thrown message
    | .error (.failed message checks) =>
      .failed message (taskEvidence reading (some snapshot) checks false) false
    | .ok checks => settleValidation localeCompare input reading snapshot checks

/-- `src/src/validation/task-validator.ts:94-245`. -/
def validateTask : TaskValidationAnswer :=
  match reading.aborted with
  | some message => .failed message (taskEvidence reading none [] false) false
  | none =>
    match inspectTaskWorktree localeCompare reading.before input.branch input.baseCommit with
    | .error message => .failed message (taskEvidence reading none [] false) false
    | .ok snapshot =>
      match assertMutationBoundary input snapshot with
      | .error message => .failed message (taskEvidence reading (some snapshot) [] false) true
      | .ok () =>
        match assertApprovedScope input snapshot with
        | .error message => .failed message (taskEvidence reading (some snapshot) [] false) false
        | .ok () => checkSnapshot localeCompare commandTimeoutMs input reading snapshot

end Validate

/-! ## What a validation allows -/

/-- Some changes within the authority of a task. -/
structure InScope (input : TaskValidationInput) (changed : List String) : Prop where
  allowed : ∀ path ∈ changed, pathIsAllowed path input.allowedPaths = true
  kept : ∀ path ∈ changed, pathIsAllowed path input.withheldPaths = false
  mutating : ∀ policy profiles, input.securityPolicy = some policy →
    policy.workers.capabilityProfiles = some profiles →
      StepCapability.mutateRepository ∈ profiles.change.capabilities

theorem assertApprovedScope_ok_iff {input : TaskValidationInput} {snapshot : TaskWorktreeSnapshot} :
    assertApprovedScope input snapshot = .ok () ↔
      (∀ path ∈ changedPaths snapshot.changedFiles, pathIsAllowed path input.allowedPaths = true) ∧
        ∀ path ∈ changedPaths snapshot.changedFiles,
          pathIsAllowed path input.withheldPaths = false := by
  unfold assertApprovedScope
  rw [seq_ok_iff, ensure_ok_iff, ensure_ok_iff, List.filter_eq_nil_iff, List.filter_eq_nil_iff]
  simp only [Bool.not_eq_true, Bool.not_eq_false']

/-- The evidence of a validation that passed. -/
structure Proves (input : TaskValidationInput) (snapshot : TaskWorktreeSnapshot)
    (evidence : TaskValidationEvidence) : Prop where
  passed : evidence.passed = true
  changedFiles : evidence.changedFiles = snapshot.changedFiles
  diffHash : evidence.diffHash = snapshot.diffHash
  checks : ∃ diffCheck suite, evidence.checks = diffCheck :: suite ∧
    diffCheck.command = "git" ∧ diffCheck.args = ["diff", "--check", input.baseCommit, "--"] ∧
    diffCheck.passed = true ∧
    List.Forall₂ (fun command check =>
      Records (input.securityPolicy.map (·.validation)) command check ∧ check.passed = true)
      input.validationCommands suite

/-- A validation that passed saw changes in scope, the same before and after its checks, and every
check passed. -/
theorem validateTask_passed {localeCompare : String → String → Bool} {commandTimeoutMs : Nat}
    {input : TaskValidationInput} {reading : TaskValidationReading} {snapshot : TaskWorktreeSnapshot}
    {evidence : TaskValidationEvidence}
    (h : validateTask localeCompare commandTimeoutMs input reading = .passed snapshot evidence) :
    inspectTaskWorktree localeCompare reading.before input.branch input.baseCommit = .ok snapshot ∧
      inspectTaskWorktree localeCompare reading.after input.branch input.baseCommit = .ok snapshot ∧
      InScope input (changedPaths snapshot.changedFiles) ∧ Proves input snapshot evidence := by
  unfold validateTask at h
  split at h
  · cases h
  split at h
  · cases h
  next found hbefore =>
  split at h
  · cases h
  next hboundary =>
  split at h
  · cases h
  next hscope =>
  unfold checkSnapshot at h
  split at h
  · cases h
  split at h
  · cases h
  · cases h
  next checks hchecks =>
  unfold settleValidation at h
  split at h
  · cases h
  next final hafter =>
  split at h
  · next hsame =>
    cases h
    rw [hsame] at hafter
    obtain ⟨hallowed, hkept⟩ := assertApprovedScope_ok_iff.mp hscope
    obtain ⟨suite, hall, hrecords, -⟩ := runCommands_ok hchecks
    refine ⟨hbefore, hafter, ⟨hallowed, hkept, ?_⟩, ⟨rfl, rfl, rfl, _, suite, hall, rfl, rfl, rfl,
      hrecords⟩⟩
    intro policy profiles hpolicy hprofiles
    obtain ⟨-, -, -, hchanged⟩ := inspectTaskWorktree_ok hbefore
    unfold assertMutationBoundary assertCapabilityBoundary at hboundary
    rw [hpolicy, Option.bind_some, hprofiles] at hboundary
    dsimp only at hboundary
    rw [ensure_ok_iff, List.map_eq_nil_iff] at hboundary
    exact hboundary.resolve_left hchanged
  · cases h

end BuildConductor.Validation
