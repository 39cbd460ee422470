import BuildConductor.Review.ReviewStep
import BuildConductor.Validation.TaskValidator

/-!
# The change step

One repository change carried to a commit: the worker in the worktree of the step, the focused
validation, and a commit of exactly what was validated. `src/src/engine/steps/change.ts`.
-/

namespace BuildConductor.Steps

open Base Domain Engine Git Review Security Validation

/-! ## What a step works with -/

/-- `src/src/engine/steps/change.ts:27-30`. -/
def changeStepOutputs : List String := ["evidence", "commit"]

/-- `src/src/engine/steps/change.ts:32-39`, with the times the validator is configured with. -/
structure ValidatedChangeOptions where
  securityPolicy : RunSecurityPolicy
  withheldPaths : List String
  localeCompare : String → String → Bool
  commandTimeoutMs : Nat

/-- What a change step executes with. `src/src/engine/handlers.ts:32-54`. -/
structure ChangeStepContext where
  step : StepDefinition
  capabilityProfile : CapabilityProfile
  workspacePath : Option String
  workspaceBranch : Option String
  baseCommit : String
  upstreamArtifacts : List ArtifactRecord

/-- What happens while a change step runs. -/
structure ChangeExecution where
  worker : StepWorkerOutcome
  status : Except String (List ChangeRecord)
  validation : TaskValidationReading
  commit : CommitReading

/-- How a step ended, what it publishes, and the commits and branches it left. -/
structure StepEnd where
  outcome : StepOutcome
  drafts : List StepArtifactDraft
  store : CommitStore

/-! ## Its pieces -/

/-- The body of a change step. -/
structure ChangeBody where
  acceptanceCriteria : List String
  allowedPaths : List String
  validationCommands : List ValidationCommand

/-- The body of a step that is a change. -/
def changeBody? (step : StepDefinition) : Option ChangeBody :=
  match step.body with
  | .change acceptanceCriteria allowedPaths validationCommands =>
    some ⟨acceptanceCriteria, allowedPaths, validationCommands⟩
  | _ => none

/-- `text.replace(/[\r\n]+/g, " ")`, which knows whether the characters before are line breaks. -/
def joinLines (within : Bool) : List Char → List Char
  | [] => []
  | c :: rest =>
    if c = '\r' ∨ c = '\n' then
      if within then joinLines true rest else ' ' :: joinLines true rest
    else c :: joinLines false rest

/-- `src/src/engine/steps/change.ts:100-102`. -/
def commitMessage (step : StepDefinition) : String :=
  s!"step({step.id}): {trim (String.ofList (joinLines false step.title.toList))}"

/-- A change step is validated under its own profile. `src/src/engine/steps/change.ts:82-98`. -/
def stepValidationPolicy (policy : RunSecurityPolicy) (profile : CapabilityProfile) :
    RunSecurityPolicy :=
  match policy.workers.capabilityProfiles with
  | none => policy
  | some profiles =>
    { policy with
      workers := { policy.workers with
        capabilityProfiles := some { profiles with change := profile } } }

/-- `src/src/engine/steps/change.ts:45-75,213-224`. -/
def taskValidationInput (options : ValidatedChangeOptions) (context : ChangeStepContext)
    (body : ChangeBody) (branch : String) : TaskValidationInput where
  allowedPaths := body.allowedPaths
  validationCommands := body.validationCommands
  branch
  baseCommit := context.baseCommit
  securityPolicy := some (stepValidationPolicy options.securityPolicy context.capabilityProfile)
  withheldPaths := options.withheldPaths

/-! ## Its artifacts -/

/-- The properties of a changed file. -/
def changedFileJson (file : ChangedFileEvidence) : Json :=
  .obj (Json.definedFields [("path", some (.str file.path)), ("status", some (.str file.status)),
    ("previousPath", file.previousPath.map Json.str)])

/-- The name of a sandbox. -/
def sandboxName : ValidationSandboxMode → String
  | .none => "none"
  | .nono => "nono"

/-- The name of a network. -/
def networkName : ValidationNetwork → String
  | .host => "host"
  | .blocked => "blocked"

/-- A boundary as a value. -/
def boundaryJson (boundary : ValidationExecutionBoundary) : Json :=
  .obj [("sandbox", .str (sandboxName boundary.sandbox)),
    ("network", .str (networkName boundary.network)),
    ("environment", .str "temporary-home-reduced")]

/-- A check as a value. -/
def checkJson (check : ValidationCheckEvidence) : Json :=
  .obj (Json.definedFields [("command", some (.str check.command)),
    ("args", some (Json.strings check.args)), ("startedAt", some (.str check.startedAt)),
    ("finishedAt", some (.str check.finishedAt)),
    ("exitCode", some ((check.exitCode.map Json.number).getD .null)),
    ("stdoutTail", some (.str check.stdoutTail)), ("stderrTail", some (.str check.stderrTail)),
    ("passed", some (.bool check.passed)),
    ("executionBoundary", check.executionBoundary.map boundaryJson)])

/-- The evidence of a validation as a value. -/
def taskEvidenceJson (evidence : TaskValidationEvidence) : Json :=
  .obj [("startedAt", .str evidence.startedAt), ("finishedAt", .str evidence.finishedAt),
    ("passed", .bool evidence.passed),
    ("changedFiles", .arr (evidence.changedFiles.map changedFileJson)),
    ("diffHash", .str evidence.diffHash), ("checks", .arr (evidence.checks.map checkJson))]

private theorem changedFileJson_writable (file : ChangedFileEvidence) :
    (changedFileJson file).Writable := by
  apply Json.writable_definedFields
  · simp
  · simp [Json.Writable]

private theorem boundaryJson_writable (boundary : ValidationExecutionBoundary) :
    (boundaryJson boundary).Writable := by
  simp [boundaryJson, Json.Writable, Json.WritableFields]

private theorem checkJson_writable (check : ValidationCheckEvidence) : (checkJson check).Writable := by
  apply Json.writable_definedFields
  · simp
  · have hexit : ((check.exitCode.map Json.number).getD .null).Writable := by
      cases check.exitCode <;> trivial
    simp [Json.Writable, hexit, boundaryJson_writable]

theorem taskEvidenceJson_writable (evidence : TaskValidationEvidence) :
    (taskEvidenceJson evidence).Writable := by
  have hfiles := Json.writable_list changedFileJson_writable evidence.changedFiles
  have hchecks := Json.writable_list checkJson_writable evidence.checks
  unfold taskEvidenceJson
  simp [Json.Writable, Json.WritableFields] at hfiles hchecks ⊢
  exact ⟨hfiles, hchecks⟩

/-- The artifact of one output. `src/src/engine/steps/change.ts:104-130`. -/
def changeArtifact (step : StepDefinition) (evidence : TaskValidationEvidence)
    (commit branch baseCommit output : String) : StepArtifactDraft :=
  if output = "commit" then
    { output
      kind := .commit
      title := s!"{step.title} commit"
      payload := .json (some
        { value := .obj [("commit", .str commit), ("branch", .str branch),
            ("baseCommit", .str baseCommit)]
          writable := by simp [Json.Writable, Json.WritableFields] }) }
  else
    { output
      kind := .testEvidence
      title := s!"{step.title} validation evidence"
      payload := .json (some ⟨taskEvidenceJson evidence, taskEvidenceJson_writable evidence⟩) }

/-- `src/src/engine/steps/change.ts:104-130`. -/
def artifactsFor (step : StepDefinition) (evidence : TaskValidationEvidence)
    (commit branch baseCommit : String) : List StepArtifactDraft :=
  (step.outputs.getD []).map (changeArtifact step evidence commit branch baseCommit)

/-! ## The handler -/

section Handler

variable (options : ValidatedChangeOptions) (context : ChangeStepContext)
  (execution : ChangeExecution) (store : CommitStore)

/-- A workspace without a branch: what it holds must be unchanged, and nothing can be committed.
`src/src/engine/steps/change.ts:176-203`. -/
def settleReadOnlyChange (workerId : Option String) : StepEnd :=
  match checkWorkspace context.capabilityProfile context.workspacePath execution.status with
  | .unreadable error => ⟨.failed error workerId none, [], store⟩
  | .breached error => ⟨.failed error workerId (some false), [], store⟩
  | .unchanged =>
    ⟨.failed s!"Change step {context.step.id} holds no mutate-repository authority, so it cannot produce a committable change"
      workerId (some false), [], store⟩

/-- The commit of a validated snapshot. `src/src/engine/steps/change.ts:241-268`. -/
def commitChange (workerId : Option String) (branch : String) (snapshot : TaskWorktreeSnapshot)
    (evidence : TaskValidationEvidence) : StepEnd :=
  match commitTaskWork options.localeCompare execution.commit snapshot (commitMessage context.step)
      store with
  | (.error error, later) => ⟨.failed error workerId none, [], later⟩
  | (.ok commit, later) =>
    ⟨.succeeded (some s!"Committed {evidence.changedFiles.length} changed file(s) as {commit}")
        workerId (some commit) (some evidence),
      artifactsFor context.step evidence commit branch context.baseCommit, later⟩

/-- `src/src/engine/steps/change.ts:139-268`. -/
def runValidatedChange (body : ChangeBody) : StepEnd :=
  match execution.worker with
  | .failed error workerId => ⟨.failed error workerId none, [], store⟩
  | .cancelled error workerId => ⟨.cancelled error workerId, [], store⟩
  | .succeeded _ workerId =>
    match present context.workspaceBranch with
    | none => settleReadOnlyChange context execution store workerId
    | some branch =>
      match validateTask options.localeCompare options.commandTimeoutMs
          (taskValidationInput options context body branch) execution.validation with
      | .thrown message => ⟨.failed message workerId none, [], store⟩
      | .failed message _ breach =>
        ⟨.failed message workerId (if breach then some false else none), [], store⟩
      | .passed snapshot evidence =>
        commitChange options context execution store workerId branch snapshot evidence

/-- A plan that asks a step for what it cannot produce. `src/src/engine/steps/outputs.ts:6-38`. -/
def assertSupportedOutputs (step : StepDefinition) (supported : List String) : Except String Unit :=
  let unsupported := (step.outputs.getD []).filter fun output => output ∉ supported
  ensure (unsupported = [])
    s!"{step.kind.name} step {step.id} cannot produce output{pluralSuffix unsupported.length} {
      joinNames unsupported}; supported outputs: {namesOrNone supported}"

/-- `src/src/engine/steps/change.ts:276-310`. -/
def executeChange : StepEnd :=
  match changeBody? context.step with
  | none =>
    ⟨.failed s!"Change handler received a {context.step.kind.name} step" none (some false), [], store⟩
  | some body =>
    match assertSupportedOutputs context.step changeStepOutputs with
    | .error error => ⟨.failed error none (some false), [], store⟩
    | .ok () => runValidatedChange options context execution store body

end Handler

/-! ## The scope of a step -/

/-- The paths a step may change. -/
def Approves (options : ValidatedChangeOptions) (body : ChangeBody) (path : String) : Prop :=
  pathIsAllowed path body.allowedPaths = true ∧ pathIsAllowed path options.withheldPaths = false

/-- A branch moved at most from the base of the step to a commit on it that changes approved paths
only. -/
def MovesInScope (options : ValidatedChangeOptions) (context : ChangeStepContext) (body : ChangeBody)
    (before after : CommitStore) : Prop :=
  after.branches = before.branches ∨
    ∃ branch hash base commit, context.workspaceBranch = some branch ∧
      before.branches.get? branch = some context.baseCommit ∧
      after.branches = before.branches.set branch hash ∧
      before.commits.get? context.baseCommit = some base ∧
      after.commits.get? hash = some commit ∧ commit.parent = context.baseCommit ∧
      ∀ path, commit.tree.get? path ≠ base.tree.get? path → Approves options body path

/-- A commit a step reports: the validated changes, all approved, committed on the base of the step
behind its commands. -/
structure CommitsValidated (options : ValidatedChangeOptions) (context : ChangeStepContext)
    (body : ChangeBody) (before after : CommitStore) (hash : String)
    (evidence : TaskValidationEvidence) : Prop where
  mutating : ∀ profiles, options.securityPolicy.workers.capabilityProfiles = some profiles →
    StepCapability.mutateRepository ∈ context.capabilityProfile.capabilities
  commit : ∃ branch base commit, context.workspaceBranch = some branch ∧
    before.commits.get? context.baseCommit = some base ∧ after.commits.get? hash = some commit ∧
    commit.parent = context.baseCommit ∧ commit.message = commitMessage context.step ∧
    after.branches = before.branches.set branch hash ∧
    ∀ path, commit.tree.get? path ≠ base.tree.get? path ↔ path ∈ changedPaths evidence.changedFiles
  approved : ∀ path ∈ changedPaths evidence.changedFiles, Approves options body path
  passed : evidence.passed = true
  checks : ∃ diffCheck suite, evidence.checks = diffCheck :: suite ∧ diffCheck.passed = true ∧
    List.Forall₂ (fun command check =>
      Records (some options.securityPolicy.validation) command check ∧ check.passed = true)
      body.validationCommands suite

private theorem stepValidationPolicy_validation (policy : RunSecurityPolicy)
    (profile : CapabilityProfile) :
    (stepValidationPolicy policy profile).validation = policy.validation := by
  unfold stepValidationPolicy
  split
  · rfl
  · rfl

private theorem stepValidationPolicy_profiles {policy : RunSecurityPolicy}
    {profiles : RunCapabilityProfiles} (profile : CapabilityProfile)
    (h : policy.workers.capabilityProfiles = some profiles) :
    (stepValidationPolicy policy profile).workers.capabilityProfiles =
      some { profiles with change := profile } := by
  unfold stepValidationPolicy
  rw [h]

section Scope

variable {options : ValidatedChangeOptions} {context : ChangeStepContext}
  {execution : ChangeExecution} {store : CommitStore} {body : ChangeBody}

private theorem changeArtifact_output (step : StepDefinition) (evidence : TaskValidationEvidence)
    (commit branch baseCommit output : String) :
    (changeArtifact step evidence commit branch baseCommit output).output = output := by
  unfold changeArtifact
  split
  · rfl
  · rfl

private theorem workspaceBranch_of_present {branch : String}
    (h : present context.workspaceBranch = some branch) : context.workspaceBranch = some branch := by
  unfold present at h
  rw [Option.filter_eq_some_iff] at h
  exact h.1

private theorem commitChange_store (workerId : Option String) (branch : String)
    (snapshot : TaskWorktreeSnapshot) (evidence : TaskValidationEvidence) :
    (commitChange options context execution store workerId branch snapshot evidence).store =
      (commitTaskWork options.localeCompare execution.commit snapshot (commitMessage context.step)
        store).2 := by
  unfold commitChange
  split
  · next hcommit => rw [hcommit]
  · next hcommit => rw [hcommit]

/-- Every end of a step moves its branch within its scope. -/
theorem runValidatedChange_moves :
    MovesInScope options context body store
      (runValidatedChange options context execution store body).store := by
  unfold runValidatedChange
  split
  · exact Or.inl rfl
  · exact Or.inl rfl
  split
  · unfold settleReadOnlyChange
    split <;> exact Or.inl rfl
  next branch hbranch =>
  split
  · exact Or.inl rfl
  · exact Or.inl rfl
  next snapshot evidence hvalid =>
  obtain ⟨hbefore, -, hscope, -⟩ := validateTask_passed hvalid
  obtain ⟨hsnapshot, hbase, -, -⟩ := inspectTaskWorktree_ok hbefore
  have hpublishes := commitTaskWork_publishes options.localeCompare execution.commit snapshot
    (commitMessage context.step) store
  have happroved : ∀ path ∈ changedPaths snapshot.changedFiles, Approves options body path :=
    fun path hpath => ⟨hscope.allowed path hpath, hscope.kept path hpath⟩
  rw [commitChange_store]
  generalize (commitTaskWork options.localeCompare execution.commit snapshot
    (commitMessage context.step) store).2 = after at hpublishes
  cases hpublishes with
  | nothing => exact Or.inl rfl
  | written hash hfound hparent hunchanged => exact Or.inl rfl
  | @moved base commit hash hfound hparent hunchanged hmoved =>
    rw [hbase] at hfound hparent hmoved
    rw [hsnapshot] at hmoved
    refine Or.inr ⟨branch, hash, base, commit, workspaceBranch_of_present hbranch, hmoved, ?_, hfound,
      OrderedRecord.get?_set_self _ _ _, hparent, ?_⟩
    · rw [hsnapshot]
      rfl
    · intro path hdiffers
      by_cases hpath : path ∈ changedPaths snapshot.changedFiles
      · exact happroved path hpath
      · exact absurd (hunchanged path hpath) hdiffers

/-- A step reports only commits of validated changes. -/
theorem runValidatedChange_commits {summary workerId commit : Option String}
    {evidence : Option TaskValidationEvidence}
    (h : (runValidatedChange options context execution store body).outcome =
      .succeeded summary workerId commit evidence) :
    ∃ output hash checked, execution.worker = .succeeded output workerId ∧ commit = some hash ∧
      evidence = some checked ∧
      CommitsValidated options context body store
        (runValidatedChange options context execution store body).store hash checked ∧
      (runValidatedChange options context execution store body).drafts.map (·.output) =
        context.step.outputs.getD [] := by
  have hunfolded := h
  unfold runValidatedChange at hunfolded
  split at hunfolded
  · cases hunfolded
  · cases hunfolded
  next output found hworker =>
  split at hunfolded
  · unfold settleReadOnlyChange at hunfolded
    split at hunfolded <;> cases hunfolded
  next branch hbranch =>
  split at hunfolded
  · cases hunfolded
  · cases hunfolded
  next snapshot validated hvalid =>
  have hend : runValidatedChange options context execution store body =
      commitChange options context execution store found branch snapshot validated := by
    unfold runValidatedChange
    simp only [hworker, hbranch, hvalid]
  rw [hend]
  unfold commitChange at hunfolded ⊢
  split at hunfolded
  · cases hunfolded
  next hash later hcommit =>
  cases hunfolded
  obtain ⟨hbefore, -, hscope, hproves⟩ := validateTask_passed hvalid
  obtain ⟨hsnapshot, hbase, -, hchanged⟩ := inspectTaskWorktree_ok hbefore
  have hcommits := commitTaskWork_ok hcommit
  obtain ⟨base, object, hfound, hwritten, hparent, hmessage, hdiffers⟩ := hcommits.commit
  obtain ⟨diffCheck, suite, hchecks, -, -, hdiff, hsuite⟩ := hproves.checks
  refine ⟨output, hash, validated, hworker, rfl, rfl, ⟨?_, ?_, ?_, hproves.passed, ?_⟩, ?_⟩
  · intro profiles hprofiles
    exact hscope.mutating _ _ rfl (stepValidationPolicy_profiles _ hprofiles)
  · refine ⟨branch, base, object, workspaceBranch_of_present hbranch, ?_, hwritten, ?_, hmessage, ?_,
      ?_⟩
    · rw [hbase] at hfound
      exact hfound
    · rw [hparent, hbase]
      rfl
    · rw [hcommits.branches, hsnapshot]
      rfl
    · rw [hproves.changedFiles]
      exact hdiffers
  · rw [hproves.changedFiles]
    exact fun path hpath => ⟨hscope.allowed path hpath, hscope.kept path hpath⟩
  · refine ⟨diffCheck, suite, hchecks, hdiff, ?_⟩
    unfold taskValidationInput at hsuite
    dsimp only at hsuite
    rw [Option.map_some, stepValidationPolicy_validation] at hsuite
    exact hsuite
  · dsimp only
    unfold artifactsFor
    rw [List.map_map]
    apply (List.map_congr_left _).trans (List.map_id _)
    intro declared _
    exact changeArtifact_output _ _ _ _ _ declared

private theorem assertSupportedOutputs_ok_iff {step : StepDefinition} {supported : List String} :
    assertSupportedOutputs step supported = .ok () ↔
      ∀ output ∈ step.outputs.getD [], output ∈ supported := by
  unfold assertSupportedOutputs
  rw [ensure_ok_iff, List.filter_eq_nil_iff]
  simp only [decide_eq_true_eq, not_not]

end Scope

/-- A worktree in which one file was edited. -/
def editedWorktree (path : String) : WorktreeReading where
  branch := .ok "task/edit"
  head := .ok "base"
  status := .ok [⟨path, "M", none⟩]
  stagedEntries _ := .ok []
  diff _ := .ok "diff"
  kind _ := .ok .file
  digest _ _ := .ok "digest"

/-- A step that may edit a file, in its worktree. -/
def editContext : ChangeStepContext where
  step := { changeStep "edit" [] ["src/a"] with outputs := some ["commit"] }
  capabilityProfile := defaultCapabilityProfiles.change
  workspacePath := some "/worktrees/edit"
  workspaceBranch := some "task/edit"
  baseCommit := "base"
  upstreamArtifacts := []

/-- Validation without a sandbox, and nothing withheld. -/
def editOptions : ValidatedChangeOptions where
  securityPolicy := configuredPolicy .decline ⟨.none, .host, none⟩
  withheldPaths := []
  localeCompare left right := decide (left ≤ right)
  commandTimeoutMs := 1000

/-- A worker that edits a path, whose commands all pass. -/
def editExecution (path : String) : ChangeExecution where
  worker := .succeeded none (some "worker")
  status := .ok []
  validation :=
    { aborted := none, before := editedWorktree path, diffCheck := .ok ()
      suite := ⟨fun _ _ => .ok ⟨some 0, "", "", false, false⟩, fun _ => "1", fun _ => "2"⟩
      after := editedWorktree path, startedAt := "0", diffStartedAt := "0", diffFinishedAt := "1"
      finishedAt := "3" }
  commit :=
    { inspection := editedWorktree path, content := fun _ => .ok (.file false (.ok "new") (.ok "new"))
      hash := fun _ => "commit", readTree := .ok (), status := .ok "" }

/-- A repository with one file. -/
def editRepository : CommitStore where
  commits := .ofList [("base", ⟨"root", .ofList [("src/a", ⟨"100644", "old"⟩)], "base"⟩)]
  branches := .ofList [("task/edit", "base")]

example : (executeChange editOptions editContext (editExecution "src/b") editRepository).outcome =
    .failed "Task changed paths outside its approved scope: src/b" (some "worker") none := by
  decide +kernel

end BuildConductor.Steps
