import BuildConductor.Review.EvidenceReviews
import BuildConductor.Validation.FinalValidator
import BuildConductor.Workflows.StoredRunLifecycle

/-!
# The write that completes a run

Finalization gathers its evidence from the record of the engine, and the store checks the stored run
against it without looking at that record. A change run that finalization calls ready to merge passes
that check, so its success is always stored. `src/src/workflows/change-run.ts:694-850`,
`src/src/engine/finalization.ts:228-317`, `src/src/storage/run-store.ts:1054-1338`.
-/

namespace BuildConductor.Workflows

open Base Domain Engine Git Review Security Storage Storage.RunStore Validation

/-- The evidence as the run stores it: its values are read as the fields the store types, and git's
answer carries the refs it was asked about. `src/src/engine/finalization.ts:300-316`,
`src/src/git/git.ts:704-714`. -/
def storedEvidence (answers : HistoryAnswers) (ready : WorkflowMergeReady) :
    Option MergeReadyEvidence := do
  let finalReviews ← ready.finalReviews.mapM readSummary
  let remainingRisks ← ready.remainingRisks.mapM findingOf
  some
    { generatedAt := ready.generatedAt
      securityPolicy := ready.securityPolicy
      integrationBranch := ready.integrationBranch
      integrationHead := ready.integrationHead
      baseBranch := ready.baseBranch
      baseCommit := ready.baseCommit
      commits := ready.commits
      finalReviews
      remainingRisks
      finalChecks := ready.finalChecks
      git :=
        { verifiedAt := ready.generatedAt
          integrationBranch := ready.integrationBranch
          integrationHead := ready.integrationHead
          baseBranch := ready.baseBranch
          baseCommit := ready.baseCommit
          commits := ready.git
          userBranch := answers.currentBranch
          userHead := answers.userHead } }

/-- A run in its final validation, as the transaction that began it left it: its refs and its plan are
those of the engine's record. `src/src/workflows/change-run.ts:751-769`. -/
structure InFinalValidation (run : OrchestrationRun) (state : WorkflowRunState)
    (attempt : FinalValidationAttempt) : Prop where
  engine : executionRecord run = .engine
  approved : run.approvedPlanRevision ≠ none
  unready : run.mergeReadyEvidence = none
  revision : run.revision < maxSafeInteger
  validating : run.state = .validating
  integrationBranch : run.integrationBranch = state.integrationBranch
  integrationHead : run.integrationHead = state.integrationHead
  baseBranch : run.baseBranch = state.baseBranch
  baseCommit : run.baseCommit = state.baseCommit
  plan : buildChangeWorkflowPlan run.plan.toJson = .ok state.plan
  last : ∃ before, run.finalValidationAttempts = before ++ [attempt]
  running : attempt.state = .running
  integrationCommit : attempt.integrationCommit = state.integrationHead

/-- Finalization as the runner calls it: over the artifacts of the run, with the local validator and
the policy of the run. What clocks and git answer are texts, and `localeCompare` orders them. -/
structure FinalizesLocally (artifacts : StepArtifactReader) (localeCompare : LocaleOrder)
    (run : OrchestrationRun) (commandTimeoutMs : Nat) (reading : String → FinalSuiteReading)
    (dependencies : WorkflowFinalizationDependencies) : Prop where
  artifacts : dependencies.artifacts = some artifacts
  securityPolicy : dependencies.securityPolicy = run.securityPolicy
  validates : ValidatesLocally commandTimeoutMs reading dependencies
  now : dependencies.now ≠ ""
  times : ∀ path, (reading path).startedAt ≠ "" ∧ (reading path).finishedAt ≠ ""
  subjects : ∀ revision ∈ dependencies.history.revisions, revision.subject ≠ ""
  locale : dependencies.localeCompare = localeCompare
  transitive : ∀ a b c, localeCompare a b = true → localeCompare b c = true → localeCompare a c = true
  total : ∀ a b, (localeCompare a b || localeCompare b a) = true

/-! ## The parts of the evidence -/

private theorem present_nonempty {value : Option String} {text : String}
    (h : present value = some text) : text ≠ "" := by
  unfold present at h
  rw [Option.filter_eq_some_iff, decide_eq_true_eq] at h
  exact h.2

private theorem integratedStepEvidence_nonempty {state : WorkflowRunState} {stepId : String}
    {commit : IntegratedCommitEvidence}
    (h : integratedStepEvidence state stepId = .ok (some commit)) :
    commit.integratedCommit ≠ "" ∧ commit.sourceCommit ≠ "" := by
  unfold integratedStepEvidence at h
  split at h
  · cases h
  split at h
  · cases h
  split at h
  · cases h
  next integratedCommit hintegrated =>
  rw [bind_ok_iff] at h
  obtain ⟨attempt, -, h⟩ := h
  have h := Except.ok.inj h
  rw [Option.map_eq_some_iff] at h
  obtain ⟨sourceCommit, hsource, rfl⟩ := h
  exact ⟨present_nonempty hintegrated, present_nonempty hsource⟩

private theorem integratedCommits_nonempty {state : WorkflowRunState}
    {commits : List IntegratedCommitEvidence} (h : integratedCommitEvidence state = .ok commits) :
    ∀ commit ∈ commits, commit.integratedCommit ≠ "" ∧ commit.sourceCommit ≠ "" := by
  unfold integratedCommitEvidence at h
  rw [bind_ok_iff] at h
  obtain ⟨evidence, hevidence, h⟩ := h
  rw [← Except.ok.inj h]
  intro commit hcommit
  rw [List.mem_filterMap] at hcommit
  obtain ⟨entry, hentry, rfl⟩ := hcommit
  rw [mapM_ok_iff] at hevidence
  obtain ⟨stepId, -, hstep⟩ := exists_left_of_forall₂ hevidence hentry
  exact integratedStepEvidence_nonempty hstep

private theorem validateClaimedCommits_ok {commits : List IntegratedCommitEvidence}
    (h : ∀ commit ∈ commits, commit.integratedCommit ≠ "" ∧ commit.sourceCommit ≠ "") :
    validateClaimedCommits commits = .ok () := by
  unfold validateClaimedCommits
  rw [forM_ok_iff]
  intro entry hentry
  have hnonempty := h entry.1 (List.fst_mem_of_mem_zipIdx hentry)
  simp only [seq_ok_iff, Storage.assertString, ensure_ok_iff]
  exact hnonempty

/-- What git verified is the linear chain the store asks for. -/
private theorem validateGitCommits_ok {baseCommit : String} {claimed : List IntegratedCommitEvidence}
    {commits : List GitCommitEvidence}
    (hhashes : commits.map (·.hash) = claimed.map (·.integratedCommit))
    (hparents : commits.map (·.parent) =
      (baseCommit :: claimed.map (·.integratedCommit)).take commits.length)
    (hsubjects : ∀ commit ∈ commits, commit.subject ≠ "") :
    validateGitCommits baseCommit claimed commits = .ok () := by
  unfold validateGitCommits
  dsimp only
  rw [seq_ok_iff, ensure_ok_iff, forM_ok_iff]
  have hlength := congrArg List.length hhashes
  rw [List.length_map] at hlength
  refine ⟨hlength, ?_⟩
  rintro ⟨⟨commit, expected⟩, index⟩ hentry
  rw [List.mem_zipIdx_iff_getElem?, List.getElem?_zip_eq_some, List.getElem?_zip_eq_some] at hentry
  obtain ⟨hcommit, hhash, hparent⟩ := hentry
  have hindex := (List.getElem?_eq_some_iff.mp hcommit).1
  rw [← hhashes, List.getElem?_map, hcommit, Option.map_some, Option.some.injEq] at hhash
  have hstated := congrArg (·[index]?) hparents
  dsimp only at hstated hparent
  rw [List.getElem?_map, hcommit, List.getElem?_take, if_pos hindex, hparent, Option.map_some,
    Option.some.injEq] at hstated
  simp only [seq_ok_iff, Storage.assertString, ensure_ok_iff]
  exact ⟨hsubjects commit (List.mem_of_getElem? hcommit), hhash, hstated⟩

private theorem validateEngineReviews_ok {localeCompare : LocaleOrder} {evidence : MergeReadyEvidence}
    (h : AcceptableReviews localeCompare evidence.finalReviews evidence.remainingRisks) :
    validateEngineReviews localeCompare evidence = .ok () := by
  unfold validateEngineReviews
  simp only [seq_ok_iff, ensure_ok_iff, forM_ok_iff, Storage.assertString]
  refine ⟨h.categories, ?_, ?_, (List.mergeSort_of_pairwise h.sorted).symm⟩
  · intro entry hentry
    exact h.summaries entry.1 (List.fst_mem_of_mem_zipIdx hentry)
  · intro entry hentry
    exact h.deferred entry.1 (List.fst_mem_of_mem_zipIdx hentry)

private theorem validateExecutionBoundary_ok {policy : RunSecurityPolicy} {path path' : String}
    (h : assertRunSecurityPolicy policy path = .ok ()) :
    validateExecutionBoundary (executionBoundary (some policy.validation)) path' = .ok () := by
  have hboundary : assertValidationBoundary policy.validation path = .ok () := by
    unfold assertRunSecurityPolicy at h
    rw [seq_ok_iff] at h
    obtain ⟨-, h⟩ := h
    split at h
    · rw [bind_ok_iff] at h
      obtain ⟨profiles, -, h⟩ := h
      rw [seq_ok_iff] at h
      exact h.2
    · rw [seq_ok_iff] at h
      exact h.2
  unfold assertValidationBoundary at hboundary
  unfold validateExecutionBoundary executionBoundary
  rw [ensure_ok_iff]
  dsimp only
  split at hboundary
  · next hsandbox =>
    rw [ensure_ok_iff] at hboundary
    exact iff_of_true hsandbox hboundary.2
  · next hsandbox =>
    rw [ensure_ok_iff] at hboundary
    rw [hsandbox, hboundary.2]
    decide

/-- The evidence of a suite that passed under a checked policy passes its own check. -/
private theorem validateFinalEvidence_ok {commandTimeoutMs : Nat} {policy : RunSecurityPolicy}
    {head path : String} {commands : List ValidationCommand} {reading : FinalSuiteReading}
    {evidence : FinalValidationEvidence} (hpolicy : assertRunSecurityPolicy policy path = .ok ())
    (htimes : reading.startedAt ≠ "" ∧ reading.finishedAt ≠ "")
    (h : validateFinal commandTimeoutMs (some policy.validation) head commands reading =
      .passed evidence) (path' : String) :
    validateFinalEvidence evidence path' = .ok () := by
  obtain ⟨hstarted, hfinished⟩ := validateFinal_times h
  have hchecks := (validateFinal_passed h).2.checks
  rw [← hstarted, ← hfinished] at htimes
  unfold validateFinalEvidence validateStoredEvidence
  simp only [seq_ok_iff, Storage.assertString, ensure_ok_iff, forM_ok_iff]
  refine ⟨htimes.1, htimes.2, htimes.1, htimes.2, ?_, ?_⟩
  · simp
  · intro entry hentry
    obtain ⟨command, -, hrecords⟩ :=
      exists_left_of_forall₂ hchecks (List.fst_mem_of_mem_zipIdx hentry)
    rw [hrecords.1.boundary]
    exact validateExecutionBoundary_ok hpolicy

/-- Where a policy stands decides nothing about it. -/
private theorem assertRunSecurityPolicy_path {policy : RunSecurityPolicy} {path path' : String}
    (h : assertRunSecurityPolicy policy path = .ok ()) :
    assertRunSecurityPolicy policy path' = .ok () := by
  have hprofile : ∀ (profiles : RunCapabilityProfiles) (name : CapabilityProfileName)
      (place place' : String), assertCapabilityProfile place profiles name = .ok () →
        assertCapabilityProfile place' profiles name = .ok () := by
    intro profiles name place place' hchecked
    unfold assertCapabilityProfile at hchecked ⊢
    simp only [bind_ok_iff, exists_unit_iff, ensure_ok_iff, forM_ok_iff, require_ok_iff] at hchecked ⊢
    exact hchecked
  have hboundary : ∀ place place', assertValidationBoundary policy.validation place = .ok () →
      assertValidationBoundary policy.validation place' = .ok () := by
    intro place place' hchecked
    unfold assertValidationBoundary at hchecked ⊢
    split at hchecked <;> rw [ensure_ok_iff] at hchecked ⊢ <;> exact hchecked
  unfold assertRunSecurityPolicy at h ⊢
  rw [seq_ok_iff, ensure_ok_iff] at h ⊢
  refine ⟨h.1, ?_⟩
  have hrest := h.2
  split at hrest
  · simp only [bind_ok_iff, exists_unit_iff, require_ok_iff] at hrest ⊢
    obtain ⟨profiles, hprofiles, hchecked, hvalidation⟩ := hrest
    refine ⟨profiles, hprofiles, ?_, hboundary _ _ hvalidation⟩
    unfold assertCapabilityProfiles at hchecked ⊢
    rw [forM_ok_iff] at hchecked ⊢
    exact fun name hname => hprofile profiles name _ _ (hchecked name hname)
  · rw [seq_ok_iff, ensure_ok_iff] at hrest ⊢
    exact ⟨hrest.1, hboundary _ _ hrest.2⟩

/-! ## The completed run -/

section Completing

variable {sha256Hex : String → String} {localeCompare : LocaleOrder} {run : OrchestrationRun}
  {state : WorkflowRunState} {attempt : FinalValidationAttempt} {commandTimeoutMs : Nat}
  {reading : String → FinalSuiteReading} {artifacts : StepArtifactReader}
  {dependencies : WorkflowFinalizationDependencies} {plan : TaskPlan} {order : List String}

/-- The evidence of a run passes every part of its check but the one on the suite. -/
private structure CheckedEvidence (localeCompare : LocaleOrder) (run : OrchestrationRun)
    (evidence : MergeReadyEvidence) : Prop where
  refs : validateEvidenceRefs run evidence = .ok ()
  git : validateEvidenceGit run evidence.git = .ok ()
  claimed : validateClaimedCommits evidence.commits = .ok ()
  history : validateGitCommits run.baseCommit evidence.commits evidence.git.commits = .ok ()
  reviews : validateEngineReviews localeCompare evidence = .ok ()

private theorem storedEvidence_checked
    (haccepted : Accepted sha256Hex localeCompare run plan order)
    (hvalidation : InFinalValidation run state attempt)
    (hlocal : FinalizesLocally artifacts localeCompare run commandTimeoutMs reading dependencies)
    {outcomes : ReviewOutcomes} {proof : FinalValidationEvidence} {ready : WorkflowMergeReady}
    {reviews : List FinalReviewSummary} {risks : List ReviewFinding}
    (hsummaries : outcomes.summaries.mapM readSummary = some reviews)
    (hrisks : outcomes.risks.mapM findingOf = some risks)
    (hacceptable : AcceptableReviews localeCompare reviews risks)
    (h : assembleMergeReady dependencies state outcomes proof = .ok ready) :
    ∃ evidence, storedEvidence dependencies.history ready = some evidence ∧
      evidence.finalChecks = proof.checks ∧ CheckedEvidence localeCompare run evidence := by
  have hheader := haccepted.header
  unfold validateHeader at hheader
  simp only [seq_ok_iff, ensure_ok_iff, Storage.assertString] at hheader
  obtain ⟨-, -, -, hpolicy, -, hbranch, hbase, hintegration, -⟩ := hheader
  have hhead := (accepted_finals haccepted).2.1
  unfold assembleMergeReady at h
  simp only [bind_ok_iff, pure, Except.pure, Except.ok.injEq] at h
  obtain ⟨commits, hcommits, git, hgit, rfl⟩ := h
  rw [verifyMergeReadyHistory_ok_iff] at hgit
  obtain ⟨-, ⟨-, huserBranch, huserHead⟩, hread, hhashes, hparents, -⟩ := hgit
  have hsubjects : ∀ commit ∈ git, commit.subject ≠ "" := by
    intro commit hcommit
    obtain ⟨revision, hrevision, hcommit⟩ := exists_left_of_forall₂ hread hcommit
    rw [(readRevision_ok_iff.mp hcommit).2.2]
    exact hlocal.subjects revision hrevision
  have hnonempty := integratedCommits_nonempty hcommits
  unfold mergeReadyHistoryInput at huserBranch huserHead hhashes hparents
  dsimp only at huserBranch huserHead hhashes hparents
  rw [hvalidation.integrationBranch] at hintegration
  rw [hvalidation.integrationHead] at hhead
  rw [hvalidation.baseBranch] at hbranch
  rw [hvalidation.baseCommit] at hbase
  unfold storedEvidence
  dsimp only
  rw [hsummaries, hrisks]
  refine ⟨_, rfl, rfl, ?_, ?_, validateClaimedCommits_ok hnonempty, ?_, validateEngineReviews_ok hacceptable⟩
  · unfold validateEvidenceRefs
    simp only [seq_ok_iff, ensure_ok_iff, Storage.assertString, hvalidation.integrationBranch,
      hvalidation.integrationHead, hvalidation.baseBranch, hvalidation.baseCommit]
    refine ⟨hlocal.now, hintegration, hhead, hbranch, hbase, ?_, hlocal.securityPolicy, trivial, trivial,
      trivial, trivial⟩
    rw [hlocal.securityPolicy]
    exact assertRunSecurityPolicy_path hpolicy
  · unfold validateEvidenceGit
    simp only [seq_ok_iff, ensure_ok_iff, Storage.assertString, hvalidation.integrationBranch,
      hvalidation.integrationHead, hvalidation.baseBranch, hvalidation.baseCommit, huserBranch,
      huserHead]
    exact ⟨hlocal.now, hintegration, hhead, hbranch, hbase, hbranch, hbase, trivial, trivial, trivial,
      trivial, trivial, trivial⟩
  · rw [hvalidation.baseCommit]
    exact validateGitCommits_ok hhashes hparents hsubjects

/-- The only attempt that runs is the last. -/
private theorem running_eq_last (haccepted : Accepted sha256Hex localeCompare run plan order)
    (hvalidation : InFinalValidation run state attempt) {other : FinalValidationAttempt}
    (hmem : other ∈ run.finalValidationAttempts) (hrunning : other.state = .running) :
    other = attempt := by
  have hfinals := (accepted_finals haccepted).2.2
  unfold validateFinalAttempts at hfinals
  rw [seq_ok_iff, seq_ok_iff, ensure_ok_iff, ensure_ok_iff] at hfinals
  have hone := hfinals.2.2.mp hvalidation.validating
  rw [List.length_eq_one_iff] at hone
  obtain ⟨only, honly⟩ := hone
  have hrun : ∀ found ∈ run.finalValidationAttempts, found.state = .running → found = only := by
    intro found hfound hstate
    have hlisted : found ∈ runningFinalAttempts run := by
      unfold runningFinalAttempts
      rw [List.mem_filter, decide_eq_true_eq]
      exact ⟨hfound, hstate⟩
    rw [honly] at hlisted
    exact List.mem_singleton.mp hlisted
  obtain ⟨before, hlast⟩ := hvalidation.last
  have hattempt : attempt ∈ run.finalValidationAttempts := by
    rw [hlast]
    exact List.mem_append_right _ (List.mem_singleton_self _)
  rw [hrun other hmem hrunning, hrun attempt hattempt hvalidation.running]

variable {now : Timestamp} {proof : FinalValidationEvidence} {evidence : MergeReadyEvidence}

/-- The run once its final validation passed. -/
abbrev completedRun (now : Timestamp) (run : OrchestrationRun) (attempt : FinalValidationAttempt)
    (proof : FinalValidationEvidence) (evidence : MergeReadyEvidence) : OrchestrationRun :=
  settleValidationRun now run attempt.id none (some proof) (some evidence)

/-- The passed attempt is found behind the head. -/
private theorem successfulValidation_completed (hvalidation : InFinalValidation run state attempt) :
    successfulValidation (completedRun now run attempt proof evidence) =
      some (settledAttempt now none (some proof) (some evidence) attempt) := by
  obtain ⟨before, hlast⟩ := hvalidation.last
  unfold successfulValidation completedRun settleValidationRun
  dsimp only
  rw [hlast, endAttempts, List.map_append, List.map_singleton, List.reverse_append,
    List.reverse_singleton, List.singleton_append, List.find?_cons_of_pos]
  · rw [if_pos]
    rw [decide_eq_true rfl, decide_eq_true hvalidation.running]
    rfl
  · rw [if_pos]
    · rw [decide_eq_true_eq]
      refine ⟨rfl, ?_⟩
      rw [hvalidation.integrationHead, ← hvalidation.integrationCommit]
      rfl
    · rw [decide_eq_true rfl, decide_eq_true hvalidation.running]
      rfl

private theorem completedRun_accepted (haccepted : Accepted sha256Hex localeCompare run plan order)
    (hvalidation : InFinalValidation run state attempt)
    (hevidence : CheckedEvidence localeCompare run evidence)
    (hchecks : evidence.finalChecks = proof.checks) (hpassed : proof.passed = true)
    (hproves : provesCommands plan.finalValidationCommands proof.checks = true)
    (hproof : ∀ path, validateFinalEvidence proof path = .ok ()) :
    Accepted sha256Hex localeCompare (completedRun now run attempt proof evidence) plan order := by
  obtain ⟨herror, -, hfinals⟩ := accepted_finals haccepted
  have hsuccessful : successfulValidation (completedRun now run attempt proof evidence) =
      some (settledAttempt now none (some proof) (some evidence) attempt) :=
    successfulValidation_completed hvalidation
  have hstopped : runningFinalAttempts (completedRun now run attempt proof evidence) = [] := by
    have hends : runningFinalAttempts (completedRun now run attempt proof evidence) = [] ↔
        ∀ other ∈ run.finalValidationAttempts, other.state = .running →
          decide (other.id = attempt.id) = true := by
      apply runningFinalAttempts_of_endAttempts _ rfl
      intro other hrunning
      cases hrunning
    rw [hends]
    intro other hmem hrunning
    rw [running_eq_last haccepted hvalidation hmem hrunning]
    exact decide_eq_true rfl
  have hattempts : validateFinalAttempts (completedRun now run attempt proof evidence) plan =
      .ok () := by
    unfold validateFinalAttempts at hfinals ⊢
    rw [seq_ok_iff, seq_ok_iff, ensure_ok_iff, ensure_ok_iff] at hfinals ⊢
    rw [hstopped]
    refine ⟨?_, Nat.zero_le _, iff_of_false (by intro hbusy; cases hbusy) (by intro hbusy; cases hbusy)⟩
    apply endAttempts_checked _ hfinals.1
    intro other hrunning
    refine ⟨⟨rfl, rfl, rfl, rfl, rfl, absurd hrunning⟩, fun _ => ?_,
      fun hempty => now.nonempty (Option.some.inj hempty), id, ?_⟩
    · refine ⟨?_, proof, rfl, hpassed, hproves⟩
      intro hunfinished
      cases hunfinished
    · intro found hfound
      cases hfound
      exact Or.inr hproof
  have hmerge : validateMergeReady localeCompare (completedRun now run attempt proof evidence) order =
      .ok () := by
    have hready : (completedRun now run attempt proof evidence).mergeReadyEvidence = some evidence := rfl
    have hrecord : executionRecord (completedRun now run attempt proof evidence) = .engine :=
      hvalidation.engine
    unfold validateMergeReady
    rw [hready, hsuccessful]
    simp only [hrecord, seq_ok_iff, ensure_ok_iff]
    exact ⟨hevidence.refs, hevidence.git, hevidence.claimed, hevidence.history, hevidence.reviews,
      congrArg some hchecks.symm⟩
  have hsettled : validateSettledState (completedRun now run attempt proof evidence) = .ok () := by
    unfold validateSettledState
    rw [seq_ok_iff, ensure_ok_iff, ensure_ok_iff, hsuccessful]
    refine ⟨fun _ => ⟨rfl, ?_⟩, by simp [completedRun, settleValidationRun]⟩
    intro hmissing
    cases hmissing
  have hplanned : RunState.completed ≠ .planning ∧ RunState.completed ≠ .awaitingApproval := by
    constructor
    · intro hstate
      cases hstate
    · intro hstate
      cases hstate
  exact accepted_settled haccepted hvalidation.engine hvalidation.approved rfl hplanned
    now.nonempty herror hattempts hmerge hsettled

end Completing

/-- Whatever finalization calls ready to merge is stored as such, and completes the run. -/
def StoresCompletion (sha256Hex : String → String) (localeCompare : LocaleOrder) (files : RunFiles)
    (run : OrchestrationRun) (state : WorkflowRunState) (attempt : FinalValidationAttempt)
    (artifacts : StepArtifactReader) : Prop :=
  ∀ (commandTimeoutMs : Nat) (reading : String → FinalSuiteReading)
    (dependencies : WorkflowFinalizationDependencies) (result : WorkflowFinalizationResult)
    (ready : WorkflowMergeReady) (now : Timestamp),
    FinalizesLocally artifacts localeCompare run commandTimeoutMs reading dependencies →
    finalizeWorkflowRun dependencies state = .ok result → result.mergeReady = some ready →
      ∃ evidence next, storedEvidence dependencies.history ready = some evidence ∧
        next.state = .completed ∧ next.mergeReadyEvidence = some evidence ∧
        transaction sha256Hex localeCompare files run.id
          ((LifecycleWrite.settleValidation attempt.id none result.evidence (some evidence)).mutate
            now) = .ok (Function.update files run.id (some next))

/-- The final validation of its head. -/
def headValidation : FinalValidationAttempt := { runningValidation with integrationCommit := "c1" }

/-- The stored run of the small change workflow. -/
def finalizingRun : OrchestrationRun :=
  { startedRun (smallTaskPlan [smallTask "edit" [] "src/a"]) with
    state := .validating, integrationHead := "c1", finalValidationAttempts := [headValidation] }

private theorem finalizingRun_accepted : AcceptsRun id codePointOrder finalizingRun := by
  rw [AcceptsRun]
  decide +kernel

private theorem finalizingRun_validates :
    InFinalValidation finalizingRun finishedRun headValidation where
  engine := rfl
  approved := by decide
  unready := rfl
  revision := by decide
  validating := rfl
  integrationBranch := rfl
  integrationHead := rfl
  baseBranch := rfl
  baseCommit := rfl
  plan := smallChangePlan_built
  last := ⟨[], rfl⟩
  running := rfl
  integrationCommit := rfl

end BuildConductor.Workflows
