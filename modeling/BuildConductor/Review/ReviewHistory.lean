import BuildConductor.Inspection.EngineRunView
import BuildConductor.Lifecycle.Tracking
import BuildConductor.Review.FindingPaths
import BuildConductor.Review.MergeReadiness
import BuildConductor.Storage.ArtifactHistory
import BuildConductor.Workflows.Change

/-!
# The reviews a change run stores

Every artifact of a review step was published by the review handler, whatever else was written, so
the reviews behind the evidence of a change run are those of its own steps.
`src/src/engine/artifact-routing.ts:78-91`, `src/src/workflows/change.ts:173-205`.
-/

namespace BuildConductor.Review

open Base Domain Engine Inspection Lifecycle Security Storage Workflows

/-! ## What is published -/

/-- What a handler hands to artifact routing for one attempt of a step. -/
structure StepPublication where
  step : StepDefinition
  attemptNumber : Nat
  drafts : List StepArtifactDraft

/-- A step of the review profile is executed by the review handler; any other step may publish
anything. `src/src/engine/handlers.ts:126-133`. -/
def Handled (platform : ReportPlatform) (publication : StepPublication) : Prop :=
  stepProfileName publication.step = .review → ∃ context execution,
    context.step = publication.step ∧
      (executeReview platform context execution).2 = publication.drafts

/-- A write routing makes for some attempt of a step of the run.
`src/src/engine/artifact-routing.ts:78-91`. -/
def Routed (platform : ReportPlatform) (run : WorkflowRunState) (call : ArtifactStore.WriteCall) :
    Prop :=
  ∃ publication requests, publication.step ∈ run.plan.steps ∧ Handled platform publication ∧
    planStepArtifacts run.id publication.step publication.attemptNumber publication.drafts =
      .ok requests ∧ call.request ∈ requests

/-- The store as the steps and the finalization read it. -/
def artifactReader (store : ArtifactStore) (platform : Platform)
    (files : RunDirectory) : StepArtifactReader :=
  fun runId stepId output =>
    (store.latest platform files runId stepId output).mapError (·.message)

/-- A routed write of a review step stores a review of the category the step is named for. -/
private theorem Routed.states {platform : ReportPlatform} {run : WorkflowRunState}
    {call : ArtifactStore.WriteCall} (h : Routed platform run call) (hkept : PlanKept run)
    {step : StepDefinition} (hstep : step ∈ run.plan.steps)
    (hreview : stepProfileName step = .review) {round : Nat} {category : ReviewCategory}
    (hnamed : parseReviewStepId step.id = .ok (round, category)) {record : ArtifactRecord}
    (hrequests : ArtifactStore.Requests call.request record) (hid : record.stepId = step.id) :
    ∃ payload baseCommit, parseJson record.payload = some payload ∧
      States category baseCommit payload := by
  obtain ⟨publication, requests, hplanned, hhandled, hrouted, hcall⟩ := h
  obtain ⟨-, rfl⟩ := planStepArtifacts_ok_iff.mp hrouted
  obtain ⟨draft, hdraft, hrequest⟩ := List.mem_map.mp hcall
  have hsame : publication.step = step := by
    apply List.inj_on_of_nodup_map (nodup_stepIds hkept.steps) hplanned hstep
    have hidentity := congrArg ArtifactIdentity.stepId hrequests.identity
    rw [← hrequest] at hidentity
    exact hidentity.symm.trans hid
  rw [Handled, hsame] at hhandled
  obtain ⟨context, execution, hcontext, hdrafts⟩ := hhandled hreview
  rw [← hdrafts] at hdraft
  obtain ⟨hkind, -, round', category', payload, hparsed, hpayload, hstates⟩ :=
    executeReview_publishes hdraft
  rw [hcontext, hnamed] at hparsed
  cases hparsed
  have hstored := hrequests.payload
  rw [← hrequest] at hstored
  unfold draftRequest at hstored
  dsimp only at hstored
  rw [hkind, hpayload] at hstored
  unfold serializeArtifactPayload at hstored
  rw [seq_ok_iff] at hstored
  obtain ⟨-, hstored⟩ := hstored
  refine ⟨payload.value, context.commit, ?_, hstates⟩
  rw [← Except.ok.inj hstored]
  exact parseJson_jsonText_self .indented payload.writable

/-! ## Reachable change runs -/

/-- The input carries a plan of the change workflow. -/
def ChangePlanned (built : WorkflowPlan) (input : CreateWorkflowRunStateInput) : Prop :=
  (∃ document, buildChangeWorkflowPlan document = .ok built) ∧ input.plan = built

private theorem wellFormedSteps_of_built {document : Json} {built : WorkflowPlan}
    (h : buildChangeWorkflowPlan document = .ok built) : WellFormedSteps built.steps := by
  unfold buildChangeWorkflowPlan at h
  rw [bind_ok_iff] at h
  obtain ⟨translated, -, h⟩ := h
  split at h
  · cases h
  · exact validateWorkflowPlan_wellFormed h

/-- A run of the change workflow: whatever was admitted, the steps it was built from are planned. -/
structure ChangeRun (built : WorkflowPlan) (run : WorkflowRunState) : Prop where
  kept : PlanKept run
  document : ∃ document, buildChangeWorkflowPlan document = .ok built
  planned : ∀ step ∈ built.steps, step ∈ run.plan.steps

/-- Every run of the engine over a plan of the change workflow stays a run of it. -/
theorem changeRun_reachable {built : WorkflowPlan} {accepts : WorkflowRunState → Prop} {world : World}
    (h : (engineSystem (ChangePlanned built) accepts).Reachable world) :
    ChangeRun built world.run := by
  apply h.invariant
  · rintro world ⟨⟨input, hplanned, hcreated⟩, -⟩
    obtain ⟨⟨document, hbuilt⟩, hplan⟩ := hplanned
    have hsteps := wellFormedSteps_of_built hbuilt
    rw [← hplan] at hsteps
    refine ⟨PlanKept.of_create hcreated hsteps, ⟨document, hbuilt⟩, ?_⟩
    rw [(createWorkflowRunState_ok hcreated).plan, hplan]
    exact fun _ hstep => hstep
  · intro world action later _ hrun hstep
    rcases Step.run_cases hstep with hsame | ⟨transaction, now, -, happly⟩
    · rw [hsame]
      exact hrun
    · refine ⟨Transaction.apply_planKept happly hrun.kept, hrun.document, ?_⟩
      intro step hmem
      have hplanned := hrun.planned step hmem
      rcases Transaction.apply_plan happly with hplan | ⟨request, -, hgrown⟩
      · rw [hplan]
        exact hplanned
      · rw [(grownPlan_steps hgrown).2]
        exact List.mem_append_left _ hplanned

private theorem parseReviewStepId_first (category : ReviewCategory) :
    parseReviewStepId (reviewStepId 1 category) = .ok (1, category) := by
  cases category <;> decide +kernel

/-- A change run reviews every category. -/
theorem ChangeRun.reviews {built : WorkflowPlan} {run : WorkflowRunState}
    (h : ChangeRun built run) (category : ReviewCategory) :
    ∃ step ∈ run.plan.steps, stepProfileName step = .review ∧
      parseReviewStepId step.id = .ok (1, category) ∧
      (step.id, reviewFindingsOutput) ∈ reviewOutputs run := by
  obtain ⟨document, hbuilt⟩ := h.document
  obtain ⟨legacy, -, -, rfl⟩ := buildChangeWorkflowPlan_ok_iff.mp hbuilt
  let step := reviewRoundStep 1 (Node.ids legacy.nodes) category
  have hstep : step ∈ (changeWorkflow legacy.translated).steps := by
    rw [mem_changeWorkflow_iff, mem_generatedSteps_iff]
    exact Or.inr (Or.inl ⟨1, by decide, category, rfl⟩)
  have hplanned := h.planned step hstep
  obtain ⟨record, hrecord, hdefinition⟩ := h.kept.recorded step hplanned
  refine ⟨step, hplanned, rfl, parseReviewStepId_first category, ?_⟩
  unfold reviewOutputs reviewSteps
  rw [List.mem_flatMap]
  refine ⟨(step.id, [reviewFindingsOutput]), ?_, List.mem_singleton_self _⟩
  rw [List.mem_filterMap]
  refine ⟨step.id, h.kept.mem_order_iff.mpr ⟨record, hrecord⟩, ?_⟩
  rw [hrecord, Option.bind_some, hdefinition]
  rfl

theorem matchesRunIdPattern_of_latest {store : ArtifactStore}
    {platform : Platform} {files : RunDirectory}
    {runId stepId output : String} {answer : Option ArtifactRecord}
    (h : store.latest platform files runId stepId output = .ok answer) :
    matchesRunIdPattern runId = true := by
  unfold ArtifactStore.latest ArtifactStore.runDirectory at h
  by_cases hsafe : matchesRunIdPattern runId = true
  · exact hsafe
  · rw [if_neg hsafe] at h
    cases h

/-- What the finalization reads is stored. -/
private theorem StoredPayload.isStored {store : ArtifactStore} {storage : Platform}
    (hsha : ∀ payload, IsSha256Hex (storage.sha256Hex payload)) {run : WorkflowRunState}
    {calls : List ArtifactStore.WriteCall} (hcalls : ∀ call ∈ calls, call.request.runId = run.id)
    {output : String × String} {payload : Json}
    (h : StoredPayload (some (artifactReader store storage (store.history storage calls).files)) run
      output payload) :
    ∃ record, store.IsStored storage run.id (store.history storage calls).files record ∧
      record.stepId = output.1 ∧ parseJson record.payload = some payload := by
  obtain ⟨reader, hreader, artifact, hanswer, hpayload⟩ := h
  cases hreader
  unfold artifactReader at hanswer
  rw [ArtifactStore.mapError_ok_iff] at hanswer
  obtain ⟨records, hholds, -, -⟩ := ArtifactStore.history_holds hsha calls hcalls
  rcases hholds.latest hsha (matchesRunIdPattern_of_latest hanswer) output.1 output.2 with
    ⟨hnone, -⟩ | ⟨record, hmem, houtput, hlatest, -⟩
  · rw [hnone] at hanswer
    cases hanswer
  · rw [hlatest] at hanswer
    cases hanswer
    exact ⟨artifact, (hholds.isStored_iff hsha).mpr hmem, houtput.1, hpayload⟩

/-- Merge-ready evidence of a run over the artifacts some writes left names every category, in
order, and each was reviewed at the integration head. -/
def EvidenceCoversReviews (store : ArtifactStore) (storage : Platform) (run : WorkflowRunState)
    (calls : List ArtifactStore.WriteCall) : Prop :=
  ∀ (dependencies : WorkflowFinalizationDependencies) (result : WorkflowFinalizationResult)
    (ready : WorkflowMergeReady),
    dependencies.artifacts =
      some (artifactReader store storage (store.history storage calls).files) →
    finalizeWorkflowRun dependencies run = .ok result → result.mergeReady = some ready →
      ready.finalReviews.map (·.category) = ReviewCategory.all ∧
        ∀ category, ∃ record payload,
          store.IsStored storage run.id (store.history storage calls).files record ∧
          parseJson record.payload = some payload ∧ States category run.integrationHead payload

/-- The change workflow of one task. -/
def smallChangePlan : WorkflowPlan :=
  changeWorkflow (smallTaskPlan [smallTask "edit" [] "src/a"]).translated

/-- A step that is done and integrated. -/
def finishedRecord (definition : StepDefinition) : WorkflowStepRecord :=
  { initialStepRecord definition with state := .succeeded, integratedCommit := some "c1" }

/-- The run of the small workflow, completed. -/
def finishedRun : WorkflowRunState :=
  { smallRun smallChangePlan.steps with
    state := .completed
    plan := smallChangePlan
    integrationBranch := "conductor/run/integration"
    integrationHead := "c1"
    steps := smallChangePlan.steps.foldl (fun steps definition =>
      steps.set definition.id (finishedRecord definition)) .empty }

theorem smallChangePlan_built :
    buildChangeWorkflowPlan (smallTaskPlan [smallTask "edit" [] "src/a"]).toJson =
      .ok smallChangePlan := by
  apply buildChangeWorkflowPlan_ok_iff.mpr
  exact ⟨smallTaskPlan [smallTask "edit" [] "src/a"], by decide +kernel, by decide +kernel, rfl⟩

theorem changeRun_finishedRun : ChangeRun smallChangePlan finishedRun := by
  have hsteps := wellFormedSteps_of_built smallChangePlan_built
  have hnodup := nodup_stepIds hsteps
  refine ⟨⟨hsteps, ?_, ?_⟩, ⟨_, smallChangePlan_built⟩, fun _ hstep => hstep⟩
  · intro definition hdefinition
    exact ⟨finishedRecord definition,
      OrderedRecord.get?_foldl_set_of_mem _ finishedRecord hnodup hdefinition _, rfl⟩
  · intro stepId record hrecord
    rcases OrderedRecord.get?_foldl_set_cases _ finishedRecord hnodup hrecord with
      ⟨definition, hdefinition, hid, rfl⟩ | ⟨-, hnone⟩
    · exact ⟨hdefinition, hid⟩
    · rw [OrderedRecord.get?_empty] at hnone
      cases hnone

/-- The output of a reviewer that found nothing at a commit. -/
def cleanReport (category : ReviewCategory) (baseCommit : String) : String :=
  reviewReportStart ++ jsonText .compact (.obj [("version", .number 1),
    ("category", .str category.name), ("baseCommit", .str baseCommit), ("summary", .str "Fine."),
    ("findings", .arr [])]) ++ reviewReportEnd

/-- What the review of a step publishes when nothing is found at `c1`. -/
def cleanPublication (step : StepDefinition) : StepPublication where
  step
  attemptNumber := 1
  drafts := (executeReview plainPlatform
    { step, commit := "c1", upstreamArtifacts := [], capabilityProfile := defaultCapabilityProfiles.review
      workspacePath := none }
    { worker := .succeeded ((parseReviewStepId step.id).toOption.map fun named =>
        cleanReport named.2 "c1") none
      status := .ok [] }).2

theorem writeTime_nonempty : "1" ≠ "" := by decide

/-- The writes of all reviews of the small workflow. -/
def cleanCalls : List ArtifactStore.WriteCall :=
  (smallChangePlan.steps.filter fun step => stepProfileName step = .review).flatMap fun step =>
    ((planStepArtifacts "run" step 1 (cleanPublication step).drafts).toOption.getD []).map
      fun request => ⟨request, ⟨"1", writeTime_nonempty⟩⟩

private theorem routed_cleanCalls : ∀ call ∈ cleanCalls, Routed plainPlatform finishedRun call := by
  intro call hcall
  obtain ⟨step, hstep, hcall⟩ := List.mem_flatMap.mp hcall
  obtain ⟨request, hrequest, rfl⟩ := List.mem_map.mp hcall
  cases hrouted : planStepArtifacts "run" step 1 (cleanPublication step).drafts with
  | error message =>
    rw [hrouted] at hrequest
    cases hrequest
  | ok requests =>
    rw [hrouted] at hrequest
    exact ⟨cleanPublication step, requests, List.mem_of_mem_filter hstep,
      fun _ => ⟨_, _, rfl, rfl⟩, hrouted, hrequest⟩

private theorem artifactRoom : 1 ≤ 4096 ∧ 4096 ≤ maxSafeInteger := by decide

private theorem runRoom : 1 ≤ 64 ∧ 64 ≤ maxSafeInteger := by decide

private theorem byteRoom : 1 ≤ 1048576 ∧ 1048576 ≤ maxSafeInteger := by decide

private theorem attemptRoom : 1 ≤ 1 ∧ 1 ≤ maxSafeInteger := by decide

/-- A store with room for every review. -/
def reviewStore : ArtifactStore :=
  ⟨"/artifacts", ⟨4096, artifactRoom⟩, ⟨64, runRoom⟩, ⟨1048576, byteRoom⟩, some ⟨1, attemptRoom⟩⟩

theorem samplePlatform_digests (payload : String) :
    IsSha256Hex (ArtifactStore.samplePlatform.sha256Hex payload) := by
  show IsSha256Hex "e3b0c44298fc1c149afbf4c8996fb92427ae41e4649b934ca495991b7852b855"
  exact ⟨by decide, List.all_eq_true.mp (by decide +kernel)⟩

end BuildConductor.Review
