import BuildConductor.Review.RepairFindings
import BuildConductor.Review.ReviewHistory

/-!
# Adopted reviews

A later round adopts the review of the round before when nothing was committed in between, so what a
change run stores as a review is always a report some reviewer returned, its findings named for the
round that stores it. `src/src/engine/steps/review.ts:171-197,247-289`.
-/

namespace BuildConductor.Review

open Base Domain Engine Inspection Lifecycle Security Storage Workflows

/-! ## Adopting a published review -/

private theorem spreadWith_findingJson (finding : ReviewFinding) (id : String) :
    spreadWith (findingJson finding) "id" (.str id) = findingJson { finding with id } := by
  unfold findingJson findingProperties spreadWith
  cases finding.repairAttemptId with
  | none => simp [Json.definedFields, assignField]
  | some attemptId => simp [Json.definedFields, assignField]

private theorem rename_materialized (report : ParsedReviewReport) (category : ReviewCategory)
    (earlier round : Nat) :
    ((materializeReviewFindings report category earlier).map findingJson).zipIdx.map
        (fun (finding, index) =>
          spreadWith finding "id" (.str (reviewFindingId round category index))) =
      (materializeReviewFindings report category round).map findingJson := by
  unfold materializeReviewFindings
  apply List.ext_getElem
  · simp
  · intro index _ _
    simp only [List.getElem_map, List.getElem_zipIdx, spreadWith_findingJson, Nat.zero_add]

/-- An adopted review is the review its report would have been published as. -/
theorem adoptedPayload_reportPayload (report : ParsedReviewReport) (category : ReviewCategory)
    (baseCommit : String) (earlier round : Nat) :
    adoptedPayload (reportPayload category earlier baseCommit report).value round category =
      (reportPayload category round baseCommit report).value := by
  have hfindings : payloadFindings (reportPayload category earlier baseCommit report).value =
      (materializeReviewFindings report category earlier).map findingJson := rfl
  unfold adoptedPayload
  rw [hfindings, rename_materialized]
  unfold reportPayload reviewFindingsPayload spreadWith
  simp [assignField]

/-! ## Writes, and what they could read -/

/-- A step resolved its inputs from what an earlier prefix of the writes had left. -/
def LaunchedAfter (store : ArtifactStore) (storage : Platform) (run : WorkflowRunState)
    (calls : List ArtifactStore.WriteCall) (step : StepDefinition)
    (upstreamArtifacts : List ArtifactRecord) : Prop :=
  ∃ earlier inputs, earlier <+: calls ∧
    resolveStepInputs (artifactReader store storage (store.history storage earlier).files) run.id
      step = .ok (.resolved inputs) ∧
    upstreamArtifacts = inputs.map (·.artifact)

/-- The writes of a run, one after another: each is routed for some attempt of a step of the run,
and a review read only what was written before. The steps themselves may interleave in any way.
`src/src/engine/artifact-routing.ts:78-91`, `src/src/domain/step-context.ts:47-72`. -/
inductive RoutedHistory (store : ArtifactStore) (storage : Platform) (platform : ReportPlatform)
    (run : WorkflowRunState) : List ArtifactStore.WriteCall → Prop
  | nothing : RoutedHistory store storage platform run []
  | write {calls : List ArtifactStore.WriteCall} {call : ArtifactStore.WriteCall}
      {publication : StepPublication} {requests : List ArtifactWriteRequest} :
      RoutedHistory store storage platform run calls → publication.step ∈ run.plan.steps →
      (stepProfileName publication.step = .review → ∃ context execution,
        context.step = publication.step ∧
          LaunchedAfter store storage run calls context.step context.upstreamArtifacts ∧
          (executeReview platform context execution).2 = publication.drafts) →
      planStepArtifacts run.id publication.step publication.attemptNumber publication.drafts =
        .ok requests →
      call.request ∈ requests →
      RoutedHistory store storage platform run (calls ++ [call])

/-- A request that stores the report of a reviewer, as the review of a category in a round. -/
def StoresReport (platform : ReportPlatform) (round : Nat) (category : ReviewCategory)
    (request : ArtifactWriteRequest) : Prop :=
  request.kind = .findings ∧ ∃ output baseCommit report,
    parseReviewReport platform output category baseCommit = .ok report ∧
      request.payload = .json (some (reportPayload category round baseCommit report))

section Adoption

variable {store : ArtifactStore} {storage : Platform} {platform : ReportPlatform}
  {built : WorkflowPlan} {run : WorkflowRunState} {calls : List ArtifactStore.WriteCall}

private theorem requests_runId {publication : StepPublication} {requests : List ArtifactWriteRequest}
    {request : ArtifactWriteRequest}
    (h : planStepArtifacts run.id publication.step publication.attemptNumber publication.drafts =
      .ok requests) (hrequest : request ∈ requests) :
    request.runId = run.id ∧ request.stepId = publication.step.id := by
  obtain ⟨-, rfl⟩ := planStepArtifacts_ok_iff.mp h
  obtain ⟨draft, -, rfl⟩ := List.mem_map.mp hrequest
  exact ⟨rfl, rfl⟩

theorem RoutedHistory.runId (h : RoutedHistory store storage platform run calls) :
    ∀ call ∈ calls, call.request.runId = run.id := by
  induction h with
  | nothing => exact nofun
  | write _ _ _ hrouted hrequest ih =>
    rw [List.forall_mem_append]
    refine ⟨ih, ?_⟩
    intro call hcall
    rw [List.mem_singleton.mp hcall]
    exact (requests_runId hrouted hrequest).1

private theorem parseReviewStepId_rounds : ∀ round ∈ List.range' 1 rounds, ∀ category ∈
    ReviewCategory.all, (parseReviewStepId (reviewStepId round category)).toOption =
      some (round, category) := by
  decide +kernel

theorem parseReviewStepId_reviewStepId {round : Nat} (hround : round ∈ List.range' 1 rounds)
    (category : ReviewCategory) :
    parseReviewStepId (reviewStepId round category) = .ok (round, category) := by
  have h := parseReviewStepId_rounds round hround category category.mem_all
  cases hparse : parseReviewStepId (reviewStepId round category) with
  | error message =>
    rw [hparse] at h
    cases h
  | ok named =>
    rw [hparse] at h
    exact congrArg Except.ok (Option.some.inj h)

/-- The reviews of a change run are the generated ones. -/
private theorem ChangeRun.review {run : WorkflowRunState} (h : ChangeRun built run) {round : Nat}
    (hround : round ∈ List.range' 1 rounds) (category : ReviewCategory) :
    ∃ dependencies, reviewRoundStep round dependencies category ∈ run.plan.steps := by
  obtain ⟨document, hbuilt⟩ := h.document
  obtain ⟨legacy, -, -, rfl⟩ := buildChangeWorkflowPlan_ok_iff.mp hbuilt
  refine ⟨if round = 1 then Node.ids legacy.nodes else [repairStepId (round - 1)], h.planned _ ?_⟩
  rw [mem_changeWorkflow_iff, mem_generatedSteps_iff]
  exact Or.inr (Or.inl ⟨round, hround, category, rfl⟩)

/-- What a reader finds of a step was asked to be stored for it. -/
theorem artifactReader_requested (hsha : ∀ payload, IsSha256Hex (storage.sha256Hex payload))
    (hcalls : ∀ call ∈ calls, call.request.runId = run.id) {stepId output : String}
    {record : ArtifactRecord}
    (h : artifactReader store storage (store.history storage calls).files run.id stepId output =
      .ok (some record)) :
    record.stepId = stepId ∧ ∃ call ∈ calls, ArtifactStore.Requests call.request record := by
  unfold artifactReader at h
  rw [ArtifactStore.mapError_ok_iff] at h
  obtain ⟨records, hholds, -, -⟩ := ArtifactStore.history_holds hsha calls hcalls
  rcases hholds.latest hsha (matchesRunIdPattern_of_latest h) stepId output with
    ⟨hnone, -⟩ | ⟨found, hmem, houtput, hlatest, -⟩
  · rw [hnone] at h
    cases h
  · rw [hlatest] at h
    cases h
    exact ⟨houtput.1, ArtifactStore.isStored_requested hsha hcalls ((hholds.isStored_iff hsha).mpr hmem)⟩

/-- What stores a report holds the text of the report. -/
theorem StoresReport.payload {round : Nat} {category : ReviewCategory}
    {request : ArtifactWriteRequest} (h : StoresReport platform round category request)
    {record : ArtifactRecord} (hrequests : ArtifactStore.Requests request record) :
    record.kind = .findings ∧ ∃ output baseCommit report,
      parseReviewReport platform output category baseCommit = .ok report ∧
        parseJson record.payload = some (reportPayload category round baseCommit report).value := by
  obtain ⟨hkind, output, baseCommit, report, hreport, hpayload⟩ := h
  refine ⟨hrequests.kind.trans hkind, output, baseCommit, report, hreport, ?_⟩
  have hstored := hrequests.payload
  rw [hkind, hpayload] at hstored
  unfold serializeArtifactPayload at hstored
  rw [seq_ok_iff] at hstored
  rw [← Except.ok.inj hstored.2]
  exact parseJson_jsonText_self .indented (reportPayload category round baseCommit report).writable

private theorem jsonValue_eq {left right : JsonValue} (h : left.value = right.value) :
    left = right := by
  cases left
  cases right
  cases h
  rfl

/-- What a round adopts is the report behind the input it adopts. -/
private theorem adopted_report {category : ReviewCategory} {baseCommit : String}
    {artifacts : List ArtifactRecord} {adopted : JsonValue}
    (hadopted : adoptablePriorFindings artifacts category baseCommit = some adopted)
    (hartifacts : ∀ artifact ∈ artifacts, ∃ earlier output commit report,
      parseReviewReport platform output category commit = .ok report ∧
        parseJson artifact.payload = some (reportPayload category earlier commit report).value) :
    ∃ earlier output report, parseReviewReport platform output category baseCommit = .ok report ∧
      adopted.value = (reportPayload category earlier baseCommit report).value := by
  have hstates := adoptablePriorFindings_states hadopted
  obtain ⟨artifact, hmem, hadoptable⟩ := List.exists_of_findSome?_eq_some hadopted
  obtain ⟨earlier, output, commit, report, hreport, hpayload⟩ := hartifacts artifact hmem
  have hvalue : adopted.value = (reportPayload category earlier commit report).value := by
    unfold adoptable at hadoptable
    split at hadoptable
    · cases hadoptable
    · rw [Option.filter_eq_some_iff] at hadoptable
      obtain ⟨hread, -⟩ := hadoptable
      unfold readJsonValue at hread
      split at hread
      · next value hvalue =>
        cases hread
        rw [hpayload] at hvalue
        exact (Option.some.inj hvalue).symm
      · cases hread
  have hcommit : commit = baseCommit := by
    have hstated := hstates.2
    rw [hvalue] at hstated
    exact Json.str.inj (Option.some.inj (Except.ok.inj hstated))
  rw [hcommit] at hreport hvalue
  exact ⟨earlier, output, report, hreport, hvalue⟩

/-- One more review of a change run stores a report when those before it do. -/
private theorem review_stores_report (hsha : ∀ payload, IsSha256Hex (storage.sha256Hex payload))
    (hbefore : ∀ call ∈ calls, call.request.runId = run.id)
    (hreports : ∀ call ∈ calls, ∀ round ∈ List.range' 1 rounds, ∀ category,
      call.request.stepId = reviewStepId round category →
        StoresReport platform round category call.request)
    {round : Nat} (hround : round ∈ List.range' 1 rounds) {category : ReviewCategory}
    {dependencies : List String} {context : ReviewStepContext} {execution : ReviewExecution}
    (hstep : context.step = reviewRoundStep round dependencies category)
    (hlaunched : LaunchedAfter store storage run calls context.step context.upstreamArtifacts) {draft : StepArtifactDraft}
    (hdraft : draft ∈ (executeReview platform context execution).2) (attemptNumber : Nat) :
    StoresReport platform round category (draftRequest run.id context.step attemptNumber draft) := by
  obtain ⟨-, hkind, round', category', payload, hparse, hpayload, hsource⟩ :=
    executeReview_draft hdraft
  have hid : context.step.id = reviewStepId round category := by
    rw [hstep]
    rfl
  rw [hid, parseReviewStepId_reviewStepId hround category] at hparse
  cases hparse
  refine ⟨hkind, ?_⟩
  cases hsource with
  | @reported output workerId report _ hreport =>
    exact ⟨output, context.commit, report, hreport, hpayload⟩
  | @adopted adopted hadopted =>
    obtain ⟨earlier, inputs, hearlier, hresolved, hupstream⟩ := hlaunched
    have hartifacts : ∀ artifact ∈ context.upstreamArtifacts, ∃ earlier output commit report,
        parseReviewReport platform output category commit = .ok report ∧
          parseJson artifact.payload = some (reportPayload category earlier commit report).value := by
      rw [hupstream, List.forall_mem_map]
      intro input hinput
      obtain ⟨reference, hreference, hresolves⟩ :=
        exists_left_of_forall₂ (resolveStepInputs_resolved hresolved) hinput
      rw [hstep] at hreference
      unfold reviewRoundStep at hreference
      dsimp only at hreference
      by_cases hlater : round > 1
      · rw [if_pos hlater] at hreference
        rw [Option.map_some, Option.getD_some, List.mem_singleton] at hreference
        have hprevious : round - 1 ∈ List.range' 1 rounds := by
          rw [List.mem_range'_1] at hround ⊢
          omega
        obtain ⟨hsame, call, hcall, hrequests⟩ := artifactReader_requested hsha
          (fun call hcall => hbefore call (hearlier.subset hcall)) hresolves.artifact
        have hcallId : call.request.stepId = reviewStepId (round - 1) category := by
          have hidentity := congrArg ArtifactIdentity.stepId hrequests.identity
          rw [← hidentity]
          exact hsame.trans (congrArg StepInputReference.stepId hreference)
        have hstores := hreports call (hearlier.subset hcall) _ hprevious category hcallId
        obtain ⟨-, output, commit, report, hreport, hread⟩ := hstores.payload hrequests
        exact ⟨round - 1, output, commit, report, hreport, hread⟩
      · rw [if_neg hlater] at hreference
        cases hreference
    obtain ⟨earlierRound, output, report, hreport, hvalue⟩ := adopted_report hadopted hartifacts
    refine ⟨output, context.commit, report, hreport, ?_⟩
    unfold draftRequest
    dsimp only
    rw [hpayload]
    congr 2
    apply jsonValue_eq
    dsimp only
    rw [hvalue, adoptedPayload_reportPayload]

theorem RoutedHistory.reviews (hsha : ∀ payload, IsSha256Hex (storage.sha256Hex payload))
    (hrun : ChangeRun built run) (h : RoutedHistory store storage platform run calls) :
    ∀ call ∈ calls, ∀ round ∈ List.range' 1 rounds, ∀ category,
      call.request.stepId = reviewStepId round category →
        StoresReport platform round category call.request := by
  induction h with
  | nothing => exact nofun
  | @write calls call publication requests hcalls hplanned hhandled hrouted hrequest ih =>
    rw [List.forall_mem_append]
    refine ⟨ih, ?_⟩
    intro last hlast round hround category hid
    rw [List.mem_singleton] at hlast
    rw [hlast] at hid ⊢
    obtain ⟨dependencies, hreview⟩ := hrun.review hround category
    have hsame : publication.step = reviewRoundStep round dependencies category := by
      apply List.inj_on_of_nodup_map (nodup_stepIds hrun.kept.steps) hplanned hreview
      exact (requests_runId hrouted hrequest).2.symm.trans hid
    have hprofile : stepProfileName publication.step = .review := by
      rw [hsame]
      rfl
    obtain ⟨context, execution, hcontext, hlaunched, hdrafts⟩ := hhandled hprofile
    obtain ⟨-, rfl⟩ := planStepArtifacts_ok_iff.mp hrouted
    obtain ⟨draft, hdraft, hdrafted⟩ := List.mem_map.mp hrequest
    rw [← hdrafts] at hdraft
    rw [← hdrafted, ← hcontext]
    exact review_stores_report hsha hcalls.runId ih hround (hcontext.trans hsame) hlaunched
      hdraft publication.attemptNumber

/-! ## What a repair reads -/

/-- A report some reviewer returned for a category. -/
def Reported (platform : ReportPlatform) (category : ReviewCategory) (report : ParsedReviewReport) :
    Prop :=
  ∃ output baseCommit, parseReviewReport platform output category baseCommit = .ok report

/-- The findings of one report for each category. -/
def reportedFindings (round : Nat) (categories : List ReviewCategory)
    (reports : List ParsedReviewReport) : List ReviewFinding :=
  (categories.zip reports).flatMap fun entry => materializeReviewFindings entry.2 entry.1 round

private theorem findingsFromInputs_reported {round : Nat} {categories : List ReviewCategory}
    {artifacts : List ArtifactRecord}
    (h : List.Forall₂ (fun category artifact => ∃ report, Reported platform category report ∧
      inputFindings artifact = some (materializeReviewFindings report category round))
      categories artifacts) :
    ∃ reports, List.Forall₂ (Reported platform) categories reports ∧
      findingsFromInputs artifacts = some (reportedFindings round categories reports) := by
  induction h with
  | nil => exact ⟨[], .nil, rfl⟩
  | cons hfirst _ ih =>
    obtain ⟨report, hreport, hread⟩ := hfirst
    obtain ⟨reports, hreports, hrest⟩ := ih
    refine ⟨report :: reports, .cons hreport hreports, ?_⟩
    unfold findingsFromInputs reportedFindings at hrest ⊢
    rw [Option.map_eq_map, Option.map_eq_some_iff] at hrest
    obtain ⟨lists, hlists, hflat⟩ := hrest
    rw [List.mapM_cons, hread, hlists, List.zip_cons_cons, List.flatMap_cons, ← hflat]
    rfl

private theorem ChangeRun.repair {run : WorkflowRunState} (h : ChangeRun built run) {round : Nat}
    (hround : round ∈ List.range' 1 changeWorkflowRepairRounds) :
    ∃ paths commands, repairRoundStep round paths commands ∈ run.plan.steps := by
  obtain ⟨document, hbuilt⟩ := h.document
  obtain ⟨legacy, -, -, rfl⟩ := buildChangeWorkflowPlan_ok_iff.mp hbuilt
  refine ⟨repairPaths legacy.translated.steps, legacy.finalValidationCommands, h.planned _ ?_⟩
  rw [mem_changeWorkflow_iff, mem_generatedSteps_iff]
  exact Or.inr (Or.inr ⟨round, hround, rfl⟩)

/-- The repair of a round is generated with the plan. -/
theorem ChangeRun.repairStep {run : WorkflowRunState} (h : ChangeRun built run) {round : Nat}
    (hround : round ∈ List.range' 1 changeWorkflowRepairRounds) {step : StepDefinition}
    (hstep : step ∈ run.plan.steps) (hid : step.id = repairStepId round) :
    ∃ paths commands, step = repairRoundStep round paths commands := by
  obtain ⟨paths, commands, hgenerated⟩ := h.repair hround
  exact ⟨paths, commands, List.inj_on_of_nodup_map (nodup_stepIds h.kept.steps) hstep hgenerated hid⟩

/-- The inputs of a repair are one report for each category. -/
theorem RoutedHistory.repairInputs (hsha : ∀ payload, IsSha256Hex (storage.sha256Hex payload))
    (hrun : ChangeRun built run) (h : RoutedHistory store storage platform run calls) {round : Nat}
    (hround : round ∈ List.range' 1 changeWorkflowRepairRounds) {paths : List String}
    {commands : List ValidationCommand} {artifacts : List ArtifactRecord}
    (hlaunched : LaunchedAfter store storage run calls (repairRoundStep round paths commands)
      artifacts) :
    ∃ reports, List.Forall₂ (Reported platform) ReviewCategory.all reports ∧
      findingsFromInputs artifacts = some (reportedFindings round ReviewCategory.all reports) := by
  obtain ⟨earlier, inputs, hearlier, hresolved, rfl⟩ := hlaunched
  apply findingsFromInputs_reported
  have hreviews : round ∈ List.range' 1 rounds := by
    unfold rounds
    rw [List.mem_range'_1] at hround ⊢
    omega
  have hinputs := resolveStepInputs_resolved hresolved
  have hreferences : (repairRoundStep round paths commands).inputs.getD [] =
      ReviewCategory.all.map fun category => ⟨reviewStepId round category, reviewFindingsOutput⟩ := rfl
  rw [hreferences, List.forall₂_map_left_iff] at hinputs
  rw [List.forall₂_map_right_iff]
  apply hinputs.imp
  intro category input hresolves
  obtain ⟨hsame, call, hcall, hrequests⟩ := artifactReader_requested hsha
    (fun call hcall => h.runId call (hearlier.subset hcall)) hresolves.artifact
  have hcallId : call.request.stepId = reviewStepId round category := by
    have hidentity := congrArg ArtifactIdentity.stepId hrequests.identity
    rw [← hidentity]
    exact hsame
  obtain ⟨hkind, output, baseCommit, report, hreport, hread⟩ :=
    (h.reviews hsha hrun call (hearlier.subset hcall) round hreviews category hcallId).payload hrequests
  refine ⟨report, ⟨output, baseCommit, hreport⟩, ?_⟩
  unfold inputFindings
  rw [if_neg (not_not.mpr hkind), hread]
  exact payloadFindings_read category baseCommit report.summary _

end Adoption

/-- Every stored review is a report that a reviewer returned for its category, with its findings
named for its round. -/
def StoredReviewsReported (store : ArtifactStore) (storage : Platform) (platform : ReportPlatform)
    (run : WorkflowRunState) (calls : List ArtifactStore.WriteCall) : Prop :=
  ∀ round ∈ List.range' 1 rounds, ∀ (category : ReviewCategory) (record : ArtifactRecord),
    store.IsStored storage run.id (store.history storage calls).files record →
    record.stepId = reviewStepId round category →
      record.kind = .findings ∧ ∃ output baseCommit report,
        parseReviewReport platform output category baseCommit = .ok report ∧
          parseJson record.payload = some (reportPayload category round baseCommit report).value

/-- The review of correctness in the first round. -/
def firstReview : StepDefinition := reviewRoundStep 1 ["edit"] .correctness

/-- It is launched before anything is stored. -/
def firstReviewContext : ReviewStepContext where
  step := firstReview
  commit := "c1"
  upstreamArtifacts := []
  capabilityProfile := defaultCapabilityProfiles.review
  workspacePath := none

/-- Its reviewer finds nothing. -/
def firstReviewExecution : ReviewExecution where
  worker := .succeeded (some (cleanReport .correctness "c1")) none
  status := .ok []

/-- What it publishes. -/
def firstPublication : StepPublication where
  step := firstReview
  attemptNumber := 1
  drafts := (executeReview plainPlatform firstReviewContext firstReviewExecution).2

/-- The writes of its report. -/
def firstReviewCalls : List ArtifactStore.WriteCall :=
  ((planStepArtifacts "run" firstPublication.step firstPublication.attemptNumber
    firstPublication.drafts).toOption.getD []).map fun request => ⟨request, ⟨"1", writeTime_nonempty⟩⟩

private theorem length_firstReviewCalls : firstReviewCalls.length = 1 := by
  decide +kernel

private theorem exists_ok_of_mem_toOption {α : Type} {x : Except String (List α)} {a : α}
    (h : a ∈ x.toOption.getD []) : ∃ items, x = .ok items ∧ a ∈ items := by
  cases x with
  | error message => cases h
  | ok items => exact ⟨items, rfl, h⟩

theorem routedHistory_firstReviewCalls :
    RoutedHistory reviewStore ArtifactStore.samplePlatform plainPlatform finishedRun
      firstReviewCalls := by
  obtain ⟨call, hcall⟩ := List.length_eq_one_iff.mp length_firstReviewCalls
  have hmem : call ∈ firstReviewCalls := by
    rw [hcall]
    exact List.mem_singleton_self call
  obtain ⟨request, hrequest, rfl⟩ := List.mem_map.mp hmem
  rw [hcall, ← List.nil_append [_]]
  obtain ⟨requests, hrouted, hmem⟩ := exists_ok_of_mem_toOption hrequest
  have hplanned : firstPublication.step ∈ finishedRun.plan.steps := by
    show firstReview ∈ smallChangePlan.steps
    decide +kernel
  have hlaunched : LaunchedAfter reviewStore ArtifactStore.samplePlatform finishedRun []
      firstReviewContext.step firstReviewContext.upstreamArtifacts := by
    refine ⟨[], [], List.nil_prefix, ?_, rfl⟩
    have hinputs : firstReviewContext.step.inputs = none := rfl
    unfold resolveStepInputs
    rw [hinputs]
    rfl
  have hdrafts : (executeReview plainPlatform firstReviewContext firstReviewExecution).2 =
      firstPublication.drafts := by
    dsimp only [firstPublication]
  exact .write .nothing hplanned
    (fun _ => ⟨firstReviewContext, firstReviewExecution, rfl, hlaunched, hdrafts⟩) hrouted hmem

end BuildConductor.Review
