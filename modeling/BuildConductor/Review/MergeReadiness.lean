import BuildConductor.Domain.ParsedValues
import BuildConductor.Domain.Runs
import BuildConductor.Engine.Finalization
import BuildConductor.Engine.ArtifactRouting
import BuildConductor.Inspection.EngineRunView
import BuildConductor.Review.ReviewStep

/-!
# Merge readiness

Finalization of a completed run: its reviews must cover the head that would be merged, and the final
suite must pass at exactly that head, before any evidence is assembled. What the store answers is
parsed and taken to be a review. `src/src/engine/finalization.ts:94-317`.
-/

namespace BuildConductor.Review

open Base Domain Engine Git Inspection Security Storage

/-! ## The reviews behind the head -/

/-- What one declared output of a review holds. -/
inductive ReviewReading
  | unavailable (name : String)
  | current (category : Option Json) (payload : Json)
  | stale (category : Option Json)

/-- The summary of one category. -/
structure ReviewSummary where
  category : ReviewCategory
  summary : Option Json

/-- `src/src/engine/finalization.ts:94-99`. -/
structure ReviewOutcomes where
  summaries : List ReviewSummary
  risks : List Json
  gap : Option String

/-- The review steps with their outputs, in order. `src/src/engine/finalization.ts:115-121`. -/
def reviewSteps (state : WorkflowRunState) : List (String × List String) :=
  (topologicalStepIds state.plan).filterMap fun stepId =>
    (state.steps.get? stepId).bind fun record =>
      if stepProfileName record.definition = .review then
        some (stepId, record.definition.outputs.getD [])
      else none

/-- A payload counts as a review of the head it names. `src/src/engine/finalization.ts:149-154`. -/
def readPayload (integrationHead : String) (payload : Json) : Except String ReviewReading := do
  let baseCommit ← payload.property "baseCommit"
  let category ← payload.property "category"
  pure (if Json.isText baseCommit integrationHead then .current category payload else .stale category)

section Reading

variable (syntaxMessage : String → String) (artifacts : StepArtifactReader) (state : WorkflowRunState)

/-- `src/src/engine/finalization.ts:143-155`. -/
def readReviewOutput (stepId output : String) : Except String ReviewReading := do
  match ← artifacts state.id stepId output with
  | none => pure (.unavailable s!"{stepId}.{output}")
  | some artifact =>
    let payload ← require (parseJson artifact.payload) (syntaxMessage artifact.payload)
    readPayload state.integrationHead payload

/-- `src/src/engine/finalization.ts:138-156`. -/
def readReviewStep (step : String × List String) : Except String (List ReviewReading) :=
  if step.2 = [] then pure [.unavailable step.1]
  else step.2.mapM (readReviewOutput syntaxMessage artifacts state step.1)

end Reading

/-- The name of an output that is missing. -/
def ReviewReading.unavailable? : ReviewReading → Option String
  | .unavailable name => some name
  | _ => none

/-- The key and the payload of a review of the head. -/
def ReviewReading.current? : ReviewReading → Option (Option Json × Json)
  | .current category payload => some (category, payload)
  | _ => none

/-- The key of a review of an earlier head. -/
def ReviewReading.stale? : ReviewReading → Option (Option Json)
  | .stale category => some category
  | _ => none

/-- The newest review of the head for a category: a later one replaces an earlier one.
`src/src/engine/finalization.ts:151,167`. -/
def latestPayload (readings : List ReviewReading) (category : ReviewCategory) : Option Json :=
  ((readings.filterMap ReviewReading.current?).filter fun entry =>
    Json.isText entry.1 category.name).getLast?.map Prod.snd

/-- The items a loop over `value ?? []` visits. -/
def iterate (value : Option Json) : Except String (List Json) :=
  match value with
  | none | some .null => pure []
  | some (.arr items) => pure items
  | some (.str s) => pure (s.toList.map fun c => .str (String.singleton c))
  | some _ => .error "payload.findings is not iterable"

/-- A finding no repair settled. `src/src/engine/finalization.ts:173`. -/
def isOpenFinding (finding : Json) : Except String Bool := do
  let status ← finding.property "status"
  pure !Json.isText status "repaired"

/-- The findings of a category that stay open. `src/src/engine/finalization.ts:172-176`. -/
def openFindings (payload : Json) : Except String (List Json) := do
  let findings ← iterate (← payload.property "findings")
  findings.filterM isOpenFinding

/-- `src/src/engine/finalization.ts:166-177`. -/
def categoryOutcome (readings : List ReviewReading) (category : ReviewCategory) :
    Except String (Option (ReviewSummary × List Json)) :=
  match latestPayload readings category with
  | none => pure none
  | some payload => do
    let summary ← payload.property "summary"
    let risks ← openFindings payload
    pure (some (⟨category, summary⟩, risks))

/-- The id a risk is sorted by. -/
def riskId (risk : Json) : Except String String := do
  match ← risk.property "id" with
  | some (.str id) => pure id
  | _ => .error "left.id.localeCompare is not a function"

/-- A single risk is not compared. `src/src/engine/finalization.ts:179`. -/
def sortRisks (localeCompare : String → String → Bool) (risks : List Json) :
    Except String (List Json) :=
  if risks.length ≤ 1 then pure risks
  else do
    let named ← risks.mapM fun risk => (fun id => (id, risk)) <$> riskId risk
    pure ((named.mergeSort fun left right => localeCompare left.1 right.1).map Prod.snd)

/-- `src/src/review/review-policy.ts:23-29`, on a value taken to be a finding. -/
def requiresRepair (finding : Json) : Bool :=
  match finding with
  | .obj fields =>
    Json.isText (Json.field fields "severity") "critical" ||
      Json.isText (Json.field fields "severity") "high" ||
      (Json.isText (Json.field fields "severity") "medium" &&
        Json.isText (Json.field fields "confidence") "high")
  | _ => false

/-- The keys of a set, in the order they were added. -/
def distinctKeys (keys : List (Option Json)) : List (Option Json) :=
  keys.foldl (fun seen key => if seen.any (Json.sameKey · key) then seen else seen ++ [key]) []

/-- The categories that were reviewed, but not at the head. `src/src/engine/finalization.ts:180-182`. -/
def missingCategories (readings : List ReviewReading) : List (Option Json) :=
  (distinctKeys (readings.filterMap ReviewReading.stale?)).filter fun key =>
    !((readings.filterMap ReviewReading.current?).any fun entry => Json.sameKey entry.1 key)

/-- What a list of values joins to. -/
def joinValues (values : List (Option Json)) : String :=
  joinNames (values.map fun value => (value.map Json.joinText).getD "")

/-- The outcomes of readings that are all available. `src/src/engine/finalization.ts:164-203`. -/
def outcomesOf (localeCompare : String → String → Bool) (integrationHead : String)
    (readings : List ReviewReading) : Except String ReviewOutcomes := do
  let outcomes ← ReviewCategory.all.mapM (categoryOutcome readings)
  let reviewed := outcomes.filterMap id
  let summaries := reviewed.map Prod.fst
  let risks ← sortRisks localeCompare (reviewed.flatMap Prod.snd)
  let missing := missingCategories readings
  let unrepaired := risks.filter requiresRepair
  if missing ≠ [] then
    pure ⟨summaries, risks, some s!"No {joinValues missing} review covers the final integrated commit {integrationHead}"⟩
  else if unrepaired ≠ [] then do
    let ids ← unrepaired.mapM fun risk => risk.property "id"
    pure ⟨summaries, risks, some s!"Important findings remain after the approved repair rounds: {joinValues ids}"⟩
  else pure ⟨summaries, risks, none⟩

/-- `src/src/engine/finalization.ts:111-203`. -/
def reviewOutcomes (syntaxMessage : String → String) (localeCompare : String → String → Bool)
    (artifacts : Option StepArtifactReader) (state : WorkflowRunState) :
    Except String ReviewOutcomes :=
  if reviewSteps state = [] then pure ⟨[], [], none⟩
  else
    match artifacts with
    | none => pure ⟨[], [],
        some s!"Review evidence is unavailable for {joinNames ((reviewSteps state).map Prod.fst)}"⟩
    | some artifacts => do
      let readings := (← (reviewSteps state).mapM
        (readReviewStep syntaxMessage artifacts state)).flatten
      let unavailable := readings.filterMap ReviewReading.unavailable?
      if unavailable ≠ [] then
        pure ⟨[], [], some s!"Review evidence is unavailable for {joinNames unavailable}"⟩
      else outcomesOf localeCompare state.integrationHead readings

/-! ## Finalization -/

/-- `src/src/engine/finalization.ts:205-227`. -/
def assertFinalizableStep (state : WorkflowRunState) (stepId : String) : Except String Unit := do
  let record ← require ((state.steps.get? stepId).filter fun record => record.state = .succeeded)
    s!"Cannot finalize workflow run {state.id}; step {stepId} has not succeeded"
  ensure (stepRequiresIntegration state.capabilityProfiles record.definition = true →
      present record.integratedCommit ≠ none)
    s!"Cannot finalize workflow run {state.id}; mutating step {stepId} has not been integrated"

/-- `src/src/engine/finalization.ts:205-227`. -/
def assertFinalizableState (state : WorkflowRunState) : Except String Unit := do
  ensure (state.state = .completed)
    s!"Cannot finalize workflow run {state.id} in {state.state.name} state; expected completed"
  forM (topologicalStepIds state.plan) (assertFinalizableStep state)

/-- How the final suite ends: a suite that fails is thrown with its evidence. -/
inductive FinalValidationAnswer
  | passed (evidence : FinalValidationEvidence)
  | failed (evidence : FinalValidationEvidence)
  | thrown (error : String)

/-- What finalization depends on: the store, the worktrees, the validator, git and the clock.
`src/src/engine/finalization.ts:26-44`. -/
structure WorkflowFinalizationDependencies where
  artifacts : Option StepArtifactReader
  prepareFinalValidationWorktree : String → Except String String
  removeTaskWorktree : String → Except String Unit
  /-- The suite in a worktree, at a commit. -/
  validate : String → String → List ValidationCommand → FinalValidationAnswer
  history : HistoryAnswers
  securityPolicy : RunSecurityPolicy
  now : String
  /-- The error a run was aborted with. -/
  aborted : Option String
  onValidationReady : Except String Unit
  syntaxMessage : String → String
  localeCompare : String → String → Bool

/-- The evidence of a workflow that may be merged. `src/src/engine/finalization.ts:303-315`. -/
structure WorkflowMergeReady where
  generatedAt : String
  securityPolicy : RunSecurityPolicy
  integrationBranch : String
  integrationHead : String
  baseBranch : String
  baseCommit : String
  commits : List IntegratedCommitEvidence
  finalReviews : List ReviewSummary
  remainingRisks : List Json
  finalChecks : List ValidationCheckEvidence
  git : List GitCommitEvidence

/-- `src/src/engine/finalization.ts:46-59`. -/
structure WorkflowFinalizationResult where
  evidence : Option FinalValidationEvidence
  mergeReady : Option WorkflowMergeReady
  evidenceGap : Option String
  worktreePath : Option String

section Finalization

variable (dependencies : WorkflowFinalizationDependencies) (state : WorkflowRunState)

/-- The suite at the head, in a worktree that is removed whatever happens.
`src/src/engine/finalization.ts:255-287`. -/
def runFinalSuite : Except String (String × FinalValidationEvidence) := do
  let worktreePath ← dependencies.prepareFinalValidationWorktree state.integrationHead
  let answer := dependencies.validate worktreePath state.integrationHead
    state.plan.finalValidationCommands
  dependencies.removeTaskWorktree worktreePath
  match answer with
  | .passed evidence | .failed evidence => pure (worktreePath, evidence)
  | .thrown error => .error error

/-- What a passed suite is assembled to. `src/src/engine/finalization.ts:288-316`. -/
def assembleMergeReady (outcomes : ReviewOutcomes) (evidence : FinalValidationEvidence) :
    Except String WorkflowMergeReady := do
  let commits ← integratedCommitEvidence state
  let git ← verifyMergeReadyHistory dependencies.history (mergeReadyHistoryInput state commits)
  pure
    { generatedAt := dependencies.now
      securityPolicy := dependencies.securityPolicy
      integrationBranch := state.integrationBranch
      integrationHead := state.integrationHead
      baseBranch := state.baseBranch
      baseCommit := state.baseCommit
      commits
      finalReviews := outcomes.summaries
      remainingRisks := outcomes.risks
      finalChecks := evidence.checks
      git }

/-- `src/src/engine/finalization.ts:234-317`. -/
def finalizeWorkflowRun : Except String WorkflowFinalizationResult := do
  assertFinalizableState state
  let outcomes ← reviewOutcomes dependencies.syntaxMessage dependencies.localeCompare
    dependencies.artifacts state
  match outcomes.gap with
  | some gap => pure ⟨none, none, some gap, none⟩
  | none =>
    match dependencies.aborted with
    | some error => .error error
    | none => do
      dependencies.onValidationReady
      let (worktreePath, evidence) ← runFinalSuite dependencies state
      if evidence.passed = false then pure ⟨some evidence, none, none, some worktreePath⟩
      else do
        let mergeReady ← assembleMergeReady dependencies state outcomes evidence
        pure ⟨some evidence, some mergeReady, none, some worktreePath⟩

end Finalization

/-! ## What merge readiness means -/

/-- The steps of a state are done and what they changed is integrated. -/
structure Finalizable (state : WorkflowRunState) : Prop where
  completed : state.state = .completed
  steps : ∀ stepId ∈ topologicalStepIds state.plan, ∃ record, state.steps.get? stepId = some record ∧
    record.state = .succeeded ∧
    (stepRequiresIntegration state.capabilityProfiles record.definition = true →
      present record.integratedCommit ≠ none)

theorem assertFinalizableState_ok_iff {state : WorkflowRunState} :
    assertFinalizableState state = .ok () ↔ Finalizable state := by
  unfold assertFinalizableState assertFinalizableStep
  simp only [bind_ok_iff, exists_unit_iff, ensure_ok_iff, forM_ok_iff, require_ok_iff,
    Option.filter_eq_some_iff, decide_eq_true_eq]
  constructor
  · rintro ⟨hcompleted, hsteps⟩
    refine ⟨hcompleted, fun stepId hstep => ?_⟩
    obtain ⟨record, ⟨hget, hsucceeded⟩, hintegrated⟩ := hsteps stepId hstep
    exact ⟨record, hget, hsucceeded, hintegrated⟩
  · rintro ⟨hcompleted, hsteps⟩
    refine ⟨hcompleted, fun stepId hstep => ?_⟩
    obtain ⟨record, hget, hsucceeded, hintegrated⟩ := hsteps stepId hstep
    exact ⟨record, ⟨hget, hsucceeded⟩, hintegrated⟩

/-- The outputs the review steps declare, in order. -/
def reviewOutputs (state : WorkflowRunState) : List (String × String) :=
  (reviewSteps state).flatMap fun step => step.2.map fun output => (step.1, output)

/-- A payload is stored for an output. -/
def StoredPayload (artifacts : Option StepArtifactReader) (state : WorkflowRunState)
    (output : String × String) (payload : Json) : Prop :=
  ∃ reader, artifacts = some reader ∧ ∃ artifact,
    reader state.id output.1 output.2 = .ok (some artifact) ∧
      parseJson artifact.payload = some payload

/-- A review of a category at a commit. -/
def reviewsAt (integrationHead : String) (category : ReviewCategory) (payload : Json) : Bool :=
  match payload with
  | .obj fields =>
    Json.isText (Json.field fields "baseCommit") integrationHead &&
      Json.isText (Json.field fields "category") category.name
  | _ => false

/-- The newest review of a category at a commit. -/
def newestReview (integrationHead : String) (payloads : List Json) (category : ReviewCategory) :
    Option Json :=
  (payloads.filter (reviewsAt integrationHead category)).getLast?

/-- The stored reviews speak for the head of a state: every review step declares an output, every
declared output is stored, every category that was reviewed was reviewed at the head, and no newest
review of the head leaves a finding open that requires a repair. -/
structure ReviewsHold (artifacts : Option StepArtifactReader) (state : WorkflowRunState)
    (payloads : List Json) : Prop where
  declared : ∀ step ∈ reviewSteps state, step.2 ≠ []
  stored : List.Forall₂ (StoredPayload artifacts state) (reviewOutputs state) payloads
  covered : ∀ payload ∈ payloads, ∃ current ∈ payloads,
    current.property "baseCommit" = .ok (some (.str state.integrationHead)) ∧
      current.property "category" = payload.property "category"
  repaired : ∀ category payload, newestReview state.integrationHead payloads category = some payload →
    ∃ findings, openFindings payload = .ok findings ∧
      ∀ finding ∈ findings, requiresRepair finding = false

/-- The summaries and the risks are those of the newest reviews of the head. -/
structure Summarizes (integrationHead : String) (payloads : List Json) (summaries : List ReviewSummary)
    (risks : List Json) : Prop where
  categories : summaries.map (·.category) = ReviewCategory.all.filter fun category =>
    (newestReview integrationHead payloads category).isSome
  summaries : ∀ summary ∈ summaries, ∃ payload,
    newestReview integrationHead payloads summary.category = some payload ∧
      payload.property "summary" = .ok summary.summary
  risks : ∀ risk, risk ∈ risks ↔ ∃ category payload findings,
    newestReview integrationHead payloads category = some payload ∧
      openFindings payload = .ok findings ∧ risk ∈ findings

/-- The final suite passed in a worktree at a commit. -/
def SuitePassed (dependencies : WorkflowFinalizationDependencies) (state : WorkflowRunState)
    (checks : List ValidationCheckEvidence) : Prop :=
  ∃ worktreePath evidence,
    dependencies.prepareFinalValidationWorktree state.integrationHead = .ok worktreePath ∧
    (dependencies.validate worktreePath state.integrationHead state.plan.finalValidationCommands =
        .passed evidence ∨
      dependencies.validate worktreePath state.integrationHead state.plan.finalValidationCommands =
        .failed evidence) ∧
    evidence.passed = true ∧ evidence.checks = checks

/-- What the readings of some payloads are. -/
def Read (integrationHead : String) (payloads : List Json) (readings : List ReviewReading) : Prop :=
  List.Forall₂ (fun payload reading => readPayload integrationHead payload = .ok reading)
    payloads readings

/-! ### Readings -/

private theorem readPayload_ok {integrationHead : String} {payload : Json} {reading : ReviewReading}
    (h : readPayload integrationHead payload = .ok reading) :
    ∃ category, payload.property "category" = .ok category ∧
      (payload.property "baseCommit" = .ok (some (.str integrationHead)) ∧
          reading = .current category payload ∨
        payload.property "baseCommit" ≠ .ok (some (.str integrationHead)) ∧
          reading = .stale category) := by
  unfold readPayload at h
  simp only [bind_ok_iff, pure, Except.pure, Except.ok.injEq] at h
  obtain ⟨baseCommit, hcommit, category, hcategory, rfl⟩ := h
  refine ⟨category, hcategory, ?_⟩
  rw [hcommit, Except.ok.injEq]
  by_cases hhead : Json.isText baseCommit integrationHead = true
  · rw [if_pos hhead]
    rw [Json.isText_iff] at hhead
    exact Or.inl ⟨hhead, rfl⟩
  · rw [if_neg hhead]
    rw [Json.isText_iff] at hhead
    exact Or.inr ⟨fun hsame => hhead (Except.ok.inj hsame), rfl⟩

theorem reviewsAt_iff {integrationHead : String} {category : ReviewCategory} {payload : Json} :
    reviewsAt integrationHead category payload = true ↔
      payload.property "baseCommit" = .ok (some (.str integrationHead)) ∧
        payload.property "category" = .ok (some (.str category.name)) := by
  unfold reviewsAt Json.property
  cases payload <;> simp

/-- The reviews of the head among the readings are those among the payloads. -/
private theorem Read.latestPayload {integrationHead : String} {payloads : List Json}
    {readings : List ReviewReading} (h : Read integrationHead payloads readings)
    (category : ReviewCategory) :
    Review.latestPayload readings category = newestReview integrationHead payloads category := by
  have hfiltered : ((readings.filterMap ReviewReading.current?).filter fun entry =>
      Json.isText entry.1 category.name).map Prod.snd =
        payloads.filter (reviewsAt integrationHead category) := by
    induction h with
    | nil => rfl
    | @cons payload reading payloads readings hread _ ih =>
      obtain ⟨key, hkey, ⟨hhead, rfl⟩ | ⟨hhead, rfl⟩⟩ := readPayload_ok hread
      · rw [List.filterMap_cons, List.filter_cons]
        by_cases hname : Json.isText key category.name = true
        · have hreviews : reviewsAt integrationHead category payload = true := by
            rw [Json.isText_iff] at hname
            rw [reviewsAt_iff, ← hname]
            exact ⟨hhead, hkey⟩
          rw [if_pos hreviews, ← ih]
          simp [ReviewReading.current?, hname]
        · have hreviews : reviewsAt integrationHead category payload ≠ true := by
            rw [Json.isText_iff] at hname
            rw [Ne, reviewsAt_iff, hkey, Except.ok.injEq]
            exact fun hboth => hname hboth.2
          rw [if_neg hreviews, ← ih]
          simp [ReviewReading.current?, hname]
      · have hreviews : reviewsAt integrationHead category payload ≠ true := by
          rw [Ne, reviewsAt_iff]
          exact fun hboth => hhead hboth.1
        rw [List.filterMap_cons, List.filter_cons, if_neg hreviews, ← ih]
        rfl
  unfold Review.latestPayload newestReview
  rw [← hfiltered, List.getLast?_map]

/-- A review of the head is one of the payloads. -/
private theorem Read.current_mem {integrationHead : String} {payloads : List Json}
    {readings : List ReviewReading} (h : Read integrationHead payloads readings)
    {entry : Option Json × Json} (hentry : entry ∈ readings.filterMap ReviewReading.current?) :
    entry.2 ∈ payloads ∧ entry.2.property "category" = .ok entry.1 ∧
      entry.2.property "baseCommit" = .ok (some (.str integrationHead)) := by
  obtain ⟨reading, hreading, hcurrent⟩ := List.mem_filterMap.mp hentry
  obtain ⟨payload, hpayload, hread⟩ := exists_left_of_forall₂ h hreading
  obtain ⟨key, hkey, ⟨hhead, rfl⟩ | ⟨hhead, rfl⟩⟩ := readPayload_ok hread
  · cases hcurrent
    exact ⟨hpayload, hkey, hhead⟩
  · cases hcurrent

/-- Every payload is read, as a review of the head or of another one. -/
private theorem Read.read_mem {integrationHead : String} {payloads : List Json}
    {readings : List ReviewReading} (h : Read integrationHead payloads readings) {payload : Json}
    (hpayload : payload ∈ payloads) :
    ∃ category, payload.property "category" = .ok category ∧
      ((category, payload) ∈ readings.filterMap ReviewReading.current? ∨
        category ∈ readings.filterMap ReviewReading.stale?) := by
  obtain ⟨reading, hreading, hread⟩ := exists_right_of_forall₂ h hpayload
  obtain ⟨key, hkey, ⟨-, rfl⟩ | ⟨-, rfl⟩⟩ := readPayload_ok hread
  · exact ⟨key, hkey, Or.inl (List.mem_filterMap.mpr ⟨_, hreading, rfl⟩)⟩
  · exact ⟨key, hkey, Or.inr (List.mem_filterMap.mpr ⟨_, hreading, rfl⟩)⟩

section Available

variable {syntaxMessage : String → String} {reader : StepArtifactReader} {state : WorkflowRunState}

/-- An output that is available is stored. -/
private theorem readReviewOutput_available {stepId output : String} {reading : ReviewReading}
    (h : readReviewOutput syntaxMessage reader state stepId output = .ok reading)
    (havailable : reading.unavailable? = none) :
    ∃ payload, StoredPayload (some reader) state (stepId, output) payload ∧
      readPayload state.integrationHead payload = .ok reading := by
  unfold readReviewOutput at h
  rw [bind_ok_iff] at h
  obtain ⟨answer, hanswer, h⟩ := h
  cases answer with
  | none =>
    cases h
    cases havailable
  | some artifact =>
    dsimp only at h
    rw [bind_ok_iff] at h
    obtain ⟨payload, hpayload, hread⟩ := h
    rw [require_ok_iff] at hpayload
    exact ⟨payload, ⟨reader, rfl, artifact, hanswer, hpayload⟩, hread⟩

/-- A step whose outputs are available declares some, and they are stored. -/
private theorem readReviewStep_available {step : String × List String}
    {readings : List ReviewReading} (h : readReviewStep syntaxMessage reader state step = .ok readings)
    (havailable : ∀ reading ∈ readings, reading.unavailable? = none) :
    step.2 ≠ [] ∧ ∃ payloads, List.Forall₂ (StoredPayload (some reader) state)
      (step.2.map fun output => (step.1, output)) payloads ∧
        Read state.integrationHead payloads readings := by
  unfold readReviewStep at h
  split at h
  · cases h
    have hnone := havailable _ List.mem_cons_self
    cases hnone
  · next hdeclared =>
    refine ⟨hdeclared, ?_⟩
    rw [mapM_ok_iff] at h
    unfold Read
    apply forall₂_split
    rw [List.forall₂_map_left_iff]
    rw [List.forall₂_iff_zip] at h ⊢
    refine ⟨h.1, ?_⟩
    intro output reading hpair
    exact readReviewOutput_available (h.2 hpair) (havailable reading (List.of_mem_zip hpair).2)

/-- Readings that are all available are those of the stored payloads. -/
private theorem readReviewSteps_available {readings : List (List ReviewReading)}
    (h : (reviewSteps state).mapM (readReviewStep syntaxMessage reader state) = .ok readings)
    (havailable : readings.flatten.filterMap ReviewReading.unavailable? = []) :
    (∀ step ∈ reviewSteps state, step.2 ≠ []) ∧
      ∃ payloads, List.Forall₂ (StoredPayload (some reader) state) (reviewOutputs state) payloads ∧
        Read state.integrationHead payloads readings.flatten := by
  rw [List.filterMap_eq_nil_iff] at havailable
  rw [mapM_ok_iff, List.forall₂_iff_zip] at h
  have hsteps : List.Forall₂ (fun step stepReadings => step.2 ≠ [] ∧ ∃ payloads,
      List.Forall₂ (StoredPayload (some reader) state)
        (step.2.map fun output => (step.1, output)) payloads ∧
          Read state.integrationHead payloads stepReadings) (reviewSteps state) readings := by
    rw [List.forall₂_iff_zip]
    refine ⟨h.1, ?_⟩
    intro step stepReadings hpair
    apply readReviewStep_available (h.2 hpair)
    intro reading hreading
    exact havailable reading
      (List.mem_flatten_of_mem (List.of_mem_zip hpair).2 hreading)
  constructor
  · intro step hstep
    obtain ⟨stepReadings, -, hdeclared, -⟩ := exists_right_of_forall₂ hsteps hstep
    exact hdeclared
  · obtain ⟨payloads, hstored, hread⟩ := forall₂_split (hsteps.imp fun _ _ h => h.2)
    refine ⟨payloads.flatten, ?_, List.rel_flatten hread⟩
    unfold reviewOutputs
    rw [List.flatMap_def]
    apply List.rel_flatten
    rw [List.forall₂_map_left_iff]
    exact hstored

end Available

/-! ### Outcomes -/

/-- Sorting keeps the risks. -/
private theorem mem_sortRisks {localeCompare : String → String → Bool} {risks sorted : List Json}
    (h : sortRisks localeCompare risks = .ok sorted) (risk : Json) : risk ∈ sorted ↔ risk ∈ risks := by
  unfold sortRisks at h
  split at h
  · cases h
    rfl
  · rw [bind_ok_iff] at h
    obtain ⟨named, hnamed, hsorted⟩ := h
    cases hsorted
    have hrisks : named.map Prod.snd = risks := by
      rw [mapM_ok_iff] at hnamed
      clear * - hnamed
      induction hnamed with
      | nil => rfl
      | cons hname _ ih =>
        rw [map_ok_iff] at hname
        obtain ⟨id, -, rfl⟩ := hname
        rw [List.map_cons, ih]
    rw [((List.mergeSort_perm named _).map Prod.snd).mem_iff, hrisks]

/-- The outcome of a category is read off its newest review. -/
private theorem categoryOutcome_ok {readings : List ReviewReading} {category : ReviewCategory}
    {outcome : Option (ReviewSummary × List Json)}
    (h : categoryOutcome readings category = .ok outcome) :
    (latestPayload readings category = none ∧ outcome = none) ∨
      ∃ payload summary findings, latestPayload readings category = some payload ∧
        payload.property "summary" = .ok summary ∧ openFindings payload = .ok findings ∧
          outcome = some (⟨category, summary⟩, findings) := by
  unfold categoryOutcome at h
  split at h
  · next hnone =>
    cases h
    exact Or.inl ⟨hnone, rfl⟩
  · next payload hpayload =>
    simp only [bind_ok_iff, pure, Except.pure, Except.ok.injEq] at h
    obtain ⟨summary, hsummary, findings, hfindings, rfl⟩ := h
    exact Or.inr ⟨payload, summary, findings, hpayload, hsummary, hfindings, rfl⟩

/-- The outcomes of the categories that were reviewed. -/
private structure ReviewedOutcomes (readings : List ReviewReading) (categories : List ReviewCategory)
    (reviewed : List (ReviewSummary × List Json)) : Prop where
  categories : reviewed.map (·.1.category) = categories.filter fun category =>
    (latestPayload readings category).isSome
  outcomes : ∀ outcome ∈ reviewed, ∃ payload,
    latestPayload readings outcome.1.category = some payload ∧
      payload.property "summary" = .ok outcome.1.summary ∧ openFindings payload = .ok outcome.2

/-- A category that was reviewed has an outcome. -/
private theorem ReviewedOutcomes.exists_outcome {readings : List ReviewReading}
    {reviewed : List (ReviewSummary × List Json)} {category : ReviewCategory}
    (h : ReviewedOutcomes readings ReviewCategory.all reviewed)
    (hreviewed : (latestPayload readings category).isSome = true) :
    ∃ outcome ∈ reviewed, outcome.1.category = category := by
  have hmem : category ∈ reviewed.map (·.1.category) := by
    rw [h.categories, List.mem_filter]
    exact ⟨by cases category <;> decide, hreviewed⟩
  exact List.mem_map.mp hmem

private theorem reviewedOutcomes {readings : List ReviewReading} {categories : List ReviewCategory}
    {outcomes : List (Option (ReviewSummary × List Json))}
    (h : categories.mapM (categoryOutcome readings) = .ok outcomes) :
    ReviewedOutcomes readings categories (outcomes.filterMap id) := by
  rw [mapM_ok_iff] at h
  induction h with
  | nil => exact ⟨rfl, nofun⟩
  | @cons category outcome _ _ hcategory _ ih =>
    rcases categoryOutcome_ok hcategory with
      ⟨hnone, rfl⟩ | ⟨payload, summary, findings, hpayload, hsummary, hfindings, rfl⟩
    · constructor
      · rw [List.filter_cons, hnone, List.filterMap_cons]
        exact ih.categories
      · rw [List.filterMap_cons]
        exact ih.outcomes
    · constructor
      · rw [List.filter_cons, hpayload, List.filterMap_cons]
        dsimp only [id_eq]
        rw [List.map_cons, ih.categories, if_pos Option.isSome_some]
      · rw [List.filterMap_cons]
        dsimp only [id_eq]
        rw [List.forall_mem_cons]
        exact ⟨⟨payload, hpayload, hsummary, hfindings⟩, ih.outcomes⟩

private theorem mem_distinctKeys {keys : List (Option Json)} {key : Option Json} (hkey : key ∈ keys) :
    key ∈ distinctKeys keys := by
  have hkept : ∀ (keys seen : List (Option Json)), (key ∈ seen ∨ key ∈ keys) →
      key ∈ keys.foldl (fun seen key => if seen.any (Json.sameKey · key) then seen else seen ++ [key])
        seen := by
    intro keys
    induction keys with
    | nil =>
      intro seen h
      simpa using h
    | cons next rest ih =>
      intro seen h
      rw [List.foldl_cons]
      apply ih
      rw [List.mem_cons] at h
      split
      · next hseen =>
        rw [List.any_eq_true] at hseen
        obtain ⟨same, hsame, heq⟩ := hseen
        rcases h with h | rfl | h
        · exact Or.inl h
        · exact Or.inl (Json.eq_of_sameKey heq ▸ hsame)
        · exact Or.inr h
      · rw [List.mem_append, List.mem_singleton]
        rcases h with h | rfl | h
        · exact Or.inl (Or.inl h)
        · exact Or.inl (Or.inr rfl)
        · exact Or.inr h
  exact hkept keys [] (Or.inr hkey)

/-- When no category is missing, a stale one was reviewed at the head too. -/
private theorem missingCategories_eq_nil {readings : List ReviewReading}
    (h : missingCategories readings = []) {key : Option Json}
    (hkey : key ∈ readings.filterMap ReviewReading.stale?) :
    ∃ entry ∈ readings.filterMap ReviewReading.current?, entry.1 = key := by
  unfold missingCategories at h
  rw [List.filter_eq_nil_iff] at h
  have hcovered := h key (mem_distinctKeys hkey)
  rw [Bool.not_eq_true, Bool.not_eq_false', List.any_eq_true] at hcovered
  obtain ⟨entry, hentry, hsame⟩ := hcovered
  exact ⟨entry, hentry, Json.eq_of_sameKey hsame⟩

/-- Outcomes without a gap. -/
private theorem outcomesOf_ok {localeCompare : String → String → Bool} {integrationHead : String}
    {readings : List ReviewReading} {outcomes : ReviewOutcomes}
    (h : outcomesOf localeCompare integrationHead readings = .ok outcomes)
    (hgap : outcomes.gap = none) :
    missingCategories readings = [] ∧ (∀ risk ∈ outcomes.risks, requiresRepair risk = false) ∧
      ∃ reviewed, ReviewedOutcomes readings ReviewCategory.all reviewed ∧
        outcomes.summaries = reviewed.map Prod.fst ∧
        ∀ risk, risk ∈ outcomes.risks ↔ ∃ outcome ∈ reviewed, risk ∈ outcome.2 := by
  unfold outcomesOf at h
  dsimp only at h
  rw [bind_ok_iff] at h
  obtain ⟨categories, hcategories, h⟩ := h
  rw [bind_ok_iff] at h
  obtain ⟨risks, hrisks, h⟩ := h
  split at h
  · cases h
    cases hgap
  · next hmissing =>
    split at h
    · rw [bind_ok_iff] at h
      obtain ⟨ids, -, h⟩ := h
      cases h
      cases hgap
    · next hrepaired =>
      cases h
      rw [not_not] at hmissing hrepaired
      rw [List.filter_eq_nil_iff] at hrepaired
      refine ⟨hmissing, fun risk hrisk => Bool.eq_false_iff.mpr (hrepaired risk hrisk), _,
        reviewedOutcomes hcategories, rfl, ?_⟩
      intro risk
      rw [mem_sortRisks hrisks, List.mem_flatMap]

/-- What holds of the stored reviews when nothing is missing. -/
theorem reviewOutcomes_ok {syntaxMessage : String → String}
    {localeCompare : String → String → Bool} {artifacts : Option StepArtifactReader}
    {state : WorkflowRunState} {outcomes : ReviewOutcomes}
    (h : reviewOutcomes syntaxMessage localeCompare artifacts state = .ok outcomes)
    (hgap : outcomes.gap = none) :
    ∃ payloads, ReviewsHold artifacts state payloads ∧
      Summarizes state.integrationHead payloads outcomes.summaries outcomes.risks := by
  unfold reviewOutcomes at h
  split at h
  · next hnone =>
    cases h
    refine ⟨[], ⟨?_, ?_, nofun, nofun⟩, ⟨?_, nofun, ?_⟩⟩
    · rw [hnone]
      exact nofun
    · unfold reviewOutputs
      rw [hnone]
      exact .nil
    · simp [newestReview]
    · simp [newestReview]
  · split at h
    · cases h
      cases hgap
    · next reader =>
      rw [bind_ok_iff] at h
      obtain ⟨readings, hreadings, h⟩ := h
      dsimp only at h
      split at h
      · cases h
        cases hgap
      · next havailable =>
        rw [not_not] at havailable
        obtain ⟨hdeclared, payloads, hstored, hread⟩ :=
          readReviewSteps_available hreadings havailable
        obtain ⟨hmissing, hrepaired, reviewed, hreviewed, hsummaries, hrisks⟩ :=
          outcomesOf_ok h hgap
        have hrisk : ∀ risk, risk ∈ outcomes.risks ↔ ∃ category payload findings,
            newestReview state.integrationHead payloads category = some payload ∧
              openFindings payload = .ok findings ∧ risk ∈ findings := by
          intro risk
          rw [hrisks]
          constructor
          · rintro ⟨outcome, houtcome, hrisk⟩
            obtain ⟨payload, hpayload, -, hfindings⟩ := hreviewed.outcomes outcome houtcome
            rw [hread.latestPayload] at hpayload
            exact ⟨_, payload, _, hpayload, hfindings, hrisk⟩
          · rintro ⟨category, payload, findings, hpayload, hfindings, hrisk⟩
            obtain ⟨outcome, houtcome, rfl⟩ :=
              hreviewed.exists_outcome (by rw [hread.latestPayload, hpayload]; rfl)
            obtain ⟨other, hother, -, hopen⟩ := hreviewed.outcomes outcome houtcome
            rw [hread.latestPayload, hpayload, Option.some.injEq] at hother
            rw [← hother, hfindings, Except.ok.injEq] at hopen
            exact ⟨outcome, houtcome, hopen ▸ hrisk⟩
        refine ⟨payloads, ⟨hdeclared, hstored, ?_, ?_⟩, ⟨?_, ?_, hrisk⟩⟩
        · intro payload hpayload
          obtain ⟨key, hkey, hcurrent | hstale⟩ := hread.read_mem hpayload
          · exact ⟨payload, hpayload, (hread.current_mem hcurrent).2.2, rfl⟩
          · obtain ⟨entry, hentry, rfl⟩ := missingCategories_eq_nil hmissing hstale
            obtain ⟨hmem, hcategory, hcommit⟩ := hread.current_mem hentry
            exact ⟨entry.2, hmem, hcommit, hcategory.trans hkey.symm⟩
        · intro category payload hpayload
          obtain ⟨outcome, houtcome, rfl⟩ :=
            hreviewed.exists_outcome (by rw [hread.latestPayload, hpayload]; rfl)
          obtain ⟨other, hother, -, hopen⟩ := hreviewed.outcomes outcome houtcome
          rw [hread.latestPayload, hpayload, Option.some.injEq] at hother
          rw [← hother] at hopen
          refine ⟨outcome.2, hopen, ?_⟩
          intro finding hfinding
          exact hrepaired finding ((hrisk finding).mpr ⟨_, payload, _, hpayload, hopen, hfinding⟩)
        · rw [hsummaries, List.map_map]
          simp only [← hread.latestPayload]
          exact hreviewed.categories
        · intro summary hsummary
          rw [hsummaries, List.mem_map] at hsummary
          obtain ⟨outcome, houtcome, rfl⟩ := hsummary
          obtain ⟨payload, hpayload, hread', -⟩ := hreviewed.outcomes outcome houtcome
          rw [hread.latestPayload] at hpayload
          exact ⟨payload, hpayload, hread'⟩

/-- The risks are sorted, whether there is a gap or not. -/
theorem reviewOutcomes_sorted {syntaxMessage : String → String}
    {localeCompare : String → String → Bool} {artifacts : Option StepArtifactReader}
    {state : WorkflowRunState} {outcomes : ReviewOutcomes}
    (h : reviewOutcomes syntaxMessage localeCompare artifacts state = .ok outcomes) :
    ∃ risks, sortRisks localeCompare risks = .ok outcomes.risks := by
  unfold reviewOutcomes at h
  split at h
  · cases h
    exact ⟨[], rfl⟩
  split at h
  · cases h
    exact ⟨[], rfl⟩
  rw [bind_ok_iff] at h
  obtain ⟨readings, -, h⟩ := h
  dsimp only at h
  split at h
  · cases h
    exact ⟨[], rfl⟩
  unfold outcomesOf at h
  rw [bind_ok_iff] at h
  obtain ⟨categories, -, h⟩ := h
  rw [bind_ok_iff] at h
  obtain ⟨risks, hrisks, h⟩ := h
  refine ⟨_, hrisks.trans (congrArg Except.ok ?_)⟩
  dsimp only at h
  split at h
  · cases h
    rfl
  split at h
  · rw [bind_ok_iff] at h
    obtain ⟨ids, -, h⟩ := h
    cases h
    rfl
  · cases h
    rfl

/-- The suite passed when its evidence says so. -/
private theorem runFinalSuite_ok {dependencies : WorkflowFinalizationDependencies}
    {state : WorkflowRunState} {worktreePath : String} {evidence : FinalValidationEvidence}
    (h : runFinalSuite dependencies state = .ok (worktreePath, evidence))
    (hpassed : evidence.passed ≠ false) : SuitePassed dependencies state evidence.checks := by
  rw [Ne, Bool.not_eq_false] at hpassed
  unfold runFinalSuite at h
  simp only [bind_ok_iff] at h
  obtain ⟨path, hpath, -, -, h⟩ := h
  split at h
  · next hanswer =>
    cases h
    exact ⟨worktreePath, evidence, hpath, Or.inl hanswer, hpassed, rfl⟩
  · next hanswer =>
    cases h
    exact ⟨worktreePath, evidence, hpath, Or.inr hanswer, hpassed, rfl⟩
  · cases h

/-- Evidence is only assembled behind every check. -/
theorem finalizeWorkflowRun_ready {dependencies : WorkflowFinalizationDependencies}
    {state : WorkflowRunState} {result : WorkflowFinalizationResult} {ready : WorkflowMergeReady}
    (h : finalizeWorkflowRun dependencies state = .ok result) (hready : result.mergeReady = some ready) :
    Finalizable state ∧ ∃ outcomes worktreePath evidence,
      reviewOutcomes dependencies.syntaxMessage dependencies.localeCompare dependencies.artifacts
        state = .ok outcomes ∧
      outcomes.gap = none ∧
      runFinalSuite dependencies state = .ok (worktreePath, evidence) ∧
      evidence.passed ≠ false ∧ result.evidence = some evidence ∧
      assembleMergeReady dependencies state outcomes evidence = .ok ready := by
  unfold finalizeWorkflowRun at h
  rw [seq_ok_iff, assertFinalizableState_ok_iff, bind_ok_iff] at h
  obtain ⟨hfinalizable, outcomes, houtcomes, h⟩ := h
  split at h
  · cases h
    cases hready
  · next hgap =>
    split at h
    · cases h
    · rw [seq_ok_iff, bind_ok_iff] at h
      obtain ⟨-, ⟨worktreePath, evidence⟩, hsuite, h⟩ := h
      dsimp only at h
      split at h
      · cases h
        cases hready
      · next hpassed =>
        rw [bind_ok_iff] at h
        obtain ⟨mergeReady, hassembled, h⟩ := h
        cases h
        cases hready
        exact ⟨hfinalizable, outcomes, worktreePath, evidence, houtcomes, hgap, hsuite, hpassed, rfl,
          hassembled⟩

/-- What an assembled evidence holds. -/
theorem assembleMergeReady_ok {dependencies : WorkflowFinalizationDependencies}
    {state : WorkflowRunState} {outcomes : ReviewOutcomes} {evidence : FinalValidationEvidence}
    {ready : WorkflowMergeReady}
    (h : assembleMergeReady dependencies state outcomes evidence = .ok ready) :
    ready.integrationHead = state.integrationHead ∧ ready.baseCommit = state.baseCommit ∧
      ready.finalReviews = outcomes.summaries ∧ ready.remainingRisks = outcomes.risks ∧
      ready.finalChecks = evidence.checks ∧ integratedCommitEvidence state = .ok ready.commits ∧
      verifyMergeReadyHistory dependencies.history (mergeReadyHistoryInput state ready.commits) =
        .ok ready.git := by
  unfold assembleMergeReady at h
  simp only [bind_ok_iff, pure, Except.pure, Except.ok.injEq] at h
  obtain ⟨commits, hcommits, git, hgit, rfl⟩ := h
  exact ⟨rfl, rfl, rfl, rfl, rfl, hcommits, hgit⟩

/-- A run is merge ready only when its steps are done and integrated, the stored reviews speak for
the head, the suite passed there, and git verified the history; the evidence says what the newest
reviews of the head say. -/
theorem merge_readiness_earned {dependencies : WorkflowFinalizationDependencies}
    {state : WorkflowRunState} {result : WorkflowFinalizationResult} {ready : WorkflowMergeReady}
    (h : finalizeWorkflowRun dependencies state = .ok result) (hready : result.mergeReady = some ready) :
    Finalizable state ∧ ready.integrationHead = state.integrationHead ∧
      ready.baseCommit = state.baseCommit ∧
      (∃ payloads, ReviewsHold dependencies.artifacts state payloads ∧
        Summarizes state.integrationHead payloads ready.finalReviews ready.remainingRisks) ∧
      SuitePassed dependencies state ready.finalChecks ∧
      integratedCommitEvidence state = .ok ready.commits ∧
      dependencies.history.head = state.integrationHead ∧
      ready.git.map (·.hash) = ready.commits.map (·.integratedCommit) ∧
      ready.git.map (·.parent) =
        (state.baseCommit :: ready.git.map (·.hash)).take ready.git.length := by
  obtain ⟨hfinalizable, outcomes, worktreePath, evidence, houtcomes, hgap, hsuite, hpassed, -,
    hassembled⟩ := finalizeWorkflowRun_ready h hready
  obtain ⟨hhead, hbase, hsummaries, hrisks, hchecks, hcommits, hgit⟩ :=
    assembleMergeReady_ok hassembled
  rw [verifyMergeReadyHistory_ok_iff] at hgit
  obtain ⟨hbranch, -, -, hhashes, hparents, -⟩ := hgit
  rw [hsummaries, hrisks, hchecks]
  refine ⟨hfinalizable, hhead, hbase, reviewOutcomes_ok houtcomes hgap,
    runFinalSuite_ok hsuite hpassed, hcommits, hbranch, hhashes, ?_⟩
  rw [hhashes]
  exact hparents

/-! ### A reviewed run -/

/-- The review of correctness a small run is ready through. -/
def soleReviewStep : StepDefinition :=
  { investigationStep "review-1-correctness" [] with
    profile := some .review, outputs := some ["findings"] }

/-- A completed run of one review. -/
def reviewedRun : WorkflowRunState :=
  { smallRun [soleReviewStep] with
    state := .completed
    steps := .ofList [(soleReviewStep.id, { initialStepRecord soleReviewStep with state := .succeeded })] }

/-- What the review found. -/
def soleReviewPayload : String :=
  jsonText .compact (reviewFindingsPayload .correctness "base" "Fine."
    [findingJson
      { id := "review-1-correctness-1", category := .correctness, severity := .low
        confidence := .high, title := "Name", description := "Vague", paths := ["src/a"]
        recommendation := "Rename", status := .deferred, repairAttemptId := none }])

/-- The store of the review, a suite that passes, and a branch nothing was integrated into. -/
def reviewedDependencies : WorkflowFinalizationDependencies where
  artifacts := some fun runId stepId output => .ok (some
    { id := "a", runId, stepId, output, attempt := 1, kind := .findings, mediaType := "application/json"
      title := "correctness review findings", createdAt := "1", sizeBytes := 0, contentHash := ""
      payload := soleReviewPayload })
  prepareFinalValidationWorktree _ := .ok "/worktrees/final-1"
  removeTaskWorktree _ := .ok ()
  validate _ _ _ := .passed ⟨"2", "3", true, []⟩
  history := ⟨"base", true, "main", "base", [], fun _ _ _ => .ok ()⟩
  securityPolicy := configuredPolicy .decline ⟨.none, .host, none⟩
  now := "4"
  aborted := none
  onValidationReady := .ok ()
  syntaxMessage _ := "Unexpected token"
  localeCompare left right := left ≤ right

theorem merge_readiness_earned_reviewed :
    ∃ result ready, finalizeWorkflowRun reviewedDependencies reviewedRun = .ok result ∧
      result.mergeReady = some ready ∧ Finalizable reviewedRun ∧
      ready.finalReviews.map (·.category) = [.correctness] := by
  have hready : ((finalizeWorkflowRun reviewedDependencies reviewedRun).toOption.bind
      (·.mergeReady)).map (fun ready => ready.finalReviews.map (·.category)) =
        some [.correctness] := by
    decide +kernel
  rw [Option.map_eq_some_iff] at hready
  obtain ⟨ready, hready, hreviews⟩ := hready
  rw [Option.bind_eq_some_iff] at hready
  obtain ⟨result, hresult, hready⟩ := hready
  rw [toOption_eq_some_iff] at hresult
  exact ⟨result, ready, hresult, hready, (merge_readiness_earned hresult hready).1, hreviews⟩

end BuildConductor.Review
