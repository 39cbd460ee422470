import BuildConductor.Engine.Retry
import BuildConductor.Storage.ArtifactStore

/-!
# Artifact routing

The artifacts a step produced, checked against its declared outputs before anything is stored, and
the inputs of a step, resolved to the newest stored artifacts. `src/src/engine/artifact-routing.ts`,
`src/src/domain/step-context.ts:16-72`.
-/

namespace BuildConductor.Engine

open Base Domain Storage

/-! ## Outputs -/

/-- `src/src/engine/artifact-routing.ts:12-18`. -/
structure StepArtifactDraft where
  output : String
  kind : ArtifactKind
  title : String
  payload : ArtifactPayload

/-- The check of one draft, behind those before it. `src/src/engine/artifact-routing.ts:45-57`. -/
def checkDraft (step : StepDefinition) (before : List StepArtifactDraft) (draft : StepArtifactDraft) :
    Except String Unit := do
  ensure (draft.output ∈ step.outputs.getD [])
    s!"Step {step.id} produced an artifact for undeclared output {draft.output}"
  ensure (draft.output ∉ before.map (·.output))
    s!"Step {step.id} produced more than one artifact for output {draft.output}"

/-- The request that stores a draft. `src/src/engine/artifact-routing.ts:66-75`. -/
def draftRequest (runId : String) (step : StepDefinition) (attemptNumber : Nat)
    (draft : StepArtifactDraft) : ArtifactWriteRequest where
  runId
  stepId := step.id
  output := draft.output
  attempt := attemptNumber
  kind := draft.kind
  title := draft.title
  payload := draft.payload

/-- `src/src/engine/artifact-routing.ts:37-76`. -/
def planStepArtifacts (runId : String) (step : StepDefinition) (attemptNumber : Nat)
    (drafts : List StepArtifactDraft) : Except String (List ArtifactWriteRequest) := do
  forEachAfter (checkDraft step) [] drafts
  let missing := (step.outputs.getD []).eraseDups.filter fun output =>
    output ∉ drafts.map (·.output)
  ensure (missing = [])
    s!"Step {step.id} did not produce its declared output{pluralSuffix missing.length}: {
      joinNames missing}"
  pure (drafts.map (draftRequest runId step attemptNumber))

/-- The drafts produce every declared output once, and nothing else. -/
structure Produces (step : StepDefinition) (drafts : List StepArtifactDraft) : Prop where
  nodup : (drafts.map (·.output)).Nodup
  outputs : ∀ output, output ∈ drafts.map (·.output) ↔ output ∈ step.outputs.getD []

private theorem nodup_of_fresh {drafts : List StepArtifactDraft}
    (h : ∀ pre draft post, drafts = pre ++ draft :: post → draft.output ∉ pre.map (·.output)) :
    (drafts.map (·.output)).Nodup := by
  induction drafts using List.reverseRecOn with
  | nil => exact List.nodup_nil
  | append_singleton drafts draft ih =>
    rw [List.map_append, List.nodup_append]
    refine ⟨?_, List.nodup_singleton _, ?_⟩
    · apply ih
      intro pre other post hsplit
      apply h pre other (post ++ [draft])
      rw [hsplit, List.append_assoc, List.cons_append]
    · intro output houtput other hother hsame
      rw [List.map_singleton, List.mem_singleton] at hother
      apply h drafts draft [] rfl
      rw [← hother, ← hsame]
      exact houtput

/-- Artifacts are routed exactly when they are the declared outputs. -/
theorem planStepArtifacts_ok_iff {runId : String} {step : StepDefinition} {attemptNumber : Nat}
    {drafts : List StepArtifactDraft} {requests : List ArtifactWriteRequest} :
    planStepArtifacts runId step attemptNumber drafts = .ok requests ↔
      Produces step drafts ∧ requests = drafts.map (draftRequest runId step attemptNumber) := by
  unfold planStepArtifacts checkDraft
  rw [seq_ok_iff, seq_ok_iff, ensure_ok_iff, forEachAfter_ok_iff]
  simp only [seq_ok_iff, ensure_ok_iff, pure, Except.pure, Except.ok.injEq, List.nil_append,
    List.filter_eq_nil_iff, List.mem_eraseDups, decide_eq_true_eq, not_not]
  constructor
  · rintro ⟨hdrafts, hmissing, hrequests⟩
    refine ⟨⟨nodup_of_fresh fun pre draft post hsplit => (hdrafts pre draft post hsplit).2, ?_⟩,
      hrequests.symm⟩
    intro output
    constructor
    · intro houtput
      obtain ⟨draft, hdraft, rfl⟩ := List.mem_map.mp houtput
      obtain ⟨pre, post, hsplit⟩ := List.append_of_mem hdraft
      exact (hdrafts pre draft post hsplit).1
    · intro houtput
      exact hmissing output houtput
  · rintro ⟨hproduces, rfl⟩
    refine ⟨?_, fun output houtput => (hproduces.outputs output).mpr houtput, rfl⟩
    intro pre draft post hsplit
    refine ⟨(hproduces.outputs _).mp (List.mem_map.mpr ⟨draft, by simp [hsplit], rfl⟩), ?_⟩
    have hnodup := hproduces.nodup
    rw [hsplit, List.map_append, List.map_cons, List.nodup_append] at hnodup
    intro hmem
    exact hnodup.2.2 _ hmem _ List.mem_cons_self rfl

/-! ## Inputs -/

/-- `src/src/domain/step-context.ts:39-45`. -/
abbrev StepArtifactReader := String → String → String → Except String (Option ArtifactRecord)

/-- `src/src/domain/step-context.ts:22-26`. -/
structure ResolvedStepInput where
  stepId : String
  output : String
  artifact : ArtifactRecord

/-- The inputs of a step, or those nothing is stored for. `src/src/domain/step-context.ts:34-36`. -/
inductive StepInputResolution
  | resolved (inputs : List ResolvedStepInput)
  | missing (references : List StepInputReference)

/-- The newest artifact of one input. -/
def resolveInput (artifacts : StepArtifactReader) (runId : String) (reference : StepInputReference) :
    Except String (StepInputReference ⊕ ResolvedStepInput) := do
  match ← artifacts runId reference.stepId reference.output with
  | some artifact => pure (.inr ⟨reference.stepId, reference.output, artifact⟩)
  | none => pure (.inl reference)

/-- `src/src/domain/step-context.ts:52-72`. -/
def resolveStepInputs (artifacts : StepArtifactReader) (runId : String) (step : StepDefinition) :
    Except String StepInputResolution := do
  let answers ← (step.inputs.getD []).mapM (resolveInput artifacts runId)
  let missing := answers.filterMap Sum.getLeft?
  pure (if missing = [] then .resolved (answers.filterMap Sum.getRight?) else .missing missing)

/-- What a reader holds for a reference. -/
structure Resolves (artifacts : StepArtifactReader) (runId : String) (reference : StepInputReference)
    (input : ResolvedStepInput) : Prop where
  stepId : input.stepId = reference.stepId
  output : input.output = reference.output
  artifact : artifacts runId reference.stepId reference.output = .ok (some input.artifact)

/-- Resolved inputs are the declared ones, in order. -/
theorem resolveStepInputs_resolved {artifacts : StepArtifactReader} {runId : String}
    {step : StepDefinition} {inputs : List ResolvedStepInput}
    (h : resolveStepInputs artifacts runId step = .ok (.resolved inputs)) :
    List.Forall₂ (Resolves artifacts runId) (step.inputs.getD []) inputs := by
  unfold resolveStepInputs at h
  rw [bind_ok_iff] at h
  obtain ⟨answers, hanswers, h⟩ := h
  rw [mapM_ok_iff] at hanswers
  dsimp only at h
  split at h
  · next hmissing =>
    cases h
    generalize step.inputs.getD [] = references at hanswers ⊢
    induction hanswers with
    | nil => exact .nil
    | @cons reference answer references answers hanswer _ ih =>
      unfold resolveInput at hanswer
      rw [bind_ok_iff] at hanswer
      obtain ⟨found, hfound, hanswer⟩ := hanswer
      split at hanswer
      · cases hanswer
        exact .cons ⟨rfl, rfl, hfound⟩ (ih hmissing)
      · cases hanswer
        cases hmissing
  · cases h

end BuildConductor.Engine
