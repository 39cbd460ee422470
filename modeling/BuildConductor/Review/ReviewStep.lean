import BuildConductor.Domain.ParsedValues
import BuildConductor.Engine.ArtifactRouting
import BuildConductor.Engine.Outputs
import BuildConductor.Inspection.EngineRunView
import BuildConductor.Review.ReviewReport

/-!
# The review step

One independent reviewer of the integrated result: it adopts an earlier review of the same commit,
or reads the report a worker returns, and publishes the findings as its declared output.
`src/src/engine/steps/review.ts:25-331`.
-/

namespace BuildConductor.Review

open Base Domain Engine Git Inspection Security Storage

/-! ## Findings as values -/

/-- The name of a severity. -/
def severityName : ReviewSeverity → String
  | .critical => "critical"
  | .high => "high"
  | .medium => "medium"
  | .low => "low"

/-- The name of a confidence. -/
def confidenceName : ReviewConfidence → String
  | .high => "high"
  | .medium => "medium"
  | .low => "low"

/-- The name of a status. -/
def statusName : ReviewFindingStatus → String
  | .repairRequired => "repair_required"
  | .deferred => "deferred"
  | .repaired => "repaired"
  | .unresolved => "unresolved"

/-- The properties of a finding. -/
def findingProperties (finding : ReviewFinding) : List (String × Option Json) :=
  [("id", some (.str finding.id)), ("category", some (.str finding.category.name)),
    ("severity", some (.str (severityName finding.severity))),
    ("confidence", some (.str (confidenceName finding.confidence))),
    ("title", some (.str finding.title)), ("description", some (.str finding.description)),
    ("paths", some (Json.strings finding.paths)),
    ("recommendation", some (.str finding.recommendation)),
    ("status", some (.str (statusName finding.status))),
    ("repairAttemptId", finding.repairAttemptId.map Json.str)]

/-- A finding as a value. -/
def findingJson (finding : ReviewFinding) : Json :=
  .obj (Json.definedFields (findingProperties finding))

/-- The payload a review step publishes. `src/src/engine/steps/review.ts:34-40`. -/
def reviewFindingsPayload (category : ReviewCategory) (baseCommit summary : String)
    (findings : List Json) : Json :=
  .obj [("category", .str category.name), ("baseCommit", .str baseCommit),
    ("summary", .str summary), ("findings", .arr findings)]

/-! ## Adopted findings -/

/-- `src/src/engine/steps/review.ts:199-212`. -/
def isReviewFindingsPayload (value : Json) : Bool :=
  match value with
  | .obj fields =>
    (match Json.field fields "category", Json.field fields "baseCommit",
        Json.field fields "summary", Json.field fields "findings" with
      | some (.str _), some (.str _), some (.str _), some (.arr _) => true
      | _, _, _, _ => false)
  | _ => false

/-- A text as a value, with the proof that it can be written again. -/
def readJsonValue (text : String) : Option JsonValue :=
  match h : parseJson text with
  | some value => some ⟨value, parseJson_writable h⟩
  | none => none

/-- A payload that reviewed a category at a commit. `src/src/engine/steps/review.ts:187-192`. -/
def isReviewOf (category : ReviewCategory) (baseCommit : String) (value : Json) : Bool :=
  match value with
  | .obj fields =>
    isReviewFindingsPayload (.obj fields) &&
      Json.isText (Json.field fields "category") category.name &&
      Json.isText (Json.field fields "baseCommit") baseCommit
  | _ => false

/-- The payload of an input, when it can be adopted. `src/src/engine/steps/review.ts:176-195`. -/
def adoptable (category : ReviewCategory) (baseCommit : String) (artifact : ArtifactRecord) :
    Option JsonValue :=
  if artifact.kind ≠ .findings then none
  else (readJsonValue artifact.payload).filter fun payload =>
    isReviewOf category baseCommit payload.value

/-- The findings of an earlier round that already reviewed exactly this commit.
`src/src/engine/steps/review.ts:171-197`. -/
def adoptablePriorFindings (inputs : List ArtifactRecord) (category : ReviewCategory)
    (baseCommit : String) : Option JsonValue :=
  inputs.findSome? (adoptable category baseCommit)

/-- Items, named by their positions. -/
def positions (items : List Json) : List (String × Json) :=
  items.zipIdx.map fun entry => (toString entry.2, entry.1)

/-- `{ ...value, [key]: item }`. A list and a text spread the positions they have. -/
def spreadWith (value : Json) (key : String) (item : Json) : Json :=
  let fields := match value with
    | .obj fields => fields
    | .arr items => positions items
    | .str s => positions (s.toList.map fun c => .str (String.singleton c))
    | _ => []
  .obj (assignField fields (key, item))

/-- The findings of a value that passed `isReviewFindingsPayload`. -/
def payloadFindings (value : Json) : List Json :=
  match value with
  | .obj fields =>
    (match Json.field fields "findings" with
      | some (.arr items) => items
      | _ => [])
  | _ => []

/-- An adopted payload, its findings named for the round that adopts it.
`src/src/engine/steps/review.ts:256-262`. -/
def adoptedPayload (adopted : Json) (round : Nat) (category : ReviewCategory) : Json :=
  spreadWith adopted "findings" (.arr ((payloadFindings adopted).zipIdx.map fun (finding, index) =>
    spreadWith finding "id" (.str (reviewFindingId round category index))))

/-! ## Payloads are writable -/

theorem findingJson_writable (finding : ReviewFinding) : (findingJson finding).Writable := by
  apply Json.writable_definedFields
  · unfold findingProperties
    simp
  · intro property hproperty value hvalue
    unfold findingProperties at hproperty
    simp only [List.mem_cons, List.not_mem_nil, or_false] at hproperty
    rcases hproperty with
      rfl | rfl | rfl | rfl | rfl | rfl | rfl | rfl | rfl | rfl <;> dsimp only at hvalue
    case inr.inr.inr.inr.inr.inr.inr.inr.inr =>
      rw [Option.map_eq_some_iff] at hvalue
      obtain ⟨attemptId, -, rfl⟩ := hvalue
      trivial
    all_goals
      cases hvalue
      first | trivial | exact Json.strings_writable _

theorem reviewFindingsPayload_writable (category : ReviewCategory) (baseCommit summary : String)
    {findings : List Json} (h : ∀ finding ∈ findings, finding.Writable) :
    (reviewFindingsPayload category baseCommit summary findings).Writable := by
  unfold reviewFindingsPayload
  rw [writable_obj_iff]
  refine ⟨by simp, ?_⟩
  simp [Json.Writable, Json.writableItems_iff]
  exact h

private theorem toString_inj {left right : Nat} (h : toString left = toString right) :
    left = right := by
  have hdigits := congrArg (fun text => Nat.ofDigitChars 10 text.toList 0) h
  simpa [Nat.repr, Nat.ofDigitChars_ten_toDigits] using hdigits

private theorem positions_writable {items : List Json} (h : ∀ item ∈ items, item.Writable) :
    WritableObject (positions items) := by
  unfold positions
  constructor
  · have hnames : (items.zipIdx.map fun entry => (toString entry.2, entry.1)).map Prod.fst =
        (items.zipIdx.map Prod.snd).map toString := by
      rw [List.map_map, List.map_map]
      rfl
    rw [hnames, List.zipIdx_map_snd]
    apply List.Nodup.map _ List.nodup_range'
    exact fun _ _ => toString_inj
  · rw [List.forall_mem_map]
    intro entry hentry
    exact h entry.1 (List.fst_mem_of_mem_zipIdx hentry)

/-- Spreading a value that can be written gives one that can be. -/
theorem spreadWith_writable {value item : Json} (h : value.Writable) (key : String)
    (hitem : item.Writable) : (spreadWith value key item).Writable := by
  unfold spreadWith
  dsimp only
  rw [writable_obj_iff]
  apply WritableObject.assignField _ hitem
  split
  · exact writable_obj_iff.mp h
  · apply positions_writable
    rw [Json.Writable, Json.writableItems_iff] at h
    exact h
  · apply positions_writable
    rw [List.forall_mem_map]
    exact fun _ _ => trivial
  · constructor
    · exact List.nodup_nil
    · intro field hfield
      cases hfield

private theorem payloadFindings_writable {value : Json} (h : value.Writable) :
    ∀ finding ∈ payloadFindings value, finding.Writable := by
  unfold payloadFindings
  split
  · next fields =>
    split
    · next items hitems =>
      have hmem : ("findings", Json.arr items) ∈ fields := by
        obtain ⟨before, after, rfl, -⟩ := List.lookup_eq_some_iff.mp hitems
        simp
      have hvalue := (writable_obj_iff.mp h).2 ("findings", .arr items) hmem
      rw [Json.Writable, Json.writableItems_iff] at hvalue
      exact hvalue
    · exact nofun
  · exact nofun

theorem adoptedPayload_writable {adopted : Json} (h : adopted.Writable) (round : Nat)
    (category : ReviewCategory) : (adoptedPayload adopted round category).Writable := by
  apply spreadWith_writable h
  rw [Json.Writable, Json.writableItems_iff, List.forall_mem_map]
  intro entry hentry
  exact spreadWith_writable (payloadFindings_writable h entry.1 (List.fst_mem_of_mem_zipIdx hentry))
    "id" trivial

/-! ## The handler -/

/-- What a review step executes with. `src/src/engine/handlers.ts:32-54`. -/
structure ReviewStepContext where
  step : StepDefinition
  /-- The integration head the step was launched at. -/
  commit : String
  upstreamArtifacts : List ArtifactRecord
  capabilityProfile : CapabilityProfile
  workspacePath : Option String

/-- `src/src/engine/steps/worker-runner.ts:55-58`. -/
inductive StepWorkerOutcome
  | succeeded (output workerId : Option String)
  | failed (error : String) (workerId : Option String)
  | cancelled (error : String) (workerId : Option String)

/-- What happens while a review runs: its worker returns, and then the workspace is looked at. -/
structure ReviewExecution where
  worker : StepWorkerOutcome
  status : Except String (List ChangeRecord)

/-- `src/src/engine/steps/review.ts:49-60`. -/
def reviewFindingsArtifact (output : String) (category : ReviewCategory) (payload : JsonValue) :
    StepArtifactDraft where
  output
  kind := .findings
  title := s!"{category.name} review findings"
  payload := .json (some payload)

/-- The payload of a fresh report. `src/src/engine/steps/review.ts:307-314`. -/
def reportPayload (category : ReviewCategory) (round : Nat) (baseCommit : String)
    (report : ParsedReviewReport) : JsonValue where
  value := reviewFindingsPayload category baseCommit report.summary
    ((materializeReviewFindings report category round).map findingJson)
  writable := by
    apply reviewFindingsPayload_writable
    rw [List.forall_mem_map]
    exact fun finding _ => findingJson_writable finding

/-- The outcome behind a worker that returned. Only a crossed boundary is final.
`src/src/engine/steps/review.ts:291-330`. -/
def settleReview (platform : ReportPlatform) (context : ReviewStepContext)
    (status : Except String (List ChangeRecord)) (round : Nat) (category : ReviewCategory)
    (output : String) (report workerId : Option String) : StepOutcome × List StepArtifactDraft :=
  match checkWorkspace context.capabilityProfile context.workspacePath status with
  | .unreadable error => (.failed error workerId (some true), [])
  | .breached error => (.failed error workerId (some false), [])
  | .unchanged =>
    match parseReviewReport platform report category context.commit with
    | .error error =>
      (.failed s!"Review step {context.step.id} returned an unusable report: {error}" workerId none, [])
    | .ok parsed =>
      (.succeeded (some parsed.summary) workerId none none,
        [reviewFindingsArtifact output category
          (reportPayload category round context.commit parsed)])

/-- `src/src/engine/steps/review.ts:225-331`. -/
def executeReview (platform : ReportPlatform) (context : ReviewStepContext)
    (execution : ReviewExecution) : StepOutcome × List StepArtifactDraft :=
  if context.step.kind ≠ .investigation then
    (.failed s!"Review handler received a {context.step.kind.name} step" none (some false), [])
  else
    match context.step.outputs.getD [] with
    | [output] =>
      match parseReviewStepId context.step.id with
      | .error error => (.failed error none (some false), [])
      | .ok (round, category) =>
        match adoptablePriorFindings context.upstreamArtifacts category context.commit with
        | some adopted =>
          (.succeeded (some s!"Adopted the {category.name} review of unchanged commit {context.commit}")
            none none none,
            [reviewFindingsArtifact output category
              ⟨adoptedPayload adopted.value round category,
                adoptedPayload_writable adopted.writable round category⟩])
        | none =>
          match execution.worker with
          | .failed error workerId => (.failed error workerId none, [])
          | .cancelled error workerId => (.cancelled error workerId, [])
          | .succeeded report workerId =>
            settleReview platform context execution.status round category output report workerId
    | _ =>
      (.failed s!"Review step {context.step.id} must declare exactly one findings output" none
        (some false), [])

/-! ## What is published -/

/-- A payload that states its category and the commit it reviewed. -/
def States (category : ReviewCategory) (baseCommit : String) (payload : Json) : Prop :=
  payload.property "category" = .ok (some (.str category.name)) ∧
    payload.property "baseCommit" = .ok (some (.str baseCommit))

/-- Only an object states a category. -/
private theorem States.obj {category : ReviewCategory} {baseCommit : String} {payload : Json}
    (h : States category baseCommit payload) :
    ∃ fields, payload = .obj fields ∧ Json.field fields "category" = some (.str category.name) ∧
      Json.field fields "baseCommit" = some (.str baseCommit) := by
  obtain ⟨hcategory, hcommit⟩ := h
  cases payload with
  | obj fields => exact ⟨fields, rfl, Except.ok.inj hcategory, Except.ok.inj hcommit⟩
  | _ => cases hcategory

theorem adoptedPayload_states {category : ReviewCategory} {baseCommit : String} {adopted : Json}
    (h : States category baseCommit adopted) (round : Nat) :
    States category baseCommit (adoptedPayload adopted round category) := by
  obtain ⟨fields, rfl, hcategory, hcommit⟩ := h.obj
  unfold States adoptedPayload spreadWith Json.property
  dsimp only
  rw [Json.field_assignField_ne (by decide), Json.field_assignField_ne (by decide)]
  exact ⟨congrArg Except.ok hcategory, congrArg Except.ok hcommit⟩

theorem adoptablePriorFindings_states {inputs : List ArtifactRecord} {category : ReviewCategory}
    {baseCommit : String} {adopted : JsonValue}
    (h : adoptablePriorFindings inputs category baseCommit = some adopted) :
    States category baseCommit adopted.value := by
  obtain ⟨artifact, -, hadoptable⟩ := List.exists_of_findSome?_eq_some h
  unfold adoptable at hadoptable
  split at hadoptable
  · cases hadoptable
  · rw [Option.filter_eq_some_iff] at hadoptable
    obtain ⟨-, hreview⟩ := hadoptable
    unfold isReviewOf at hreview
    split at hreview
    · next fields hfields =>
      rw [Bool.and_eq_true, Bool.and_eq_true, Json.isText_iff, Json.isText_iff] at hreview
      unfold States
      rw [hfields]
      exact ⟨congrArg Except.ok hreview.1.2, congrArg Except.ok hreview.2⟩
    · cases hreview

/-- What a review publishes: findings of its own category at the commit it was launched at. -/
structure PublishesReview (context : ReviewStepContext) (draft : StepArtifactDraft) : Prop where
  kind : draft.kind = .findings
  output : context.step.outputs = some [draft.output]
  payload : ∃ round category payload, parseReviewStepId context.step.id = .ok (round, category) ∧
    draft.payload = .json (some payload) ∧ States category context.commit payload.value

/-- A review publishes what it adopts, or the report its worker returned. -/
inductive ReviewSource (platform : ReportPlatform) (context : ReviewStepContext)
    (execution : ReviewExecution) (round : Nat) (category : ReviewCategory) : JsonValue → Prop
  | adopted {payload : JsonValue} :
      adoptablePriorFindings context.upstreamArtifacts category context.commit = some payload →
      ReviewSource platform context execution round category
        ⟨adoptedPayload payload.value round category,
          adoptedPayload_writable payload.writable round category⟩
  | reported {output workerId : Option String} {report : ParsedReviewReport} :
      execution.worker = .succeeded output workerId →
      parseReviewReport platform output category context.commit = .ok report →
      ReviewSource platform context execution round category
        (reportPayload category round context.commit report)

/-- Whatever its inputs and its worker, a review publishes one review as its only output. -/
theorem executeReview_draft {platform : ReportPlatform} {context : ReviewStepContext}
    {execution : ReviewExecution} {draft : StepArtifactDraft}
    (h : draft ∈ (executeReview platform context execution).2) :
    context.step.outputs = some [draft.output] ∧ draft.kind = .findings ∧
      ∃ round category payload, parseReviewStepId context.step.id = .ok (round, category) ∧
        draft.payload = .json (some payload) ∧
        ReviewSource platform context execution round category payload := by
  unfold executeReview at h
  split at h
  · cases h
  split at h
  · next output houtputs =>
    have hdeclared : context.step.outputs = some [output] := by
      cases hdeclared : context.step.outputs with
      | none =>
        rw [hdeclared] at houtputs
        cases houtputs
      | some outputs =>
        rw [hdeclared, Option.getD_some] at houtputs
        rw [houtputs]
    split at h
    · cases h
    next round category hparse =>
    split at h
    · next adopted hadopted =>
      rw [List.mem_singleton] at h
      rw [h]
      exact ⟨hdeclared, rfl, round, category, _, hparse, rfl, .adopted hadopted⟩
    split at h
    · cases h
    · cases h
    next report workerId hworker =>
    unfold settleReview at h
    split at h
    · cases h
    · cases h
    split at h
    · cases h
    next parsed hparsed =>
    rw [List.mem_singleton] at h
    rw [h]
    exact ⟨hdeclared, rfl, round, category, _, hparse, rfl, .reported hworker hparsed⟩
  · cases h

/-- What a review publishes is of its own category, at the commit it was launched at. -/
theorem executeReview_publishes {platform : ReportPlatform} {context : ReviewStepContext}
    {execution : ReviewExecution} {draft : StepArtifactDraft}
    (h : draft ∈ (executeReview platform context execution).2) : PublishesReview context draft := by
  obtain ⟨houtput, hkind, round, category, payload, hparse, hpayload, hsource⟩ :=
    executeReview_draft h
  refine ⟨hkind, houtput, round, category, payload, hparse, hpayload, ?_⟩
  cases hsource with
  | adopted hadopted => exact adoptedPayload_states (adoptablePriorFindings_states hadopted) round
  | reported _ _ => exact ⟨rfl, rfl⟩

end BuildConductor.Review
