import BuildConductor.Review.ReviewStep

/-!
# The findings of a repair

A repair reads the findings its inputs hold and keeps those that have to be repaired, most urgent
first. `src/src/engine/steps/repair.ts:39-57`, `src/src/review/review-policy.ts:8-57`.
-/

namespace BuildConductor.Review

open Base Domain Engine Inspection

/-! ## Reading findings back -/

/-- The severity of a name. -/
def severityNamed (name : String) : Option ReviewSeverity :=
  [ReviewSeverity.critical, .high, .medium, .low].find? fun severity => severityName severity = name

/-- The confidence of a name. -/
def confidenceNamed (name : String) : Option ReviewConfidence :=
  [ReviewConfidence.high, .medium, .low].find? fun confidence => confidenceName confidence = name

/-- The status of a name. -/
def statusNamed (name : String) : Option ReviewFindingStatus :=
  [ReviewFindingStatus.repairRequired, .deferred, .repaired, .unresolved].find? fun status =>
    statusName status = name

/-- The category of a name. -/
def categoryNamed (name : String) : Option ReviewCategory :=
  ReviewCategory.all.find? fun category => category.name = name

/-- A text. -/
def textValue : Json → Option String
  | .str text => some text
  | _ => none

/-- A list of texts. -/
def textValues : Json → Option (List String)
  | .arr items => items.mapM textValue
  | _ => none

/-- The attempt a finding names, when it names one. -/
def attemptValue : Option Json → Option (Option String)
  | none => some none
  | some value => some <$> textValue value

/-- The finding a value holds. The source only assumes that there is one. -/
def findingOf (value : Json) : Option ReviewFinding :=
  match value with
  | .obj fields => do
    let id ← Json.field fields "id" >>= textValue
    let category ← Json.field fields "category" >>= textValue >>= categoryNamed
    let severity ← Json.field fields "severity" >>= textValue >>= severityNamed
    let confidence ← Json.field fields "confidence" >>= textValue >>= confidenceNamed
    let title ← Json.field fields "title" >>= textValue
    let description ← Json.field fields "description" >>= textValue
    let paths ← Json.field fields "paths" >>= textValues
    let recommendation ← Json.field fields "recommendation" >>= textValue
    let status ← Json.field fields "status" >>= textValue >>= statusNamed
    let repairAttemptId ← attemptValue (Json.field fields "repairAttemptId")
    some { id, category, severity, confidence, title, description, paths, recommendation, status,
           repairAttemptId }
  | _ => none

/-- The findings of one input. `none` stands for a payload that is no JSON, or lists something that
is no finding. -/
def inputFindings (artifact : ArtifactRecord) : Option (List ReviewFinding) :=
  if artifact.kind ≠ .findings then some []
  else
    match parseJson artifact.payload with
    | none => none
    | some .null => none
    | some value => (payloadFindings value).mapM findingOf

/-- `src/src/engine/steps/repair.ts:44-57`. -/
def findingsFromInputs (inputs : List ArtifactRecord) : Option (List ReviewFinding) :=
  List.flatten <$> inputs.mapM inputFindings

private theorem textValues_strings (texts : List String) :
    textValues (Json.strings texts) = some texts := by
  unfold Json.strings textValues
  dsimp only
  induction texts with
  | nil => rfl
  | cons text rest ih =>
    rw [List.map_cons, List.mapM_cons, ih]
    rfl

/-- A written finding reads back. -/
theorem findingOf_findingJson (finding : ReviewFinding) :
    findingOf (findingJson finding) = some finding := by
  have hnodup : ((findingProperties finding).map Prod.fst).Nodup := by
    unfold findingProperties
    simp
  have hcategory : categoryNamed finding.category.name = some finding.category := by
    cases finding.category <;> rfl
  have hseverity : severityNamed (severityName finding.severity) = some finding.severity := by
    cases finding.severity <;> rfl
  have hconfidence : confidenceNamed (confidenceName finding.confidence) =
      some finding.confidence := by
    cases finding.confidence <;> rfl
  have hstatus : statusNamed (statusName finding.status) = some finding.status := by
    cases finding.status <;> rfl
  unfold findingOf findingJson
  simp only [Json.field_definedFields hnodup]
  unfold findingProperties
  cases hattempt : finding.repairAttemptId with
  | none =>
    simp [List.lookup_cons, textValue, textValues_strings, attemptValue, hcategory, hseverity, hconfidence,
      hstatus]
    rw [← hattempt]
  | some attemptId =>
    simp [List.lookup_cons, textValue, textValues_strings, attemptValue, hcategory, hseverity, hconfidence,
      hstatus]
    rw [← hattempt]

/-- Written findings read back. -/
theorem mapM_findingOf (findings : List ReviewFinding) :
    (findings.map findingJson).mapM findingOf = some findings := by
  induction findings with
  | nil => rfl
  | cons finding rest ih =>
    rw [List.map_cons, List.mapM_cons, ih, findingOf_findingJson]
    rfl

/-- A published review is read with the findings it was published with. -/
theorem payloadFindings_read (category : ReviewCategory) (baseCommit summary : String)
    (findings : List ReviewFinding) :
    (payloadFindings (reviewFindingsPayload category baseCommit summary
      (findings.map findingJson))).mapM findingOf = some findings :=
  mapM_findingOf findings

/-! ## Priorities -/

/-- `SEVERITY_ORDER`. -/
def severityOrder : ReviewSeverity → Nat
  | .critical => 0
  | .high => 1
  | .medium => 2
  | .low => 3

/-- `CONFIDENCE_ORDER`. -/
def confidenceOrder : ReviewConfidence → Nat
  | .high => 0
  | .medium => 1
  | .low => 2

/-- `CATEGORY_ORDER`. -/
def categoryOrder (category : ReviewCategory) : Nat := ReviewCategory.all.idxOf category

section Priorities

variable (localeCompare : String → String → Bool)

/-- Whether a finding sorts no later than another. `src/src/review/review-policy.ts:39-46`. -/
def sortsBefore (left right : ReviewFinding) : Bool :=
  if severityOrder left.severity ≠ severityOrder right.severity then
    severityOrder left.severity < severityOrder right.severity
  else if confidenceOrder left.confidence ≠ confidenceOrder right.confidence then
    confidenceOrder left.confidence < confidenceOrder right.confidence
  else if categoryOrder left.category ≠ categoryOrder right.category then
    categoryOrder left.category < categoryOrder right.category
  else localeCompare left.id right.id

/-- A finding with the status the policy gives it. `src/src/review/review-policy.ts:33-38`. -/
def withPolicyStatus (finding : ReviewFinding) : ReviewFinding :=
  { finding with status := if requiresAutomaticRepair finding then .repairRequired else .deferred }

/-- The most findings a repair takes on. -/
def maxRepairFindings : Nat := 100

/-- `src/src/review/review-policy.ts:31-57`. -/
def prioritizeFindings (findings : List ReviewFinding) : Except String (List ReviewFinding) := do
  let prioritized := (findings.map withPolicyStatus).mergeSort (sortsBefore localeCompare)
  ensure ((prioritized.filter (·.status = .repairRequired)).length ≤ maxRepairFindings)
    "More than 100 findings require repair; refusing unsafe automatic repair"
  pure prioritized

/-- What a repair has to repair. `src/src/engine/steps/repair.ts:119-124`. -/
def requiredFindings (findings : List ReviewFinding) : Except String (List ReviewFinding) :=
  (List.filter (·.status = .repairRequired)) <$> prioritizeFindings localeCompare findings

end Priorities

/-- The findings that need a repair. -/
def repairable (findings : List ReviewFinding) : List ReviewFinding :=
  findings.filter requiresAutomaticRepair

private theorem filter_required_perm (localeCompare : String → String → Bool)
    (findings : List ReviewFinding) :
    (((findings.map withPolicyStatus).mergeSort (sortsBefore localeCompare)).filter
      (·.status = .repairRequired)).Perm ((repairable findings).map withPolicyStatus) := by
  refine ((List.mergeSort_perm _ _).filter _).trans ?_
  rw [List.filter_map]
  apply List.Perm.of_eq
  unfold repairable
  congr 1
  apply List.filter_congr
  intro finding _
  unfold withPolicyStatus
  by_cases hrequired : requiresAutomaticRepair finding = true
  · simp [hrequired]
  · rw [Bool.not_eq_true] at hrequired
    simp [hrequired]

/-- The findings a repair takes on are those that need one, in another order, and at most a
hundred. -/
theorem requiredFindings_ok {localeCompare : String → String → Bool}
    {findings required : List ReviewFinding}
    (h : requiredFindings localeCompare findings = .ok required) :
    required.Perm ((repairable findings).map withPolicyStatus) ∧
      required.length ≤ maxRepairFindings := by
  unfold requiredFindings prioritizeFindings at h
  rw [map_ok_iff] at h
  obtain ⟨prioritized, hprioritized, rfl⟩ := h
  rw [seq_ok_iff, ensure_ok_iff] at hprioritized
  obtain ⟨hcount, hprioritized⟩ := hprioritized
  cases hprioritized
  exact ⟨filter_required_perm localeCompare findings, hcount⟩

/-- A repair refuses its findings exactly when more than a hundred need one. -/
theorem requiredFindings_error_iff {localeCompare : String → String → Bool}
    {findings : List ReviewFinding} :
    (∃ error, requiredFindings localeCompare findings = .error error) ↔
      maxRepairFindings < (repairable findings).length := by
  have hlength := (filter_required_perm localeCompare findings).length_eq
  rw [List.length_map] at hlength
  unfold requiredFindings prioritizeFindings ensure
  dsimp only
  rw [hlength]
  by_cases hcount : (repairable findings).length ≤ maxRepairFindings
  · rw [if_pos hcount]
    constructor
    · rintro ⟨error, h⟩
      cases h
    · intro _
      omega
  · rw [if_neg hcount]
    constructor
    · intro _
      omega
    · intro _
      exact ⟨_, rfl⟩

end BuildConductor.Review
