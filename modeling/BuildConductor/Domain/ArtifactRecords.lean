import BuildConductor.Domain.Artifacts
import BuildConductor.Domain.JsonText
import Mathlib.Algebra.GroupWithZero.Nat

/-!
# Artifact records

The record a stored artifact is kept as, the ids it is filed under, and the validator every read
goes through. A record the store builds passes the validator unchanged.
`src/src/domain/artifacts.ts`.
-/

namespace BuildConductor.Domain

open Base

/-! ## Kinds -/

/-- `src/src/domain/artifacts.ts:23`. -/
inductive ArtifactPayloadFormat
  | json | text
deriving DecidableEq, Repr

/-- The name a message uses. -/
def ArtifactPayloadFormat.name : ArtifactPayloadFormat → String
  | json => "json"
  | text => "text"

namespace ArtifactKind

/-- `ARTIFACT_KINDS`, in declaration order. -/
def all : List ArtifactKind :=
  [report, decision, findings, testEvidence, patch, commit, mergeCandidate]

/-- The name a record uses. -/
def name : ArtifactKind → String
  | report => "report"
  | decision => "decision"
  | findings => "findings"
  | testEvidence => "test-evidence"
  | patch => "patch"
  | commit => "commit"
  | mergeCandidate => "merge-candidate"

/-- The kind with a given name. -/
def ofName? (s : String) : Option ArtifactKind := all.find? fun kind => kind.name = s

@[simp] theorem ofName?_name (kind : ArtifactKind) : ofName? kind.name = some kind := by
  cases kind <;> decide

/-- `ARTIFACT_KIND_FORMATS`. `src/src/domain/artifacts.ts:25-36`. -/
def format : ArtifactKind → ArtifactPayloadFormat
  | report | patch => .text
  | decision | findings | testEvidence | commit | mergeCandidate => .json

/-- `ARTIFACT_KIND_MEDIA_TYPES`. `src/src/domain/artifacts.ts:38-46`. -/
def mediaType : ArtifactKind → String
  | report => "text/markdown"
  | patch => "text/x-patch"
  | decision | findings | testEvidence | commit | mergeCandidate => "application/json"

end ArtifactKind

/-! ## Ids -/

/-- A name has no dot. -/
theorem ne_dot_of_matchesIdPattern {s : String} (h : matchesIdPattern s = true) :
    '.' ∉ s.toList := by
  unfold matchesIdPattern at h
  intro hdot
  split at h
  · next hnil =>
    rw [hnil] at hdot
    cases hdot
  · next c rest hcons =>
    rw [Bool.and_eq_true, List.all_eq_true] at h
    rw [hcons, List.mem_cons] at hdot
    rcases hdot with rfl | hdot
    · exact absurd h.1 (by decide)
    · exact absurd (h.2 '.' hdot) (by decide)

/-- The identity an id spells. `src/src/domain/artifacts.ts:123-143`. -/
def parseArtifactId (id : String) : Except String ArtifactIdentity :=
  match id.toList.splitOn '.' with
  | [stepId, output, attemptText] =>
    if attemptText ≠ [] ∧ attemptText.all Char.isDigit then do
      let identity : ArtifactIdentity :=
        ⟨String.ofList stepId, String.ofList output, Nat.ofDigitChars 10 attemptText 0⟩
      let _ ← artifactIdFor identity
      pure identity
    else .error s!"artifact id {quote id} must end with a positive attempt number"
  | _ => .error s!"artifact id {quote id} must be <stepId>.<output>.<attempt>"

/-- What an identity needs for its id, and the id. -/
theorem artifactIdFor_ok_iff {identity : ArtifactIdentity} {id : String} :
    artifactIdFor identity = .ok id ↔
      matchesIdPattern identity.stepId ∧ matchesIdPattern identity.output ∧
      (1 ≤ identity.attempt ∧ identity.attempt ≤ maxArtifactAttempt) ∧
      id.length ≤ maxArtifactIdLength ∧
      id = s!"{identity.stepId}.{identity.output}.{identity.attempt}" := by
  unfold artifactIdFor assertName
  simp only [seq_ok_iff, ensure_ok_iff]
  constructor
  · rintro ⟨hstep, houtput, hattempt, hlength, hid⟩
    cases hid
    exact ⟨hstep, houtput, hattempt, hlength, rfl⟩
  · rintro ⟨hstep, houtput, hattempt, hlength, rfl⟩
    exact ⟨hstep, houtput, hattempt, hlength, rfl⟩

/-- The parts of an id, joined by dots. -/
theorem toList_artifactId (identity : ArtifactIdentity) :
    s!"{identity.stepId}.{identity.output}.{identity.attempt}".toList =
      ['.'].intercalate [identity.stepId.toList, identity.output.toList,
        Nat.toDigits 10 identity.attempt] := by
  simp [String.toList_append, List.intercalate, Nat.toList_repr, toString]

/-- An id is parsed to the identity it was built from. -/
theorem parseArtifactId_of_artifactIdFor {identity : ArtifactIdentity} {id : String}
    (h : artifactIdFor identity = .ok id) : parseArtifactId id = .ok identity := by
  obtain ⟨hstep, houtput, -, -, rfl⟩ := artifactIdFor_ok_iff.mp h
  have hdigits : ∀ c ∈ Nat.toDigits 10 identity.attempt, c.isDigit = true := fun c hc =>
    Nat.isDigit_of_mem_toDigits (by omega) (by omega) hc
  have hsplit : s!"{identity.stepId}.{identity.output}.{identity.attempt}".toList.splitOn '.' =
      [identity.stepId.toList, identity.output.toList, Nat.toDigits 10 identity.attempt] := by
    rw [toList_artifactId]
    apply List.splitOn_intercalate '.' _ (by simp)
    intro part hpart
    simp only [List.mem_cons, List.not_mem_nil, or_false] at hpart
    rcases hpart with rfl | rfl | rfl
    · exact ne_dot_of_matchesIdPattern hstep
    · exact ne_dot_of_matchesIdPattern houtput
    · exact fun hdot => absurd (hdigits '.' hdot) (by decide)
  have hshape : Nat.toDigits 10 identity.attempt ≠ [] ∧
      (Nat.toDigits 10 identity.attempt).all Char.isDigit :=
    ⟨by simp, List.all_eq_true.mpr hdigits⟩
  unfold parseArtifactId
  simp only [hsplit, if_pos hshape, String.ofList_toList, Nat.ofDigitChars_ten_toDigits]
  show (artifactIdFor identity >>= fun _ => pure identity) = _
  rw [h]
  rfl

/-- Distinct identities have distinct ids. -/
theorem artifactIdFor_inj {identity other : ArtifactIdentity} {id : String}
    (h : artifactIdFor identity = .ok id) (hother : artifactIdFor other = .ok id) :
    identity = other := by
  have hparsed := parseArtifactId_of_artifactIdFor h
  rw [parseArtifactId_of_artifactIdFor hother] at hparsed
  exact (Except.ok.inj hparsed).symm

/-! ## Payloads -/

/-- A value `JSON.stringify` has a text for. -/
structure JsonValue where
  value : Json
  writable : value.Writable

/-- `src/src/domain/artifacts.ts:66-68`. A missing value stands for `undefined`. -/
inductive ArtifactPayload
  | json (value : Option JsonValue)
  | text (text : String)

/-- The discriminant of a payload. -/
def ArtifactPayload.format : ArtifactPayload → ArtifactPayloadFormat
  | json _ => .json
  | text _ => .text

/-- The payload text of a kind. `src/src/domain/artifacts.ts:153-174`. -/
def serializeArtifactPayload (kind : ArtifactKind) (payload : ArtifactPayload) :
    Except String String := do
  ensure (payload.format = kind.format)
    s!"{kind.name} artifacts require a {kind.format.name} payload, received {payload.format.name}"
  match payload with
  | .text text => pure text
  | .json none => .error s!"{kind.name} artifacts cannot store an undefined JSON value"
  | .json (some value) => pure (jsonText .indented value.value)

/-- The payload a stored text holds. `src/src/domain/artifacts.ts:177-191`. -/
def parseArtifactPayload (kind : ArtifactKind) (payloadText : String) :
    Except String (Json ⊕ String) :=
  match kind.format with
  | .text => .ok (.inr payloadText)
  | .json =>
    match parseJson payloadText with
    | some value => .ok (.inl value)
    | none => .error s!"{kind.name} artifact payload is not valid JSON"

/-- A written value reads back. -/
theorem parseJson_jsonText_self (layout : JsonLayout) {value : Json} (h : value.Writable) :
    parseJson (jsonText layout value) = some value := by
  have hread := parseJson_jsonText layout h [] nofun
  rwa [String.ofList_nil, String.append_empty] at hread

private theorem serialize_cases {kind : ArtifactKind} {payload : ArtifactPayload} {text : String}
    (h : serializeArtifactPayload kind payload = .ok text) :
    (kind.format = .text ∧ payload = .text text) ∨
    (kind.format = .json ∧ ∃ value, payload = .json (some value) ∧
      text = jsonText .indented value.value) := by
  unfold serializeArtifactPayload at h
  rw [seq_ok_iff, ensure_ok_iff] at h
  obtain ⟨hformat, h⟩ := h
  split at h
  · cases h
    exact .inl ⟨hformat.symm, rfl⟩
  · cases h
  · next value =>
    cases h
    exact .inr ⟨hformat.symm, value, rfl, rfl⟩

/-- A serialized payload parses. -/
theorem parseArtifactPayload_of_serialize {kind : ArtifactKind} {payload : ArtifactPayload}
    {text : String} (h : serializeArtifactPayload kind payload = .ok text) :
    ∃ parsed, parseArtifactPayload kind text = .ok parsed := by
  unfold parseArtifactPayload
  rcases serialize_cases h with ⟨hformat, -⟩ | ⟨hformat, value, -, rfl⟩
  · rw [hformat]
    exact ⟨_, rfl⟩
  · rw [hformat, parseJson_jsonText_self .indented value.writable]
    exact ⟨_, rfl⟩

/-- Payloads of one kind with one text are the same payload. -/
theorem serializeArtifactPayload_inj {kind : ArtifactKind} {payload other : ArtifactPayload}
    {text : String} (h : serializeArtifactPayload kind payload = .ok text)
    (hother : serializeArtifactPayload kind other = .ok text) : payload = other := by
  rcases serialize_cases h with ⟨hformat, rfl⟩ | ⟨hformat, value, rfl, rfl⟩
  · rcases serialize_cases hother with ⟨-, rfl⟩ | ⟨hformat', -⟩
    · rfl
    · rw [hformat] at hformat'
      cases hformat'
  · rcases serialize_cases hother with ⟨hformat', -⟩ | ⟨-, value', rfl, htext⟩
    · rw [hformat] at hformat'
      cases hformat'
    · have hparsed := parseJson_jsonText_self .indented value.writable
      rw [htext, parseJson_jsonText_self .indented value'.writable, Option.some.injEq] at hparsed
      cases value
      cases value'
      cases hparsed
      rfl

/-! ## Records -/

/-- The complete stored artifact. `src/src/domain/artifacts.ts:71-85`. -/
structure ArtifactRecord where
  id : String
  runId : String
  stepId : String
  output : String
  attempt : Nat
  kind : ArtifactKind
  mediaType : String
  title : String
  createdAt : String
  sizeBytes : Nat
  contentHash : String
  payload : String
deriving DecidableEq, Repr

/-- What a record is the value of. -/
def ArtifactRecord.identity (record : ArtifactRecord) : ArtifactIdentity :=
  ⟨record.stepId, record.output, record.attempt⟩

/-- `ARTIFACT_RECORD_VERSION`. -/
def artifactRecordVersion : Nat := 1

/-- `MAX_ARTIFACT_TITLE_LENGTH`. -/
def maxArtifactTitleLength : Nat := 200

/-- The record as a document. -/
def ArtifactRecord.toJson (record : ArtifactRecord) : Json :=
  .obj [("version", .number artifactRecordVersion), ("id", .str record.id),
    ("runId", .str record.runId), ("stepId", .str record.stepId), ("output", .str record.output),
    ("attempt", .number record.attempt), ("kind", .str record.kind.name),
    ("mediaType", .str record.mediaType), ("title", .str record.title),
    ("createdAt", .str record.createdAt), ("sizeBytes", .number record.sizeBytes),
    ("contentHash", .str record.contentHash), ("payload", .str record.payload)]

theorem ArtifactRecord.toJson_writable (record : ArtifactRecord) : record.toJson.Writable := by
  unfold ArtifactRecord.toJson
  simp only [Json.Writable, Json.WritableFields, and_true, List.map_cons, List.map_nil]
  decide

/-- `value.length` of a string: characters beyond the basic plane count twice. -/
def utf16Length (s : String) : Nat := (s.toList.map fun c => if c.toNat < 0x10000 then 1 else 2).sum

/-- `/^[a-zA-Z0-9][a-zA-Z0-9_-]*$/`. `src/src/domain/artifacts.ts:56`. -/
def matchesRunIdPattern (id : String) : Bool :=
  match id.toList with
  | [] => false
  | c :: rest => c.isAlphanum && rest.all fun d => d.isAlphanum || d = '_' || d = '-'

/-- A lower-case hexadecimal digit. -/
def isHexDigit (c : Char) : Bool := c.isDigit || ('a' ≤ c && c ≤ 'f')

/-- A hexadecimal SHA-256 digest: 64 lower-case digits. -/
def IsSha256Hex (digest : String) : Prop :=
  digest.toList.length = 64 ∧ ∀ c ∈ digest.toList, isHexDigit c

/-- `CONTENT_HASH_PATTERN`. `src/src/domain/artifacts.ts:57`. -/
def matchesContentHash (s : String) : Bool :=
  startsWith s "sha256:" && (s.toList.drop 7).length = 64 && (s.toList.drop 7).all isHexDigit

section

variable (sha256Hex : String → String)

/-- `src/src/domain/artifacts.ts:145-147`. -/
def artifactContentHash (payload : String) : String := "sha256:" ++ sha256Hex payload

/-- `src/src/domain/artifacts.ts:193-197`. -/
def assertStringField (value : Option Json) (path : String) : Except String String :=
  match value with
  | some (.str s) => if s ≠ "" then .ok s else .error s!"{path} must be a non-empty string"
  | _ => .error s!"{path} must be a non-empty string"

/-- `artifact.attempt`. A number that is not a natural number is read as zero, which no identity
admits. -/
def readAttempt (value : Option Json) : Except String Nat :=
  match value with
  | some (.number n) => .ok n.toNat
  | some (.fraction _) => .ok 0
  | _ => .error "artifact.attempt must be a number"

/-- The kind a record names. `src/src/domain/artifacts.ts:228-236`. -/
def readArtifactKind (value : Option Json) : Except String ArtifactKind :=
  match value with
  | some (.str s) => require (ArtifactKind.ofName? s) message
  | _ => .error message
where message :=
    "artifact.kind must be one of " ++ ", ".intercalate (ArtifactKind.all.map (·.name))

/-- The value is a given text. -/
def isText (value : Option Json) (s : String) : Bool :=
  match value with
  | some (.str t) => t = s
  | _ => false

/-- The value is a given number. -/
def isNumber (value : Option Json) (n : Nat) : Bool :=
  match value with
  | some (.number m) => m = n
  | _ => false

/-- The value is the text of a digest. -/
def isContentHash (value : Option Json) : Bool :=
  match value with
  | some (.str s) => matchesContentHash s
  | _ => false

/-- The payload of a record. -/
def readPayload (value : Option Json) : Except String String :=
  match value with
  | some (.str s) => .ok s
  | _ => .error "artifact.payload must be a string"

/-- `src/src/domain/artifacts.ts:200-281`. -/
def validateArtifactRecord (value : Json) : Except String ArtifactRecord :=
  match value with
  | .obj fields => do
    let field := Json.field fields
    ensure (isNumber (field "version") artifactRecordVersion)
      s!"artifact record version must be {artifactRecordVersion}"
    let storedId ← assertStringField (field "id") "artifact.id"
    let runId ← assertStringField (field "runId") "artifact.runId"
    ensure (matchesRunIdPattern runId) "artifact.runId must match /^[a-zA-Z0-9][a-zA-Z0-9_-]*$/"
    let stepId ← assertStringField (field "stepId") "artifact.stepId"
    let output ← assertStringField (field "output") "artifact.output"
    let attempt ← readAttempt (field "attempt")
    let id ← artifactIdFor ⟨stepId, output, attempt⟩
    ensure (storedId = id)
      s!"artifact.id {quote storedId} does not match its identity {quote id}"
    let kind ← readArtifactKind (field "kind")
    ensure (isText (field "mediaType") kind.mediaType)
      s!"artifact.mediaType must be {kind.mediaType} for {kind.name} artifacts"
    let title ← assertStringField (field "title") "artifact.title"
    ensure (utf16Length title ≤ maxArtifactTitleLength)
      s!"artifact.title exceeds {maxArtifactTitleLength} characters"
    let createdAt ← assertStringField (field "createdAt") "artifact.createdAt"
    let payload ← readPayload (field "payload")
    ensure (isNumber (field "sizeBytes") payload.utf8ByteSize)
      "artifact.sizeBytes does not match the stored payload"
    ensure (isContentHash (field "contentHash"))
      "artifact.contentHash must be a sha256:<hex> digest"
    ensure (isText (field "contentHash") (artifactContentHash sha256Hex payload))
      "artifact.contentHash does not match the stored payload"
    let _ ← parseArtifactPayload kind payload
    pure ⟨id, runId, stepId, output, attempt, kind, kind.mediaType, title, createdAt,
      payload.utf8ByteSize, artifactContentHash sha256Hex payload, payload⟩
  | _ => .error "artifact record must be an object"

/-- What the validator admits. -/
structure ArtifactRecord.WellFormed (record : ArtifactRecord) : Prop where
  runId : matchesRunIdPattern record.runId
  id : artifactIdFor record.identity = .ok record.id
  mediaType : record.mediaType = record.kind.mediaType
  title : record.title ≠ "" ∧ utf16Length record.title ≤ maxArtifactTitleLength
  createdAt : record.createdAt ≠ ""
  sizeBytes : record.sizeBytes = record.payload.utf8ByteSize
  contentHash : record.contentHash = artifactContentHash sha256Hex record.payload
  payload : ∃ parsed, parseArtifactPayload record.kind record.payload = .ok parsed

variable {sha256Hex}

private theorem matchesContentHash_artifactContentHash
    (hsha : ∀ payload, IsSha256Hex (sha256Hex payload)) (payload : String) :
    matchesContentHash (artifactContentHash sha256Hex payload) = true := by
  have hdrop : (artifactContentHash sha256Hex payload).toList.drop 7 =
      (sha256Hex payload).toList := by
    rw [artifactContentHash, String.toList_append]
    exact List.drop_left' rfl
  have hstart : startsWith (artifactContentHash sha256Hex payload) "sha256:" = true := by
    rw [startsWith, artifactContentHash, String.toList_append]
    exact List.isPrefixOf_iff_prefix.mpr (List.prefix_append _ _)
  unfold matchesContentHash
  rw [hstart, hdrop, Bool.true_and, Bool.and_eq_true, decide_eq_true_eq, List.all_eq_true]
  exact hsha payload

private theorem ne_empty_of_matchesRunIdPattern {s : String} (h : matchesRunIdPattern s = true) :
    s ≠ "" := by
  rintro rfl
  exact absurd h (by decide)

private theorem assertStringField_str {s : String} (path : String) (h : s ≠ "") :
    assertStringField (some (.str s)) path = .ok s := by
  unfold assertStringField
  exact if_pos h

private theorem readArtifactKind_name (kind : ArtifactKind) :
    readArtifactKind (some (.str kind.name)) = .ok kind := by
  unfold readArtifactKind
  rw [require_ok_iff, ArtifactKind.ofName?_name]

/-- A well-formed record passes the validator unchanged. -/
theorem validateArtifactRecord_toJson (hsha : ∀ payload, IsSha256Hex (sha256Hex payload))
    {record : ArtifactRecord} (h : record.WellFormed sha256Hex) :
    validateArtifactRecord sha256Hex record.toJson = .ok record := by
  obtain ⟨hstep, houtput, -⟩ := artifactIdFor_ok_iff.mp h.id
  have hidNe : record.id ≠ "" := by
    intro hempty
    have hparsed := parseArtifactId_of_artifactIdFor h.id
    rw [hempty] at hparsed
    exact absurd hparsed nofun
  obtain ⟨parsed, hparsed⟩ := h.payload
  unfold validateArtifactRecord ArtifactRecord.toJson
  simp only [bind_ok_iff, ensure_ok_iff]
  refine ⟨(), ?_, record.id, assertStringField_str _ hidNe,
    record.runId, assertStringField_str _ (ne_empty_of_matchesRunIdPattern h.runId), (), h.runId,
    record.stepId, assertStringField_str _ (ne_empty_of_matchesIdPattern hstep),
    record.output, assertStringField_str _ (ne_empty_of_matchesIdPattern houtput),
    record.attempt, rfl, record.id, h.id, (), rfl,
    record.kind, readArtifactKind_name record.kind, (), ?_,
    record.title, assertStringField_str _ h.title.1, (), h.title.2,
    record.createdAt, assertStringField_str _ h.createdAt, record.payload, rfl, (), ?_, (), ?_,
    (), ?_, parsed, hparsed, ?_⟩
  · rfl
  · show isText (some (.str record.mediaType)) record.kind.mediaType = true
    simp [isText, h.mediaType]
  · show isNumber (some (.number record.sizeBytes)) record.payload.utf8ByteSize = true
    simp [isNumber, h.sizeBytes]
  · show isContentHash (some (.str record.contentHash)) = true
    rw [h.contentHash]
    exact matchesContentHash_artifactContentHash hsha record.payload
  · show isText (some (.str record.contentHash)) (artifactContentHash sha256Hex record.payload) = true
    simp [isText, h.contentHash]
  · rw [← h.mediaType, ← h.sizeBytes, ← h.contentHash]
    rfl

end

end BuildConductor.Domain
