import BuildConductor.Base.LargestElements
import BuildConductor.Domain.ArtifactRecords

/-!
# The artifact store

The artifacts of one run are the files of its directory. A write holds the lock of the run while it
looks for a stored record, enforces the limits, publishes its file and drops the attempts past
retention; file operations succeed. `src/src/storage/artifact-store.ts`.
-/

namespace BuildConductor.Storage

open Base Domain

/-- What the store takes from the platform: the digest of a text, the order of a listing and the
text of a syntax error. -/
structure Platform where
  sha256Hex : String → String
  localeCompare : String → String → Bool
  syntaxErrorMessage : String → String

/-- `src/src/storage/artifact-store.ts:40-47`. -/
inductive ArtifactStoreErrorCode
  | invalidArtifact | artifactExists | artifactTooLarge | artifactCountExceeded
  | artifactBytesExceeded | artifactNotFound | artifactCorrupt
deriving DecidableEq, Repr

/-- `src/src/storage/artifact-store.ts:49-57`. -/
structure ArtifactStoreError where
  code : ArtifactStoreErrorCode
  message : String
deriving DecidableEq, Repr

/-- `src/src/storage/artifact-store.ts:59-64`. -/
structure ArtifactWriteRequest extends ArtifactIdentity where
  runId : String
  kind : ArtifactKind
  title : String
  payload : ArtifactPayload

/-- A positive safe integer. -/
abbrev PositiveInteger : Type := {n : Nat // 1 ≤ n ∧ n ≤ maxSafeInteger}

/-- `src/src/storage/artifact-store.ts:86-91`. -/
def positiveInteger (value : Nat) (name : String) : Except String PositiveInteger :=
  if h : 1 ≤ value ∧ value ≤ maxSafeInteger then .ok ⟨value, h⟩
  else .error s!"{name} must be a positive safe integer"

/-- `src/src/storage/artifact-store.ts:66-80`. -/
structure ArtifactStoreOptions where
  maxArtifactBytes : Option Nat
  maxRunArtifacts : Option Nat
  maxRunBytes : Option Nat
  retainedAttemptsPerOutput : Option Nat

/-- The configuration of a store. `src/src/storage/artifact-store.ts:97-103`. -/
structure ArtifactStore where
  directory : String
  maxArtifactBytes : PositiveInteger
  maxRunArtifacts : PositiveInteger
  maxRunBytes : PositiveInteger
  retainedAttemptsPerOutput : Option PositiveInteger

/-- The files of one run directory, by name, with their text. -/
abbrev RunDirectory : Type := List (String × String)

namespace ArtifactStore

/-- The constructor, with the default limits. `src/src/storage/artifact-store.ts:105-127`. -/
def create (directory : String) (options : ArtifactStoreOptions) : Except String ArtifactStore := do
  let maxArtifactBytes ←
    positiveInteger (options.maxArtifactBytes.getD (4 * 1024 * 1024)) "maxArtifactBytes"
  let maxRunArtifacts ← positiveInteger (options.maxRunArtifacts.getD 500) "maxRunArtifacts"
  let maxRunBytes ← positiveInteger (options.maxRunBytes.getD (64 * 1024 * 1024)) "maxRunBytes"
  let retained ← match options.retainedAttemptsPerOutput with
    | none => pure none
    | some value => some <$> positiveInteger value "retainedAttemptsPerOutput"
  pure ⟨directory, maxArtifactBytes, maxRunArtifacts, maxRunBytes, retained⟩

/-- `src/src/storage/artifact-store.ts:93-95`. -/
def invalid (message : String) : ArtifactStoreError := ⟨.invalidArtifact, message⟩

variable (store : ArtifactStore) (platform : Platform)

/-- `src/src/storage/artifact-store.ts:129-134`. -/
def runDirectory (runId : String) : Except ArtifactStoreError String :=
  if matchesRunIdPattern runId then .ok s!"{store.directory}/{runId}"
  else .error (invalid s!"Unsafe run id: {runId}")

/-- The name of the file of an artifact. -/
def fileNameFor (artifactId : String) : String := artifactId ++ ".json"

/-- `fileName.slice(0, -".json".length)`. -/
def withoutExtension (fileName : String) : String :=
  String.ofList (fileName.toList.take (fileName.toList.length - 5))

/-- `src/src/storage/artifact-store.ts:140-152`. -/
def listFileNames (files : RunDirectory) : List String :=
  ((files.map Prod.fst).filter (endsWith · ".json")).mergeSort platform.localeCompare

/-- `src/src/storage/artifact-store.ts:154-189`. -/
def readRecordFile (files : RunDirectory) (runId fileName : String) :
    Except ArtifactStoreError ArtifactRecord := do
  let directory ← runDirectory store runId
  let path := s!"{directory}/{fileName}"
  match files.lookup fileName with
  | none => .error ⟨.artifactNotFound, s!"Artifact not found: {path}"⟩
  | some raw =>
    let corrupt message : ArtifactStoreError :=
      ⟨.artifactCorrupt, s!"Corrupt artifact record in {path}: {message}"⟩
    let value ← (require (parseJson raw) (platform.syntaxErrorMessage raw)).mapError corrupt
    let record ← (validateArtifactRecord platform.sha256Hex value).mapError corrupt
    if record.runId ≠ runId ∨ fileNameFor record.id ≠ fileName then
      .error (corrupt "stored identity does not match its location")
    else pure record

/-- `src/src/storage/artifact-store.ts:191-237`. -/
def buildRecord (request : ArtifactWriteRequest) (createdAt : Timestamp) :
    Except ArtifactStoreError ArtifactRecord := do
  (ensure (matchesRunIdPattern request.runId) s!"Unsafe run id: {request.runId}").mapError invalid
  (ensure (request.title ≠ "" ∧ utf16Length request.title ≤ maxArtifactTitleLength)
    s!"artifact title must be 1 to {maxArtifactTitleLength} characters").mapError invalid
  let id ← (artifactIdFor request.toArtifactIdentity).mapError invalid
  let payload ← (serializeArtifactPayload request.kind request.payload).mapError invalid
  let sizeBytes := payload.utf8ByteSize
  if store.maxArtifactBytes.val < sizeBytes then
    .error ⟨.artifactTooLarge,
      s!"Artifact {id} payload is {sizeBytes} bytes; the limit is {store.maxArtifactBytes.val} bytes"⟩
  else
    pure ⟨id, request.runId, request.stepId, request.output, request.attempt, request.kind,
      request.kind.mediaType, request.title, createdAt.text, sizeBytes,
      artifactContentHash platform.sha256Hex payload, payload⟩

/-- The text of a record. `src/src/storage/artifact-store.ts:364`. -/
def serialize (record : ArtifactRecord) : String := jsonText .indented record.toJson ++ "\n"

/-- The bytes of the listed files. A file gone since the listing counts for nothing. -/
def storedBytes (files : RunDirectory) : Nat :=
  ((listFileNames platform files).map fun fileName =>
    ((files.lookup fileName).map String.utf8ByteSize).getD 0).sum

/-- `src/src/storage/artifact-store.ts:239-270`. -/
def enforceRunLimits (files : RunDirectory) (record : ArtifactRecord) (serialized : String) :
    Except ArtifactStoreError Unit :=
  let fileCount := (listFileNames platform files).length
  if store.maxRunArtifacts.val < fileCount + 1 then
    .error ⟨.artifactCountExceeded,
      s!"Run {record.runId} already stores {fileCount} artifacts; the limit is {store.maxRunArtifacts.val}"⟩
  else
    let stored := storedBytes platform files
    let newBytes := serialized.utf8ByteSize
    if store.maxRunBytes.val < stored + newBytes then
      .error ⟨.artifactBytesExceeded,
        s!"Run {record.runId} stores {stored} artifact bytes; adding {newBytes} bytes exceeds the {store.maxRunBytes.val} byte limit"⟩
    else .ok ()

/-- Link the file of a record, unless its name is taken; the temporary file is gone afterwards.
`src/src/storage/artifact-store.ts:272-304`. -/
def publishExclusive (files : RunDirectory) (record : ArtifactRecord) (serialized : String) :
    Option RunDirectory :=
  if (files.lookup (fileNameFor record.id)).isSome then none
  else some (files ++ [(fileNameFor record.id, serialized)])

/-- The attempts of one output that the listed names spell. -/
def attemptFiles (files : RunDirectory) (stepId output : String) : List (Nat × String) :=
  (listFileNames platform files).filterMap fun fileName =>
    match parseArtifactId (withoutExtension fileName) with
    | .ok identity =>
      if identity.stepId = stepId ∧ identity.output = output then some (identity.attempt, fileName)
      else none
    | .error _ => none

/-- The attempts with the newest in front. -/
def newestFirst (attempts : List (Nat × String)) : List (Nat × String) :=
  attempts.mergeSort fun left right => right.1 ≤ left.1

/-- `src/src/storage/artifact-store.ts:306-330`. -/
def applyRetention (files : RunDirectory) (record : ArtifactRecord) : RunDirectory :=
  match store.retainedAttemptsPerOutput with
  | none => files
  | some retained =>
    let attempts := newestFirst (attemptFiles platform files record.stepId record.output)
    let stale := (attempts.drop retained.val).map Prod.snd
    files.filter fun file => file.1 ∉ stale

/-- `src/src/storage/artifact-store.ts:400-416`. -/
def reconcileExisting (existing proposed : ArtifactRecord) :
    Except ArtifactStoreError ArtifactRecord :=
  if existing.contentHash = proposed.contentHash ∧ existing.payload = proposed.payload ∧
      existing.kind = proposed.kind ∧ existing.title = proposed.title then .ok existing
  else .error ⟨.artifactExists,
    s!"Artifact {proposed.id} already exists in run {proposed.runId} with different content"⟩

/-- `src/src/storage/artifact-store.ts:383-398`. -/
def readExisting (files : RunDirectory) (runId artifactId : String) :
    Except ArtifactStoreError (Option ArtifactRecord) :=
  match readRecordFile store platform files runId (fileNameFor artifactId) with
  | .ok record => .ok (some record)
  | .error error => if error.code = .artifactNotFound then .ok none else .error error

/-- One write, with the directory it leaves. `src/src/storage/artifact-store.ts:362-381`. -/
def write (files : RunDirectory) (request : ArtifactWriteRequest) (createdAt : Timestamp) :
    Except ArtifactStoreError ArtifactRecord × RunDirectory :=
  match buildRecord store platform request createdAt with
  | .error error => (.error error, files)
  | .ok record =>
    let serialized := serialize record
    match readExisting store platform files record.runId record.id with
    | .error error => (.error error, files)
    | .ok (some existing) => (reconcileExisting existing record, files)
    | .ok none =>
      match enforceRunLimits store platform files record serialized with
      | .error error => (.error error, files)
      | .ok () =>
        match publishExclusive files record serialized with
        | none =>
          (readRecordFile store platform files record.runId (fileNameFor record.id) >>=
            fun published => reconcileExisting published record, files)
        | some files => (.ok record, applyRetention store platform files record)

/-- `src/src/storage/artifact-store.ts:418-428`. -/
def read (files : RunDirectory) (runId artifactId : String) :
    Except ArtifactStoreError ArtifactRecord := do
  let _ ← (parseArtifactId artifactId).mapError invalid
  readRecordFile store platform files runId (fileNameFor artifactId)

/-- The loop of `latest` over the listed names. -/
def newest (stepId output : String) : Option ArtifactIdentity → List String →
    Option ArtifactIdentity
  | best, [] => best
  | best, fileName :: rest =>
    match parseArtifactId (withoutExtension fileName) with
    | .ok identity =>
      if identity.stepId ≠ stepId ∨ identity.output ≠ output then newest stepId output best rest
      else if best.all (·.attempt < identity.attempt) then newest stepId output (some identity) rest
      else newest stepId output best rest
    | .error _ => newest stepId output best rest

/-- The newest stored attempt of one output. `src/src/storage/artifact-store.ts:430-454`. -/
def latest (files : RunDirectory) (runId stepId output : String) :
    Except ArtifactStoreError (Option ArtifactRecord) := do
  let _ ← runDirectory store runId
  match newest stepId output none (listFileNames platform files) with
  | none => pure none
  | some identity =>
    let id ← (artifactIdFor identity).mapError invalid
    some <$> read store platform files runId id

end ArtifactStore

end BuildConductor.Storage
