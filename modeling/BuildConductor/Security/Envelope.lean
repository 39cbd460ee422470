import BuildConductor.Domain.StepsNormal
import BuildConductor.Security.Capabilities

/-!
# Authority envelopes

The authority a user approves once: its typed form, the reader that normalises an
envelope document, and the digest that identifies it. `src/src/security/envelope.ts`.
-/

namespace BuildConductor.Security

open Base Domain Domain.Reading

/-- `RESERVED_ESCALATION_CONDITIONS`. `src/src/security/envelope.ts:38-44`. -/
inductive EscalationCondition
  | addRepository | widenMutationAuthority | changeAcceptanceCriteria | skipRequiredValidation
  | externalEffect
deriving DecidableEq, Repr

namespace EscalationCondition

/-- Every reserved condition, in declaration order. -/
def all : List EscalationCondition :=
  [addRepository, widenMutationAuthority, changeAcceptanceCriteria, skipRequiredValidation,
    externalEffect]

/-- The name a document uses. -/
def name : EscalationCondition → String
  | addRepository => "add-repository"
  | widenMutationAuthority => "widen-mutation-authority"
  | changeAcceptanceCriteria => "change-acceptance-criteria"
  | skipRequiredValidation => "skip-required-validation"
  | externalEffect => "external-effect"

end EscalationCondition

/-- `src/src/security/envelope.ts:54`. -/
inductive EnvelopeSource
  | authored | derived
deriving DecidableEq, Repr

/-- `src/src/security/envelope.ts:69-75`. -/
structure EnvelopeMutationScope where
  capabilities : List StepCapability
  allowedPaths : List String
  forbiddenPaths : List String
deriving DecidableEq, Repr

/-- `src/src/security/envelope.ts:77-81`. -/
structure EnvelopeRepository where
  root : String
  mutation : EnvelopeMutationScope
deriving DecidableEq, Repr

/-- `src/src/security/envelope.ts:83-88`. -/
structure EnvelopeValidationExpectations where
  required : List ValidationCommand
  perChange : Bool
deriving DecidableEq, Repr

/-- `src/src/security/envelope.ts:95-99`. -/
structure EnvelopeEscalationPolicy where
  conditions : List EscalationCondition
  reservedDecisions : List String
deriving DecidableEq, Repr

/-- The version, the external effects and the worker isolation admit one value each, so they
carry no field; `sandboxValidation` is `sandbox.validation`. `src/src/security/envelope.ts:107-117`. -/
structure AuthorityEnvelope where
  outcome : String
  acceptanceCriteria : List String
  repositories : List EnvelopeRepository
  forbiddenActions : List String
  sandboxValidation : ValidationSandboxMode
  validation : EnvelopeValidationExpectations
  escalation : EnvelopeEscalationPolicy
deriving DecidableEq, Repr

/-- `EXTERNAL_EFFECT_BOUNDARY`. -/
def externalEffectBoundary : String :=
  "External effects forbidden: no deployment, publishing, cloud administration, or remote mutation authority exists in any capability profile"

/-! ## Reading -/

/-- `src/src/security/envelope.ts:134-152`. -/
def rejectUnknownKeys (fields : List (String × Json)) (allowed : List String) (path : String) :
    Reading Unit :=
  checkEach (fun _ key =>
    let keyPath := if path = "" then key else s!"{path}.{key}"
    issueIf (key ∉ allowed) "unknown_key" keyPath
      s!"{keyPath} is not a recognized authority envelope field") 0 (fields.map Prod.fst)

/-- `src/src/security/envelope.ts:154-169`. -/
def readUniqueStrings (value : Option Json) (path : String) : Reading (List String) := do
  let values ← readStringArray value path
  issueIf (¬ values.Nodup) "duplicate_entry" path s!"{path} must not contain duplicates"
  pure values

/-- Drop the separators at the end of a path. -/
def dropTrailingSeparators (path : String) : String :=
  String.ofList (path.toList.reverse.dropWhile fun c => c = '/' || c = '\\').reverse

/-- `src/src/security/envelope.ts:171-221`. -/
def readRepositoryRoot (value : Option Json) (path : String) (source : EnvelopeSource) :
    Reading String :=
  match source with
  | .derived =>
    match value with
    | some (.str root) => do
      issueIf (root = "") "repository_root" path
        s!"{path} must preserve the historical run's non-empty repository identity"
      pure root
    | _ => do
      addIssue "repository_root" path
        s!"{path} must preserve the historical run's non-empty repository identity"
      pure ""
  | .authored => do
    let root ← readNonEmptyString value path
    if root = "" then pure root
    else if ¬ posixIsAbsolute root ∨ includes root "\x00" then do
      addIssue "repository_root" path s!"{path} must be an absolute repository path"
      pure root
    else do
      let stripped := dropTrailingSeparators (posixNormalize root)
      let canonical := if stripped = "" then root else stripped
      issueIf (canonical ≠ root) "non_canonical_root" path
        s!"{path} must be normalized without a trailing separator"
      pure root

/-- One entry of `capabilities`. -/
def readCapability (path : String) (index : Nat) (entry : Json) : Reading (Option StepCapability) :=
  match entry with
  | .str name =>
    match StepCapability.ofName? name with
    | some capability => pure (some capability)
    | none => do
      addIssue "unknown_capability" s!"{path}[{index}]"
        s!"{path}[{index}] must be one of {joinNames (StepCapability.all.map (·.name))}"
      pure none
  | _ => do
    addIssue "unknown_capability" s!"{path}[{index}]"
      s!"{path}[{index}] must be one of {joinNames (StepCapability.all.map (·.name))}"
    pure none

/-- The capability order of envelopes. `src/src/security/envelope.ts:270-276`. -/
def envelopeOrderedCapabilities (capabilities : List StepCapability) : List StepCapability :=
  StepCapability.all.filter (· ∈ capabilities)

/-- `src/src/security/envelope.ts:223-268`. -/
def readCapabilities (value : Option Json) (path : String) : Reading (List StepCapability) :=
  match value with
  | none => pure [.readRepository]
  | some (.arr items) => do
    let entries ← readEach (readCapability path) 0 items
    let capabilities := entries.filterMap id
    issueIf (¬ capabilities.Nodup) "duplicate_capability" path
      s!"{path} must not contain duplicates"
    issueIf (capabilities ≠ [] ∧ StepCapability.readRepository ∉ capabilities)
      "missing_read_capability" path
      s!"{path} must include read-repository whenever any capability is granted"
    pure (envelopeOrderedCapabilities capabilities)
  | some _ => do
    addIssue "capability_array" path s!"{path} must be an array"
    pure []

/-- The path list of a scope, empty when absent. -/
def readScopePaths (value : Option Json) (path : String) : Reading (List String) :=
  match value with
  | none => pure []
  | some v => readSafeRepositoryPaths (some v) path

/-- `src/src/security/envelope.ts:278-348`. -/
def readMutationScope (value : Option Json) (path : String) : Reading EnvelopeMutationScope :=
  let read (fields : List (String × Json)) : Reading EnvelopeMutationScope := do
    rejectUnknownKeys fields ["capabilities", "allowedPaths", "forbiddenPaths"] path
    let capabilities ← readCapabilities (Json.field fields "capabilities") s!"{path}.capabilities"
    let allowedPaths ← readScopePaths (Json.field fields "allowedPaths") s!"{path}.allowedPaths"
    let forbiddenPaths ← readScopePaths (Json.field fields "forbiddenPaths")
      s!"{path}.forbiddenPaths"
    let mutates := StepCapability.mutateRepository ∈ capabilities
    issueIf (mutates ∧ allowedPaths = []) "missing_allowed_paths" s!"{path}.allowedPaths"
      s!"{path}.allowedPaths must name at least one path when mutate-repository is granted"
    issueIf (¬ mutates ∧ allowedPaths ≠ []) "unusable_allowed_paths" s!"{path}.allowedPaths"
      s!"{path}.allowedPaths requires the mutate-repository capability"
    checkEach (fun index allowed =>
      issueIf (pathIsAllowed allowed forbiddenPaths) "cancelled_path"
        s!"{path}.allowedPaths[{index}]"
        s!"{path}.allowedPaths[{index}] is entirely withheld by forbiddenPaths") 0 allowedPaths
    pure ⟨capabilities, allowedPaths, forbiddenPaths⟩
  match value with
  | none => read []
  | some (.obj fields) => read fields
  | some _ => do
    addIssue "mutation_object" path s!"{path} must be an object"
    pure ⟨[], [], []⟩

/-- One entry of `repositories`. -/
def readRepository (path : String) (source : EnvelopeSource) (index : Nat) (entry : Json) :
    Reading EnvelopeRepository :=
  let itemPath := s!"{path}[{index}]"
  match entry with
  | .obj fields => do
    rejectUnknownKeys fields ["root", "mutation"] itemPath
    let root ← readRepositoryRoot (Json.field fields "root") s!"{itemPath}.root" source
    let mutation ← readMutationScope (Json.field fields "mutation") s!"{itemPath}.mutation"
    pure ⟨root, mutation⟩
  | _ => do
    addIssue "repository_object" itemPath s!"{itemPath} must be an object"
    pure ⟨"", ⟨[], [], []⟩⟩

/-- `src/src/security/envelope.ts:350-411`. -/
def readRepositories (value : Option Json) (path : String) (source : EnvelopeSource) :
    Reading (List EnvelopeRepository) :=
  match value with
  | some (.arr (item :: rest)) => do
    let repositories ← readEach (readRepository path source) 0 (item :: rest)
    issueIf (¬ (repositories.map (·.root)).Nodup) "duplicate_repository" path
      s!"{path} must not name a repository twice"
    issueIf (1 < repositories.length) "unsupported_repository_count" path
      s!"{path} may name only one repository; adding another is an escalation this orchestrator cannot yet satisfy"
    pure repositories
  | _ => do
    addIssue "required_repositories" path s!"{path} must name at least one repository"
    pure []

/-- The worker isolation of a sandbox document. -/
def checkWorkerIsolation (value : Option Json) (path : String) : Reading Unit :=
  match value with
  | none => pure ()
  | some (.str "worktree-only") => pure ()
  | some _ => addIssue "worker_isolation" s!"{path}.workers" s!"{path}.workers must be worktree-only"

/-- `src/src/security/envelope.ts:413-443`. -/
def readSandbox (value : Option Json) (path : String) : Reading ValidationSandboxMode :=
  match value with
  | some (.obj fields) => do
    rejectUnknownKeys fields ["workers", "validation"] path
    checkWorkerIsolation (Json.field fields "workers") path
    match Json.field fields "validation" with
    | some (.str "none") => pure .none
    | some (.str "nono") => pure .nono
    | _ => do
      addIssue "validation_sandbox" s!"{path}.validation"
        s!"{path}.validation must be either none or nono"
      pure .none
  | _ => do
    addIssue "sandbox_object" path s!"{path} must be an object"
    pure .none

/-- One required command. -/
def readRequiredCommand (path : String) (index : Nat) (item : Json) : Reading ValidationCommand :=
  let itemPath := s!"{path}.required[{index}]"
  match item with
  | .obj fields => do
    rejectUnknownKeys fields ["command", "args"] itemPath
    readCommandObject (some item) itemPath
  | _ => readCommandObject (some item) itemPath

/-- The required commands of an expectation document. -/
def readRequiredCommands (value : Option Json) (path : String) :
    Reading (List ValidationCommand) :=
  match value with
  | none => pure []
  | some (.arr items) => readEach (readRequiredCommand path) 0 items
  | some _ => do
    addIssue "command_array" s!"{path}.required"
      s!"{path}.required must be an array of command objects"
    pure []

/-- The per-change flag; only an explicit `false` waives it. -/
def readPerChange (value : Option Json) (path : String) : Reading Bool :=
  match value with
  | none => pure true
  | some (.bool b) => pure b
  | some _ => do
    addIssue "per_change_flag" s!"{path}.perChange" s!"{path}.perChange must be a boolean"
    pure true

/-- `src/src/security/envelope.ts:445-486`. -/
def readValidationExpectations (value : Option Json) (path : String) :
    Reading EnvelopeValidationExpectations :=
  match value with
  | some (.obj fields) => do
    rejectUnknownKeys fields ["required", "perChange"] path
    let required ← readRequiredCommands (Json.field fields "required") path
    let perChange ← readPerChange (Json.field fields "perChange") path
    pure ⟨required, perChange⟩
  | _ => do
    addIssue "validation_object" path s!"{path} must be an object"
    pure ⟨[], true⟩

/-- Whether an entry of `conditions` is a given reserved condition. -/
def isCondition (condition : EscalationCondition) : Json → Bool
  | .str name => name = condition.name
  | _ => false

/-- The checks on a declared condition list. `src/src/security/envelope.ts:524-552`. -/
def checkEscalationConditions (value : Option Json) (path : String) : Reading Unit :=
  match value with
  | none => pure ()
  | some (.arr items) => do
    checkEach (fun index entry =>
      issueIf (¬ EscalationCondition.all.any fun condition => isCondition condition entry)
        "unknown_escalation" s!"{path}.conditions[{index}]"
        s!"{path}.conditions[{index}] must be one of {
          joinNames (EscalationCondition.all.map (·.name))}") 0 items
    let missing := EscalationCondition.all.filter fun condition =>
      ¬ items.any (isCondition condition)
    issueIf (missing ≠ []) "missing_escalation" s!"{path}.conditions"
      s!"{path}.conditions must reserve every condition, and omits {
        joinNames (missing.map (·.name))}"
  | some _ =>
    addIssue "escalation_array" s!"{path}.conditions" s!"{path}.conditions must be an array"

/-- `src/src/security/envelope.ts:488-554`. -/
def readEscalation (value : Option Json) (path : String) : Reading EnvelopeEscalationPolicy :=
  let read (fields : List (String × Json)) : Reading EnvelopeEscalationPolicy := do
    rejectUnknownKeys fields ["conditions", "reservedDecisions"] path
    let reservedDecisions ←
      (match Json.field fields "reservedDecisions" with
        | none => pure []
        | some v => readUniqueStrings (some v) s!"{path}.reservedDecisions")
    checkEscalationConditions (Json.field fields "conditions") path
    pure ⟨EscalationCondition.all, reservedDecisions⟩
  match value with
  | none => read []
  | some (.obj fields) => read fields
  | some _ => do
    addIssue "escalation_object" path s!"{path} must be an object"
    pure ⟨EscalationCondition.all, []⟩

/-- The recognised fields of an envelope document. -/
def envelopeKeys : List String :=
  ["version", "outcome", "acceptanceCriteria", "repositories", "forbiddenActions",
    "externalEffects", "sandbox", "validation", "escalation"]

/-- The schema version of an envelope document. -/
def checkEnvelopeVersion (value : Option Json) : Reading Unit :=
  match value with
  | some (.number 1) => pure ()
  | _ => addIssue "unsupported_envelope_version" "version" "version must be 1"

/-- The external effects of an envelope document. -/
def checkExternalEffects (value : Option Json) : Reading Unit :=
  match value with
  | none => pure ()
  | some (.str "forbidden") => pure ()
  | some _ => addIssue "external_effects" "externalEffects"
      s!"externalEffects must be forbidden. {externalEffectBoundary}"

/-- Everything `normalizeAuthorityEnvelope` records. `src/src/security/envelope.ts:556-640`. -/
def readAuthorityEnvelope (fields : List (String × Json)) (source : EnvelopeSource) :
    Reading AuthorityEnvelope := do
  rejectUnknownKeys fields envelopeKeys ""
  checkEnvelopeVersion (Json.field fields "version")
  let outcome ← readNonEmptyString (Json.field fields "outcome") "outcome"
  let acceptanceCriteria ← readUniqueStrings (Json.field fields "acceptanceCriteria")
    "acceptanceCriteria"
  let repositories ← readRepositories (Json.field fields "repositories") "repositories" source
  let forbiddenActions ←
    (match Json.field fields "forbiddenActions" with
      | none => pure []
      | some v => readUniqueStrings (some v) "forbiddenActions")
  checkExternalEffects (Json.field fields "externalEffects")
  let sandboxValidation ← readSandbox (Json.field fields "sandbox") "sandbox"
  let validation ← readValidationExpectations (Json.field fields "validation") "validation"
  let escalation ← readEscalation (Json.field fields "escalation") "escalation"
  let mutates := repositories.any fun repository =>
    StepCapability.mutateRepository ∈ repository.mutation.capabilities
  issueIf (source = .authored ∧ mutates ∧ validation.required = []) "required_commands"
    "validation.required"
    "validation.required must be a non-empty array of command objects when mutate-repository is granted"
  pure { outcome, acceptanceCriteria, repositories, forbiddenActions, sandboxValidation
         validation, escalation }

/-- `src/src/security/envelope.ts:556-655`. -/
def normalizeAuthorityEnvelope (value : Json) (source : EnvelopeSource) :
    Except String AuthorityEnvelope :=
  match value with
  | .obj fields =>
    let reading := readAuthorityEnvelope fields source
    if reading.issues = [] then .ok reading.value
    else .error ("Invalid authority envelope:\n- " ++
      String.intercalate "\n- " (reading.issues.map (·.message)))
  | _ => .error "Invalid authority envelope:\n- envelope must be an object"

/-! ## Documents and digests -/

/-- A mutation scope as a document. -/
def EnvelopeMutationScope.toJson (scope : EnvelopeMutationScope) : Json :=
  .obj [("capabilities", Json.strings (scope.capabilities.map (·.name))),
    ("allowedPaths", Json.strings scope.allowedPaths),
    ("forbiddenPaths", Json.strings scope.forbiddenPaths)]

/-- A repository as a document. -/
def EnvelopeRepository.toJson (repository : EnvelopeRepository) : Json :=
  .obj [("root", .str repository.root), ("mutation", repository.mutation.toJson)]

/-- The name of a sandbox mode. -/
def sandboxModeName : ValidationSandboxMode → String
  | .none => "none"
  | .nono => "nono"

/-- An envelope as a document. -/
def AuthorityEnvelope.toJson (envelope : AuthorityEnvelope) : Json :=
  .obj [("version", .number 1), ("outcome", .str envelope.outcome),
    ("acceptanceCriteria", Json.strings envelope.acceptanceCriteria),
    ("repositories", .arr (envelope.repositories.map EnvelopeRepository.toJson)),
    ("forbiddenActions", Json.strings envelope.forbiddenActions),
    ("externalEffects", .str "forbidden"),
    ("sandbox", .obj [("workers", .str "worktree-only"),
      ("validation", .str (sandboxModeName envelope.sandboxValidation))]),
    ("validation", .obj [("required", .arr (envelope.validation.required.map (·.toJson))),
      ("perChange", .bool envelope.validation.perChange)]),
    ("escalation", .obj [
      ("conditions", Json.strings (envelope.escalation.conditions.map (·.name))),
      ("reservedDecisions", Json.strings envelope.escalation.reservedDecisions)])]

mutual

/-- Sort the keys of every object. `src/src/security/envelope.ts:703-715`. -/
def canonicalize : Json → Json
  | .arr items => .arr (canonicalizeItems items)
  | .obj fields =>
    .obj ((canonicalizeFields fields).insertionSort fun left right => left.1 ≤ right.1)
  | .null => .null
  | .bool b => .bool b
  | .number n => .number n
  | .fraction literal => .fraction literal
  | .str s => .str s

/-- The elements of an array. -/
def canonicalizeItems : List Json → List Json
  | [] => []
  | item :: rest => canonicalize item :: canonicalizeItems rest

/-- The values of an object. -/
def canonicalizeFields : List (String × Json) → List (String × Json)
  | [] => []
  | (key, value) :: rest => (key, canonicalize value) :: canonicalizeFields rest

end

mutual

/-- `JSON.stringify`. -/
def stringify : Json → String
  | .null => "null"
  | .bool b => if b then "true" else "false"
  | .number n => toString n
  | .fraction literal => literal
  | .str s => quote s
  | .arr items => "[" ++ String.intercalate "," (stringifyItems items) ++ "]"
  | .obj fields => "\x7b" ++ String.intercalate "," (stringifyFields fields) ++ "\x7d"

/-- The elements of an array. -/
def stringifyItems : List Json → List String
  | [] => []
  | item :: rest => stringify item :: stringifyItems rest

/-- The properties of an object. -/
def stringifyFields : List (String × Json) → List String
  | [] => []
  | (key, value) :: rest => (quote key ++ ":" ++ stringify value) :: stringifyFields rest

end

/-- The identity of one approved envelope, under the hash of its canonical text.
`src/src/security/envelope.ts:722-726`. -/
def authorityEnvelopeDigest (sha256Hex : String → String) (envelope : AuthorityEnvelope) : String :=
  sha256Hex (stringify (canonicalize envelope.toJson))

/-- `src/src/security/envelope.ts:681-686`. -/
def envelopeRepository (envelope : AuthorityEnvelope) (root : String) :
    Option EnvelopeRepository :=
  envelope.repositories.find? fun entry => entry.root = root

/-- The capabilities the frozen profiles actually grant a step.
`src/src/security/envelope.ts:732-739`. -/
def effectiveStepCapabilities (step : StepDefinition) (profiles : Option RunCapabilityProfiles) :
    List StepCapability :=
  match profiles with
  | some profiles => (stepCapabilityProfile profiles step).capabilities
  | none => stepCapabilities step

end BuildConductor.Security
