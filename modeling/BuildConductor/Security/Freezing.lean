import BuildConductor.Domain.PlanDocuments
import BuildConductor.Security.Authority
import BuildConductor.Security.EnvelopeNormal
import BuildConductor.Security.Policy

/-!
# Freezing an authority

The envelope a plan implies, the authority a new run freezes, and the checks a frozen authority
passes under its security policy. `src/src/security/envelope.ts:741-815`,
`src/src/security/authority.ts:262-497`.
-/

namespace BuildConductor.Security

open Base Domain

/-! ## Derived envelopes -/

/-- The worker isolation of a sandbox policy admits one value. `src/src/security/envelope.ts:745-751`. -/
structure DerivableRun where
  repositoryRoot : String
  plan : Json
  capabilityProfiles : Option RunCapabilityProfiles
  sandboxValidation : ValidationSandboxMode

/-- The step mutates the repository under its effective capabilities. -/
def mutatesUnder (profiles : Option RunCapabilityProfiles) (step : StepDefinition) : Bool :=
  step.kind = .change && .mutateRepository ∈ effectiveStepCapabilities step profiles

/-- The criteria of a change step. -/
def criteriaOf (step : StepDefinition) : List String :=
  match step.body with
  | .change acceptanceCriteria _ _ => acceptanceCriteria
  | _ => []

/-- What the steps of a plan hold together. `src/src/security/envelope.ts:767-793`. -/
def impliedScope (plan : WorkflowPlan) (profiles : Option RunCapabilityProfiles) :
    EnvelopeMutationScope :=
  let capabilities := envelopeOrderedCapabilities
    (plan.steps.flatMap fun step => effectiveStepCapabilities step profiles)
  let allowedPaths := (plan.steps.flatMap fun step =>
    if mutatesUnder profiles step then step.allowedPaths else []).eraseDups
  ⟨capabilities, if .mutateRepository ∈ capabilities then allowedPaths else [], []⟩

/-- The envelope the document of a derivation states. `src/src/security/envelope.ts:763-812`. -/
def impliedEnvelope (repositoryRoot : String) (plan : WorkflowPlan)
    (profiles : Option RunCapabilityProfiles) (sandboxValidation : ValidationSandboxMode) :
    AuthorityEnvelope where
  outcome := plan.title
  acceptanceCriteria := (plan.steps.flatMap criteriaOf).eraseDups
  repositories := [⟨repositoryRoot, impliedScope plan profiles⟩]
  forbiddenActions := []
  sandboxValidation
  validation := ⟨plan.finalValidationCommands, true⟩
  escalation := ⟨EscalationCondition.all, []⟩

/-- The envelope a plan implies. `src/src/security/envelope.ts:754-815`. -/
def deriveAuthorityEnvelope (run : DerivableRun) : Except String AuthorityEnvelope := do
  let plan ← readWorkflowPlanDocument run.plan
  normalizeAuthorityEnvelope (.obj (impliedEnvelope run.repositoryRoot plan run.capabilityProfiles
    run.sandboxValidation).derivedFields) .derived

/-! ## Freezing -/

/-- `src/src/security/authority.ts:262-268`. -/
structure FreezeAuthorityInput where
  repositoryRoot : String
  plan : Json
  securityPolicy : RunSecurityPolicy
  envelope : Option AuthorityEnvelope

/-- `src/src/security/authority.ts:270-274`. -/
structure FrozenRunAuthority where
  authority : FrozenAuthority
  securityPolicy : RunSecurityPolicy
deriving DecidableEq

/-- The worker isolation of both sides is the one value it has.
`src/src/security/authority.ts:276-297`. -/
def sandboxAuthorityIssues (envelope : AuthorityEnvelope) (securityPolicy : RunSecurityPolicy) :
    List AuthorityIssue :=
  let required := sandboxModeName envelope.sandboxValidation
  if envelope.sandboxValidation ≠ securityPolicy.validation.sandbox then
    [⟨"validation_sandbox_mismatch", "sandbox.validation",
      s!"The approved envelope requires validation sandbox {required}, but the run security policy uses {sandboxModeName securityPolicy.validation.sandbox}; set PI_ORCHESTRATOR_VALIDATION_SANDBOX={required} before creating the run",
      none⟩]
  else []

/-- Refuse with the issues, if any. -/
def throwIssues (issues : List AuthorityIssue) : Except String Unit :=
  ensure (issues = []) (authorityViolationMessage issues)

/-- The sandbox fits exactly when both sides require the same mode. -/
theorem throwIssues_sandbox_iff {envelope : AuthorityEnvelope} {securityPolicy : RunSecurityPolicy} :
    throwIssues (sandboxAuthorityIssues envelope securityPolicy) = .ok () ↔
      envelope.sandboxValidation = securityPolicy.validation.sandbox := by
  unfold throwIssues sandboxAuthorityIssues
  rw [ensure_ok_iff]
  dsimp only
  split
  · next hne => simp [hne]
  · next heq => simpa using heq

/-- The policy of a run whose workers launch with some profiles. -/
def RunSecurityPolicy.withProfiles (policy : RunSecurityPolicy) (profiles : RunCapabilityProfiles) :
    RunSecurityPolicy :=
  { policy with workers := { policy.workers with capabilityProfiles := some profiles } }

section

variable (sha256Hex : String → String)

/-- `src/src/security/authority.ts:309-365`. -/
def freezeRunAuthority (input : FreezeAuthorityInput) : Except String FrozenRunAuthority := do
  let plan ← readWorkflowPlanDocument input.plan
  ensure (input.securityPolicy.version = .v2) (authorityViolationMessage
    [⟨"policy_cannot_enforce_envelope", "securityPolicy.version",
      "An approved authority envelope requires security policy version 2, which freezes capability profiles",
      none⟩])
  let envelope ←
    match input.envelope with
    | some envelope => pure envelope
    | none => deriveAuthorityEnvelope ⟨input.repositoryRoot, plan.toJson,
        input.securityPolicy.workers.capabilityProfiles, input.securityPolicy.validation.sandbox⟩
  throwIssues (sandboxAuthorityIssues envelope input.securityPolicy)
  let capabilityProfiles ← capabilityProfilesFromEnvelope envelope input.repositoryRoot
  throwIssues (planAuthorityIssues plan envelope input.repositoryRoot (some capabilityProfiles))
  pure ⟨⟨if input.envelope.isSome then .authored else .derived,
    authorityEnvelopeDigest sha256Hex envelope, envelope⟩,
    input.securityPolicy.withProfiles capabilityProfiles⟩

/-- What freezing an authority means. -/
theorem freezeRunAuthority_ok_iff {input : FreezeAuthorityInput} {frozen : FrozenRunAuthority} :
    freezeRunAuthority sha256Hex input = .ok frozen ↔
      ∃ plan envelope profiles,
        readWorkflowPlanDocument input.plan = .ok plan ∧
        input.securityPolicy.version = .v2 ∧
        (input.envelope = some envelope ∨ input.envelope = none ∧
          deriveAuthorityEnvelope ⟨input.repositoryRoot, plan.toJson,
            input.securityPolicy.workers.capabilityProfiles,
            input.securityPolicy.validation.sandbox⟩ = .ok envelope) ∧
        throwIssues (sandboxAuthorityIssues envelope input.securityPolicy) = .ok () ∧
        capabilityProfilesFromEnvelope envelope input.repositoryRoot = .ok profiles ∧
        planAuthorityIssues plan envelope input.repositoryRoot (some profiles) = [] ∧
        frozen = ⟨⟨if input.envelope.isSome then .authored else .derived,
          authorityEnvelopeDigest sha256Hex envelope, envelope⟩,
          input.securityPolicy.withProfiles profiles⟩ := by
  obtain ⟨repositoryRoot, document, policy, authored⟩ := input
  unfold freezeRunAuthority
  rw [bind_ok_iff]
  refine exists_congr fun plan => ?_
  rw [seq_ok_iff, ensure_ok_iff]
  cases authored with
  | none =>
    simp only [bind_ok_iff, throwIssues, ensure_ok_iff, pure, Except.pure, Except.ok.injEq,
      reduceCtorEq, false_or, true_and, exists_and_left, exists_const, @eq_comm _ frozen]
  | some envelope =>
    simp only [bind_ok_iff, throwIssues, ensure_ok_iff, pure, Except.pure, Except.ok.injEq,
      Option.some.injEq, reduceCtorEq, false_and, or_false, exists_and_left, exists_const,
      @eq_comm _ frozen, exists_eq_left']

/-- `src/src/security/authority.ts:367-383`. -/
def reviseRunAuthority (authority : FrozenAuthority) (input : FreezeAuthorityInput) :
    Except String FrozenRunAuthority :=
  match authority.source with
  | .derived => freezeRunAuthority sha256Hex input
  | .authored => freezeRunAuthority sha256Hex { input with envelope := some authority.envelope }

/-! ## Stored authorities -/

/-- The name of an envelope source. -/
def EnvelopeSource.name : EnvelopeSource → String
  | .authored => "authored"
  | .derived => "derived"

/-- A frozen authority as a document. -/
def FrozenAuthority.toJson (authority : FrozenAuthority) : Json :=
  .obj [("source", .str authority.source.name), ("digest", .str authority.digest),
    ("envelope", authority.envelope.toJson)]

/-- The source a stored authority names. -/
def envelopeSource? (value : Option Json) : Option EnvelopeSource :=
  match value with
  | some (.str "authored") => some .authored
  | some (.str "derived") => some .derived
  | _ => none

/-- The value is a given text. -/
def hasText (value : Option Json) (s : String) : Bool :=
  match value with
  | some (.str t) => t = s
  | _ => false

/-- The reader of a stored authority document. An absent envelope is no object.
`src/src/security/authority.ts:400-431`. -/
def readStoredAuthority (value : Json) (path : String) : Except String FrozenAuthority :=
  match value with
  | .obj fields => do
    let unknownKeys := (fields.map Prod.fst).filter (· ∉ ["source", "digest", "envelope"])
    ensure (unknownKeys = [])
      (s!"{path} contains unrecognized fields: " ++ String.intercalate ", " unknownKeys)
    let source ← require (envelopeSource? (Json.field fields "source"))
      s!"{path}.source must be either authored or derived"
    let envelope ← normalizeAuthorityEnvelope ((Json.field fields "envelope").getD .null) source
    let digest := authorityEnvelopeDigest sha256Hex envelope
    ensure (hasText (Json.field fields "digest") digest)
      s!"{path}.digest does not identify the stored envelope, so the approved authority cannot be proven"
    pure ⟨source, digest, envelope⟩
  | _ => .error s!"{path} must be an object"

/-- What a stored authority must satisfy, with the security policy of its run when it has one.
`src/src/security/authority.ts:438-497`. -/
def assertAuthorityConsistencyUnder (securityPolicy : Option RunSecurityPolicy)
    (authority : FrozenAuthority) (repositoryRoot : String) (plan : WorkflowPlan)
    (capabilityProfiles : RunCapabilityProfiles) (path : String) : Except String Unit := do
  match securityPolicy with
  | none => pure ()
  | some policy =>
    let issues := sandboxAuthorityIssues authority.envelope policy
    ensure (issues = []) (s!"{path} sandbox must match the run security policy: " ++
      String.intercalate "; " (issues.map (·.message)))
  let expected ← capabilityProfilesFromEnvelope authority.envelope repositoryRoot
  ensure (expected = capabilityProfiles)
    s!"{path} capability profiles must be the ones the approved envelope grants"
  match authority.source, securityPolicy with
  | .derived, some policy => do
    let derived ← deriveAuthorityEnvelope
      ⟨repositoryRoot, plan.toJson, some capabilityProfiles, policy.validation.sandbox⟩
    ensure (authorityEnvelopeDigest sha256Hex derived = authority.digest)
      s!"{path} derived envelope must match the plan it was derived from"
  | _, _ => pure ()
  let issues := planAuthorityIssues plan authority.envelope repositoryRoot (some capabilityProfiles)
  ensure (issues = [])
    (s!"{path} plan exceeds the approved authority envelope: " ++
      String.intercalate "; " (issues.map (·.message)))

/-- A run without a security policy passes the checks of an engine run. -/
theorem assertAuthorityConsistencyUnder_none (authority : FrozenAuthority) (repositoryRoot : String)
    (plan : WorkflowPlan) (profiles : RunCapabilityProfiles) (path : String) :
    assertAuthorityConsistencyUnder sha256Hex none authority repositoryRoot plan profiles path =
      assertStoredAuthorityConsistency authority repositoryRoot plan profiles path := by
  unfold assertAuthorityConsistencyUnder assertStoredAuthorityConsistency
  cases authority.source <;> rfl

/-- What the checks of a run with a security policy mean. -/
theorem assertAuthorityConsistencyUnder_ok_iff {policy : RunSecurityPolicy}
    {authority : FrozenAuthority} {repositoryRoot : String} {plan : WorkflowPlan}
    {profiles : RunCapabilityProfiles} {path : String} :
    assertAuthorityConsistencyUnder sha256Hex (some policy) authority repositoryRoot plan profiles
        path = .ok () ↔
      authority.envelope.sandboxValidation = policy.validation.sandbox ∧
      capabilityProfilesFromEnvelope authority.envelope repositoryRoot = .ok profiles ∧
      (authority.source = .derived → ∃ derived,
        deriveAuthorityEnvelope ⟨repositoryRoot, plan.toJson, some profiles,
          policy.validation.sandbox⟩ = .ok derived ∧
        authorityEnvelopeDigest sha256Hex derived = authority.digest) ∧
      planAuthorityIssues plan authority.envelope repositoryRoot (some profiles) = [] := by
  rw [← throwIssues_sandbox_iff]
  unfold assertAuthorityConsistencyUnder throwIssues
  dsimp only
  rw [seq_ok_iff, bind_ok_iff]
  simp only [ensure_ok_iff]
  refine and_congr_right fun _ => ?_
  cases authority.source with
  | authored =>
    simp only [seq_ok_iff, ensure_ok_iff, reduceCtorEq, false_implies, true_and]
    constructor
    · rintro ⟨_, hexpected, rfl, hissues⟩
      exact ⟨hexpected, hissues⟩
    · rintro ⟨hexpected, hissues⟩
      exact ⟨profiles, hexpected, rfl, hissues⟩
  | derived =>
    simp only [bind_ok_iff, ensure_ok_iff, forall_const, exists_const]
    constructor
    · rintro ⟨_, hexpected, rfl, derived, hderive, hdigest, hissues⟩
      exact ⟨hexpected, ⟨derived, hderive, hdigest⟩, hissues⟩
    · rintro ⟨hexpected, ⟨derived, hderive, hdigest⟩, hissues⟩
      exact ⟨profiles, hexpected, rfl, derived, hderive, hdigest, hissues⟩

end

end BuildConductor.Security
