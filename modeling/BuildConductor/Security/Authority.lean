import BuildConductor.Security.Envelope

/-!
# Frozen authority

The envelope a run is frozen under, the ways a plan can exceed it, and the checks a
stored authority passes. `src/src/security/authority.ts`.
-/

namespace BuildConductor.Security

open Base Domain

/-- `src/src/security/authority.ts:36-40`. -/
structure FrozenAuthority where
  source : EnvelopeSource
  digest : String
  envelope : AuthorityEnvelope
deriving DecidableEq, Repr

/-- `src/src/security/authority.ts:43-49`. -/
structure AuthorityIssue where
  code : String
  path : String
  message : String
  condition : Option EscalationCondition
deriving DecidableEq, Repr

/-- Text made of one character set needs no quotes. -/
def isPlainArgument (value : String) : Bool :=
  value ≠ "" && value.toList.all fun c =>
    c.isAlphanum || c ∈ "_./:@%+=,-".toList

/-- `src/src/domain/command-format.ts`. -/
def quoteArgument (value : String) : String := if isPlainArgument value then value else quote value

/-- `src/src/domain/command-format.ts`. -/
def formatCommand (command : ValidationCommand) : String :=
  String.intercalate " " ((command.command :: command.args).map quoteArgument)

/-- The issue of a run in a repository the envelope does not name. -/
def repositoryNotApproved (repositoryRoot : String) : AuthorityIssue :=
  ⟨"repository_not_approved", "repositoryRoot",
    s!"The approved envelope does not name repository {repositoryRoot}", some .addRepository⟩

/-- The message of an `AuthorityViolationError`. `src/src/security/authority.ts:51-66`. -/
def authorityViolationMessage (issues : List AuthorityIssue) : String :=
  "Plan exceeds the approved authority envelope:\n- " ++
    String.intercalate "\n- " (issues.map (·.message))

/-- The profiles an envelope approves. `src/src/security/authority.ts:78-93`. -/
def capabilityProfilesFromEnvelope (envelope : AuthorityEnvelope) (repositoryRoot : String) :
    Except String RunCapabilityProfiles := do
  let repository ← require (envelopeRepository envelope repositoryRoot)
    (authorityViolationMessage [repositoryNotApproved repositoryRoot])
  pure (.ofFun fun name => capabilityProfileFor
    ((capabilityProfileMaxima name).filter (· ∈ repository.mutation.capabilities)))

/-- `src/src/security/authority.ts:124-145`. -/
def capabilityIssues (step : StepDefinition) (index : Nat) (granted : List StepCapability) :
    List AuthorityIssue :=
  ((step.capabilities.getD []).filter (· ∉ granted)).map fun capability =>
    ⟨"capability_not_approved", s!"steps[{index}].capabilities",
      s!"Step {step.id} declares {capability.name}, which the approved envelope does not grant",
      some .widenMutationAuthority⟩

/-- The issue of one allowed path, if any. -/
def pathIssue (step : StepDefinition) (index : Nat) (scope : EnvelopeMutationScope)
    (entry : String × Nat) : List AuthorityIssue :=
  let issuePath := s!"steps[{index}].allowedPaths[{entry.2}]"
  if ¬ pathIsAllowed entry.1 scope.allowedPaths then
    [⟨"path_not_approved", issuePath,
      s!"Step {step.id} would mutate {entry.1}, which the approved envelope does not allow",
      some .widenMutationAuthority⟩]
  else if pathIsAllowed entry.1 scope.forbiddenPaths then
    [⟨"path_withheld", issuePath,
      s!"Step {step.id} would mutate {entry.1}, which the approved envelope withholds",
      some .widenMutationAuthority⟩]
  else []

/-- `src/src/security/authority.ts:147-188`. -/
def pathIssues (step : StepDefinition) (index : Nat) (scope : EnvelopeMutationScope)
    (profiles : Option RunCapabilityProfiles) : List AuthorityIssue :=
  match step.body with
  | .change _ allowedPaths _ =>
    if StepCapability.mutateRepository ∈ effectiveStepCapabilities step profiles then
      allowedPaths.zipIdx.flatMap (pathIssue step index scope)
    else []
  | _ => []

/-- The per-change issue of one step, if any. -/
def perChangeIssue (entry : StepDefinition × Nat) : List AuthorityIssue :=
  match entry.1.body with
  | .change _ _ [] =>
    [⟨"per_change_validation_missing", s!"steps[{entry.2}].validationCommands",
      s!"Step {entry.1.id} would integrate without the per-change validation the approved envelope requires",
      some .skipRequiredValidation⟩]
  | _ => []

/-- `src/src/security/authority.ts:190-223`. -/
def validationIssues (plan : WorkflowPlan) (envelope : AuthorityEnvelope) : List AuthorityIssue :=
  (envelope.validation.required.zipIdx.filter fun entry =>
    entry.1 ∉ plan.finalValidationCommands).map (fun entry =>
      ⟨"required_validation_missing", s!"validation.required[{entry.2}]",
        s!"The plan never runs the required validation command {formatCommand entry.1}",
        some .skipRequiredValidation⟩) ++
  (if envelope.validation.perChange then plan.steps.zipIdx.flatMap perChangeIssue else [])

/-- Every way a plan exceeds the envelope of its run. `src/src/security/authority.ts:230-258`. -/
def planAuthorityIssues (plan : WorkflowPlan) (envelope : AuthorityEnvelope)
    (repositoryRoot : String) (profiles : Option RunCapabilityProfiles) : List AuthorityIssue :=
  match envelopeRepository envelope repositoryRoot with
  | none => [repositoryNotApproved repositoryRoot]
  | some repository =>
    plan.steps.zipIdx.flatMap (fun entry =>
      capabilityIssues entry.1 entry.2 repository.mutation.capabilities ++
        pathIssues entry.1 entry.2 repository.mutation profiles) ++
      validationIssues plan envelope

variable (sha256Hex : String → String)

/-- The stored authority, normalised, with its digest recomputed.
`src/src/security/authority.ts:400-431`. -/
def validateStoredAuthority (stored : FrozenAuthority) (path : String) :
    Except String FrozenAuthority := do
  let envelope ← normalizeAuthorityEnvelope stored.envelope.toJson stored.source
  let digest := authorityEnvelopeDigest sha256Hex envelope
  ensure (stored.digest = digest)
    s!"{path}.digest does not identify the stored envelope, so the approved authority cannot be proven"
  pure ⟨stored.source, digest, envelope⟩

/-- The profiles are the approved ones and the plan fits the envelope. An engine run carries no
security policy, so the sandbox and derivation checks of the source do not apply to it.
`src/src/security/authority.ts:438-496`. -/
def assertStoredAuthorityConsistency (authority : FrozenAuthority) (repositoryRoot : String)
    (plan : WorkflowPlan) (capabilityProfiles : RunCapabilityProfiles) (path : String) :
    Except String Unit := do
  let expected ← capabilityProfilesFromEnvelope authority.envelope repositoryRoot
  ensure (expected = capabilityProfiles)
    s!"{path} capability profiles must be the ones the approved envelope grants"
  let issues := planAuthorityIssues plan authority.envelope repositoryRoot (some capabilityProfiles)
  ensure (issues = [])
    (s!"{path} plan exceeds the approved authority envelope: " ++
      String.intercalate "; " (issues.map (·.message)))

/-- The authority identity a run may carry across a write that keeps its plan revision.
`src/src/security/authority.ts:499-530`. -/
def assertAuthorityTransition (current proposed : Option FrozenAuthority) : Except String Unit :=
  match current, proposed with
  | none, none => pure ()
  | none, some _ => .error "A run cannot gain a frozen authority envelope after creation"
  | some _, none => .error "A run's frozen authority envelope cannot be dropped"
  | some current, some proposed => do
    ensure (proposed.source = current.source) "A run's authority source is immutable"
    if proposed.digest = current.digest then pure ()
    else if current.source = .authored then
      .error "An approved authority envelope is immutable"
    else .error "A derived authority envelope can only change with its plan revision"

/-- An authority may always be carried over unchanged. -/
theorem assertAuthorityTransition_self (authority : Option FrozenAuthority) :
    assertAuthorityTransition authority authority = .ok () := by
  cases authority with
  | none => rfl
  | some authority => simp [assertAuthorityTransition, ensure, bind, Except.bind, pure, Except.pure]

end BuildConductor.Security
