import BuildConductor.Security.Freezing

/-!
# Derived authorities

When the envelope a plan implies is accepted, what it grants, and that freezing it succeeds.
`src/src/security/envelope.ts:754-815`, `src/src/security/authority.ts:309-365`.
-/

namespace BuildConductor.Security

open Base Domain

/-! ## Effective capabilities -/

@[simp] theorem mem_orderedCapabilities {capabilities : List StepCapability}
    {capability : StepCapability} :
    capability ∈ orderedCapabilities capabilities ↔ capability ∈ capabilities := by
  unfold orderedCapabilities
  cases capability <;> simp [capabilityOrder]

/-- The order depends on the members only. -/
theorem orderedCapabilities_congr {capabilities others : List StepCapability}
    (h : ∀ capability, capability ∈ capabilities ↔ capability ∈ others) :
    orderedCapabilities capabilities = orderedCapabilities others := by
  unfold orderedCapabilities
  simp only [h]

/-- A step holds what its profile grants of what it declared. -/
theorem mem_effectiveStepCapabilities {step : StepDefinition} {profiles : RunCapabilityProfiles}
    {capability : StepCapability} :
    capability ∈ effectiveStepCapabilities step (some profiles) ↔
      capability ∈ (profiles.get (stepProfileName step)).capabilities ∧
      capability ∈ step.capabilities.getD (capabilityProfileMaxima (stepProfileName step)) := by
  simp [effectiveStepCapabilities, stepCapabilityProfile, narrowCapabilityProfile]

/-- The members of what a step holds under two profiles determine its list. -/
theorem effectiveStepCapabilities_congr {step : StepDefinition}
    {profiles others : RunCapabilityProfiles}
    (h : ∀ capability, capability ∈ effectiveStepCapabilities step (some profiles) ↔
      capability ∈ effectiveStepCapabilities step (some others)) :
    effectiveStepCapabilities step (some profiles) = effectiveStepCapabilities step (some others) := by
  apply orderedCapabilities_congr
  intro capability
  have hmem := h capability
  unfold effectiveStepCapabilities stepCapabilityProfile narrowCapabilityProfile at hmem
  rwa [mem_orderedCapabilities, mem_orderedCapabilities] at hmem

/-- The profiles a kind may declare hold what the kind may hold. -/
private theorem profileMaxima_of_kind {kind : StepKind} {name : CapabilityProfileName}
    (h : name ∈ kind.profiles) : capabilityProfileMaxima name = kind.capabilityMaxima := by
  cases kind <;> cases name <;> first | rfl | simp [StepKind.profiles] at h

/-- Under the default profiles a step holds exactly what it declared, or all its kind may hold. -/
theorem mem_effective_default {step : StepDefinition} (h : StepRead step)
    {capability : StepCapability} :
    capability ∈ effectiveStepCapabilities step (some defaultCapabilityProfiles) ↔
      capability ∈ stepCapabilities step := by
  rw [mem_effectiveStepCapabilities, defaultCapabilityProfiles, RunCapabilityProfiles.get_ofFun,
    capabilityProfileFor, mem_orderedCapabilities, profileMaxima_of_kind h.profile]
  exact ⟨fun hmem => hmem.2, fun hmem => ⟨h.capabilities capability hmem, hmem⟩⟩

/-- Only a change step can hold the capability to mutate. -/
private theorem change_of_mutates {step : StepDefinition} (h : StepRead step)
    {profiles : RunCapabilityProfiles}
    (hmutates : .mutateRepository ∈ effectiveStepCapabilities step (some profiles)) :
    step.kind = .change := by
  rw [mem_effectiveStepCapabilities, profileMaxima_of_kind h.profile] at hmutates
  have hkind := h.capabilities _ hmutates.2
  cases hk : step.kind with
  | change => rfl
  | investigation | command | approval =>
    rw [hk] at hkind
    exact absurd hkind (by decide)

/-! ## The envelope a plan implies -/

variable {plan : WorkflowPlan} {profiles : RunCapabilityProfiles}

/-- A plan grants exactly the capabilities its steps effectively hold. -/
theorem mem_impliedScope_capabilities {capability : StepCapability} :
    capability ∈ (impliedScope plan (some profiles)).capabilities ↔
      ∃ step ∈ plan.steps, capability ∈ effectiveStepCapabilities step (some profiles) := by
  unfold impliedScope
  rw [mem_envelopeOrderedCapabilities, List.mem_flatMap]

/-- A plan grants exactly the paths of the steps that mutate. -/
theorem mem_impliedScope_allowedPaths (h : ReadPlan plan) {path : String} :
    path ∈ (impliedScope plan (some profiles)).allowedPaths ↔
      ∃ step ∈ plan.steps, .mutateRepository ∈ effectiveStepCapabilities step (some profiles) ∧
        path ∈ step.allowedPaths := by
  have hmutates : ∀ step ∈ plan.steps, mutatesUnder (some profiles) step = true ↔
      .mutateRepository ∈ effectiveStepCapabilities step (some profiles) := by
    intro step hstep
    unfold mutatesUnder
    rw [Bool.and_eq_true, decide_eq_true_eq, decide_eq_true_eq]
    exact and_iff_right_of_imp (change_of_mutates (h.steps step hstep))
  have hpaths : path ∈ (plan.steps.flatMap fun step =>
      if mutatesUnder (some profiles) step then step.allowedPaths else []).eraseDups ↔
        ∃ step ∈ plan.steps, .mutateRepository ∈ effectiveStepCapabilities step (some profiles) ∧
          path ∈ step.allowedPaths := by
    rw [List.mem_eraseDups, List.mem_flatMap]
    refine exists_congr fun step => and_congr_right fun hstep => ?_
    rw [← hmutates step hstep]
    split
    · next hyes => simp [hyes]
    · next hno => simp [hno]
  show path ∈ (if .mutateRepository ∈ (impliedScope plan (some profiles)).capabilities then _ else _) ↔ _
  split
  · exact hpaths
  · next hnone =>
    rw [mem_impliedScope_capabilities] at hnone
    constructor
    · exact fun hmem => by cases hmem
    · rintro ⟨step, hstep, hholds, -⟩
      exact absurd ⟨step, hstep, hholds⟩ hnone

private theorem normalPaths_of_mutates (h : ReadPlan plan) {step : StepDefinition}
    (hstep : step ∈ plan.steps)
    (hmutates : .mutateRepository ∈ effectiveStepCapabilities step (some profiles)) :
    NormalPaths step.allowedPaths := by
  have hkind := change_of_mutates (h.steps step hstep) hmutates
  have hbody := h.changes step hstep hkind
  unfold StepDefinition.allowedPaths
  cases hb : step.body with
  | change criteria paths commands =>
    rw [hb] at hbody
    exact hbody.2.1
  | _ => simp [StepDefinition.kind, hb, StepBody.kind] at hkind

/-- The scope is accepted exactly when its capabilities include reading, or there are none. -/
theorem normalScope_impliedScope_iff (h : ReadPlan plan) :
    NormalScope (impliedScope plan (some profiles)) ↔
      ((impliedScope plan (some profiles)).capabilities = [] ∨
        .readRepository ∈ (impliedScope plan (some profiles)).capabilities) := by
  constructor
  · exact fun hscope => hscope.reads
  · intro hreads
    refine ⟨envelopeOrderedCapabilities_twice _, hreads, ⟨?_, ?_⟩, ⟨nofun, List.nodup_nil⟩, ?_, ?_⟩
    · intro path hpath
      obtain ⟨step, hstep, hmutates, hmem⟩ := (mem_impliedScope_allowedPaths h).mp hpath
      exact (normalPaths_of_mutates h hstep hmutates).normal path hmem
    · show (if _ then _ else _ : List String).Nodup
      split
      · exact nodup_eraseDups _
      · exact List.nodup_nil
    · rw [mem_impliedScope_capabilities]
      constructor
      · rintro ⟨step, hstep, hmutates⟩ hnone
        obtain ⟨path, hpath⟩ := List.exists_mem_of_ne_nil _
          (normalPaths_of_mutates h hstep hmutates).nonempty
        have hmem := (mem_impliedScope_allowedPaths h).mpr ⟨step, hstep, hmutates, hpath⟩
        rw [hnone] at hmem
        cases hmem
      · intro hpaths
        obtain ⟨path, hpath⟩ := List.exists_mem_of_ne_nil _ hpaths
        obtain ⟨step, hstep, hmutates, -⟩ := (mem_impliedScope_allowedPaths h).mp hpath
        exact ⟨step, hstep, hmutates⟩
    · exact fun path _ => rfl

private theorem normalEntries_criteria (h : ReadPlan plan) :
    NormalEntries (plan.steps.flatMap criteriaOf).eraseDups where
  text := by
    intro criterion hmem
    rw [List.mem_eraseDups, List.mem_flatMap] at hmem
    obtain ⟨step, hstep, hcriterion⟩ := hmem
    unfold criteriaOf at hcriterion
    split at hcriterion
    · next criteria paths commands hbody =>
      have hnormal := h.changes step hstep (by simp [StepDefinition.kind, hbody, StepBody.kind])
      rw [hbody] at hnormal
      exact hnormal.1 criterion hcriterion
    · cases hcriterion
  nodup := nodup_eraseDups _

variable {root : String} {sandbox : ValidationSandboxMode}

/-- The envelope a plan implies is in normal form exactly when its scope is. -/
theorem normalEnvelope_implied_iff (h : ReadPlan plan) (hroot : root ≠ "") :
    NormalEnvelope .derived (impliedEnvelope root plan (some profiles) sandbox) ↔
      NormalScope (impliedScope plan (some profiles)) := by
  constructor
  · intro henvelope
    obtain ⟨repository, hrepository, -, hscope⟩ := henvelope.repositories
    cases hrepository
    exact hscope
  · intro hscope
    exact ⟨h.title, normalEntries_criteria h, ⟨_, rfl, hroot, hscope⟩, ⟨nofun, List.nodup_nil⟩,
      h.finalValidationCommands, rfl, ⟨nofun, List.nodup_nil⟩, nofun⟩

/-- A plan derives the envelope it implies, exactly when the repository is named and the scope of
it is accepted. -/
theorem deriveAuthorityEnvelope_ok_iff {value : Json}
    (hplan : readWorkflowPlanDocument value = .ok plan) {envelope : AuthorityEnvelope} :
    deriveAuthorityEnvelope ⟨root, value, some profiles, sandbox⟩ = .ok envelope ↔
      root ≠ "" ∧ NormalScope (impliedScope plan (some profiles)) ∧
      envelope = impliedEnvelope root plan (some profiles) sandbox := by
  have hread := readPlan_of_read hplan
  unfold deriveAuthorityEnvelope
  rw [hplan]
  show normalizeAuthorityEnvelope (.obj _) .derived = _ ↔ _
  rw [normalizeAuthorityEnvelope_derivedFields rfl rfl]
  constructor
  · intro hnormalize
    have hreads := reads_of_normalize hnormalize _ (List.mem_singleton_self _)
    have hroot : root ≠ "" := hreads.1 rfl
    have hscope := (normalScope_impliedScope_iff hread).mpr hreads.2
    rw [normalizeAuthorityEnvelope_toJson ((normalEnvelope_implied_iff hread hroot).mpr hscope)]
      at hnormalize
    exact ⟨hroot, hscope, (Except.ok.inj hnormalize).symm⟩
  · rintro ⟨hroot, hscope, rfl⟩
    exact normalizeAuthorityEnvelope_toJson ((normalEnvelope_implied_iff hread hroot).mpr hscope)

/-! ## The plan fits its envelope -/

private theorem pathIsAllowed_of_mem {path : String} {paths : List String} (h : path ∈ paths) :
    pathIsAllowed path paths = true := by
  unfold pathIsAllowed
  rw [List.any_eq_true]
  refine ⟨path, h, ?_⟩
  split
  · exact List.isPrefixOf_iff_prefix.mpr List.prefix_rfl
  · exact decide_eq_true rfl

/-- Approved profiles grant a step no more than the envelope approves. -/
theorem approved_of_effective {envelope : AuthorityEnvelope} {repository : EnvelopeRepository}
    (hrepository : envelopeRepository envelope root = some repository)
    (hprofiles : capabilityProfilesFromEnvelope envelope root = .ok profiles)
    {step : StepDefinition} {capability : StepCapability} :
    capability ∈ effectiveStepCapabilities step (some profiles) ↔
      capability ∈ effectiveStepCapabilities step (some defaultCapabilityProfiles) ∧
      capability ∈ repository.mutation.capabilities := by
  unfold capabilityProfilesFromEnvelope at hprofiles
  rw [hrepository] at hprofiles
  cases hprofiles
  rw [mem_effectiveStepCapabilities, mem_effectiveStepCapabilities, defaultCapabilityProfiles,
    RunCapabilityProfiles.get_ofFun, RunCapabilityProfiles.get_ofFun, capabilityProfileFor,
    capabilityProfileFor, mem_orderedCapabilities, mem_orderedCapabilities, List.mem_filter,
    decide_eq_true_eq]
  tauto

/-- A step exceeds neither the capabilities nor the paths its plan implies. -/
private theorem stepIssues_nil (h : ReadPlan plan) {approved : RunCapabilityProfiles}
    (happroved : ∀ step capability, capability ∈ effectiveStepCapabilities step (some approved) →
      capability ∈ effectiveStepCapabilities step (some defaultCapabilityProfiles))
    {entry : StepDefinition × Nat} (hentry : entry ∈ plan.steps.zipIdx) :
    let scope := impliedScope plan (some defaultCapabilityProfiles)
    capabilityIssues entry.1 entry.2 scope.capabilities ++
      pathIssues entry.1 entry.2 scope (some approved) = [] := by
  intro scope
  have hstep : entry.1 ∈ plan.steps := List.fst_mem_of_mem_zipIdx hentry
  have hread := h.steps entry.1 hstep
  rw [List.append_eq_nil_iff]
  constructor
  · unfold capabilityIssues
    rw [List.map_eq_nil_iff, List.filter_eq_nil_iff]
    intro capability hdeclared
    rw [decide_eq_true_eq, not_not, mem_impliedScope_capabilities]
    refine ⟨entry.1, hstep, (mem_effective_default hread).mpr ?_⟩
    unfold stepCapabilities
    cases hcapabilities : entry.1.capabilities with
    | none =>
      rw [hcapabilities] at hdeclared
      cases hdeclared
    | some capabilities =>
      rw [hcapabilities] at hdeclared
      exact hdeclared
  · unfold pathIssues
    split
    · next criteria paths commands hbody =>
      split
      · next hmutates =>
        rw [List.flatMap_eq_nil_iff]
        intro pathEntry hpathEntry
        have hpath : pathEntry.1 ∈ entry.1.allowedPaths := by
          unfold StepDefinition.allowedPaths
          rw [hbody]
          exact List.fst_mem_of_mem_zipIdx hpathEntry
        have hallowed : pathIsAllowed pathEntry.1 scope.allowedPaths = true :=
          pathIsAllowed_of_mem ((mem_impliedScope_allowedPaths h).mpr
            ⟨entry.1, hstep, happroved entry.1 _ hmutates, hpath⟩)
        unfold pathIssue
        rw [if_neg (not_not.mpr hallowed), if_neg]
        exact Bool.false_ne_true
      · rfl
    · rfl

private theorem validationIssues_nil (h : ReadPlan plan) (root : String)
    (sandbox : ValidationSandboxMode) (profiles : Option RunCapabilityProfiles) :
    validationIssues plan (impliedEnvelope root plan profiles sandbox) = [] := by
  unfold validationIssues
  rw [List.append_eq_nil_iff]
  constructor
  · rw [List.map_eq_nil_iff, List.filter_eq_nil_iff]
    intro entry hentry
    rw [decide_eq_true_eq, not_not]
    exact List.fst_mem_of_mem_zipIdx hentry
  · show (if true then _ else _) = _
    rw [if_pos rfl, List.flatMap_eq_nil_iff]
    intro entry hentry
    unfold perChangeIssue
    split
    · next criteria paths hbody =>
      have hnormal := h.changes entry.1 (List.fst_mem_of_mem_zipIdx hentry)
        (by simp [StepDefinition.kind, hbody, StepBody.kind])
      rw [hbody] at hnormal
      exact absurd rfl hnormal.2.2.1
    · rfl

@[simp] theorem envelopeRepository_implied (root : String) (plan : WorkflowPlan)
    (profiles : Option RunCapabilityProfiles) (sandbox : ValidationSandboxMode) :
    envelopeRepository (impliedEnvelope root plan profiles sandbox) root =
      some ⟨root, impliedScope plan profiles⟩ := by
  simp [envelopeRepository, impliedEnvelope]

/-- A plan stays within the envelope it implies. -/
theorem planAuthorityIssues_implied (h : ReadPlan plan) {approved : RunCapabilityProfiles}
    (happroved : capabilityProfilesFromEnvelope
      (impliedEnvelope root plan (some defaultCapabilityProfiles) sandbox) root = .ok approved) :
    planAuthorityIssues plan (impliedEnvelope root plan (some defaultCapabilityProfiles) sandbox)
      root (some approved) = [] := by
  unfold planAuthorityIssues
  rw [envelopeRepository_implied]
  dsimp only
  rw [List.append_eq_nil_iff, List.flatMap_eq_nil_iff]
  refine ⟨fun entry hentry => stepIssues_nil h ?_ hentry, validationIssues_nil h root sandbox _⟩
  intro step capability hholds
  exact ((approved_of_effective (envelopeRepository_implied _ _ _ _) happroved).mp hholds).1

/-! ## Freezing without an authored envelope -/

variable {sha256Hex : String → String} {policy : RunSecurityPolicy}

/-- The envelope grants the repository exactly what the steps of the plan effectively hold. -/
structure GrantsExactly (envelope : AuthorityEnvelope) (root : String) (plan : WorkflowPlan)
    (profiles : Option RunCapabilityProfiles) (repository : EnvelopeRepository) : Prop where
  named : envelopeRepository envelope root = some repository
  capabilities : ∀ capability, capability ∈ repository.mutation.capabilities ↔
    ∃ step ∈ plan.steps, capability ∈ effectiveStepCapabilities step profiles
  allowedPaths : ∀ path, path ∈ repository.mutation.allowedPaths ↔
    ∃ step ∈ plan.steps, .mutateRepository ∈ effectiveStepCapabilities step profiles ∧
      path ∈ step.allowedPaths
  forbiddenPaths : repository.mutation.forbiddenPaths = []

/-- The authority a plan freezes without an authored envelope. -/
def derivedAuthority (sha256Hex : String → String) (root : String) (plan : WorkflowPlan)
    (policy : RunSecurityPolicy) : FrozenAuthority :=
  let envelope := impliedEnvelope root plan policy.workers.capabilityProfiles policy.validation.sandbox
  ⟨.derived, authorityEnvelopeDigest sha256Hex envelope, envelope⟩

/-- The profiles an envelope approves for the repository it names. -/
def approvedProfiles (scope : EnvelopeMutationScope) : RunCapabilityProfiles :=
  .ofFun fun name => capabilityProfileFor ((capabilityProfileMaxima name).filter (· ∈ scope.capabilities))

theorem capabilityProfilesFromEnvelope_eq {envelope : AuthorityEnvelope}
    {repository : EnvelopeRepository}
    (h : envelopeRepository envelope root = some repository) :
    capabilityProfilesFromEnvelope envelope root = .ok (approvedProfiles repository.mutation) := by
  unfold capabilityProfilesFromEnvelope
  rw [h]
  rfl

/-- Without an authored envelope a plan freezes exactly when the repository is named and the scope
the plan implies is accepted. -/
theorem freezeRunAuthority_derived_iff {value : Json}
    (hplan : readWorkflowPlanDocument value = .ok plan) (hversion : policy.version = .v2)
    (hprofiles : policy.workers.capabilityProfiles = some defaultCapabilityProfiles)
    {frozen : FrozenRunAuthority} :
    freezeRunAuthority sha256Hex ⟨root, value, policy, none⟩ = .ok frozen ↔
      root ≠ "" ∧ NormalScope (impliedScope plan (some defaultCapabilityProfiles)) ∧
      frozen = ⟨derivedAuthority sha256Hex root plan policy,
        policy.withProfiles (approvedProfiles (impliedScope plan (some defaultCapabilityProfiles)))⟩ := by
  have hread := readPlan_of_read hplan
  have hderive : ∀ envelope, deriveAuthorityEnvelope ⟨root, plan.toJson,
      some defaultCapabilityProfiles, policy.validation.sandbox⟩ = .ok envelope ↔
        root ≠ "" ∧ NormalScope (impliedScope plan (some defaultCapabilityProfiles)) ∧
        envelope = impliedEnvelope root plan (some defaultCapabilityProfiles)
          policy.validation.sandbox :=
    fun _ => deriveAuthorityEnvelope_ok_iff (readWorkflowPlanDocument_toJson hplan)
  have happroved := capabilityProfilesFromEnvelope_eq (envelopeRepository_implied root plan
    (some defaultCapabilityProfiles) policy.validation.sandbox)
  rw [freezeRunAuthority_ok_iff]
  simp only [hplan, hprofiles, Except.ok.injEq, reduceCtorEq, false_or, true_and]
  unfold derivedAuthority
  rw [hprofiles]
  constructor
  · rintro ⟨_, envelope, approved, rfl, -, henvelope, -, happroved', -, rfl⟩
    obtain ⟨hroot, hscope, rfl⟩ := (hderive envelope).mp henvelope
    rw [happroved] at happroved'
    cases happroved'
    exact ⟨hroot, hscope, rfl⟩
  · rintro ⟨hroot, hscope, rfl⟩
    refine ⟨plan, _, _, rfl, hversion, (hderive _).mpr ⟨hroot, hscope, rfl⟩, ?_, happroved,
      planAuthorityIssues_implied hread happroved, rfl⟩
    exact throwIssues_sandbox_iff.mpr rfl

/-- The scope a plan implies is accepted exactly when its steps hold nothing or one of them may
read. -/
theorem normalScope_implied_iff_reads (h : ReadPlan plan) :
    NormalScope (impliedScope plan (some defaultCapabilityProfiles)) ↔
      (∀ step ∈ plan.steps, stepCapabilities step = []) ∨
      ∃ step ∈ plan.steps, .readRepository ∈ stepCapabilities step := by
  rw [normalScope_impliedScope_iff h, mem_impliedScope_capabilities]
  have hreads : (∃ step ∈ plan.steps,
      .readRepository ∈ effectiveStepCapabilities step (some defaultCapabilityProfiles)) ↔
        ∃ step ∈ plan.steps, .readRepository ∈ stepCapabilities step :=
    exists_congr fun step => and_congr_right fun hstep => mem_effective_default (h.steps step hstep)
  have hnothing : (impliedScope plan (some defaultCapabilityProfiles)).capabilities = [] ↔
      ∀ step ∈ plan.steps, stepCapabilities step = [] := by
    rw [List.eq_nil_iff_forall_not_mem]
    simp only [mem_impliedScope_capabilities, not_exists, not_and]
    constructor
    · intro hnone step hstep
      rw [List.eq_nil_iff_forall_not_mem]
      intro capability hmem
      exact hnone capability step hstep ((mem_effective_default (h.steps step hstep)).mpr hmem)
    · intro hnone capability step hstep hmem
      rw [mem_effective_default (h.steps step hstep), hnone step hstep] at hmem
      cases hmem
  rw [hreads, hnothing]

/-- A plan read from a document derives and freezes an authority that grants exactly what its steps
hold, precisely when its steps hold nothing or one of them may read the repository. -/
theorem derived_authority_freezes_iff {value : Json}
    (hplan : readWorkflowPlanDocument value = .ok plan) (hversion : policy.version = .v2)
    (hprofiles : policy.workers.capabilityProfiles = some defaultCapabilityProfiles)
    (hroot : root ≠ "") :
    (∃ envelope frozen repository,
      deriveAuthorityEnvelope ⟨root, value, policy.workers.capabilityProfiles,
        policy.validation.sandbox⟩ = .ok envelope ∧
      freezeRunAuthority sha256Hex ⟨root, value, policy, none⟩ = .ok frozen ∧
      frozen.authority.envelope = envelope ∧
      GrantsExactly envelope root plan policy.workers.capabilityProfiles repository) ↔
    (∀ step ∈ plan.steps, stepCapabilities step = []) ∨
      ∃ step ∈ plan.steps, .readRepository ∈ stepCapabilities step := by
  have hread := readPlan_of_read hplan
  rw [← normalScope_implied_iff_reads hread]
  constructor
  · rintro ⟨envelope, frozen, repository, -, hfreeze, -, -⟩
    exact ((freezeRunAuthority_derived_iff hplan hversion hprofiles).mp hfreeze).2.1
  · intro hscope
    rw [hprofiles]
    refine ⟨_, _, _, (deriveAuthorityEnvelope_ok_iff hplan).mpr ⟨hroot, hscope, rfl⟩,
      (freezeRunAuthority_derived_iff hplan hversion hprofiles).mpr ⟨hroot, hscope, rfl⟩, ?_,
      envelopeRepository_implied _ _ _ _, fun _ => mem_impliedScope_capabilities,
      fun _ => mem_impliedScope_allowedPaths hread, rfl⟩
    unfold derivedAuthority
    rw [hprofiles]

/-- A plan of one command step that declares some capabilities. -/
def lintPlan (capabilities : Option (List StepCapability)) : WorkflowPlan where
  title := "Lint"
  steps := [{
    id := "lint"
    title := "Lint"
    description := "Run the linter"
    dependencies := []
    inputs := none
    outputs := none
    profile := none
    capabilities
    pathLocks := none
    resourceLocks := none
    timeoutMs := none
    retry := none
    body := .command ⟨"npm", ["run", "lint"]⟩ }]
  finalValidationCommands := []

/-- The policy of a new run without a validation sandbox. -/
def hostPolicy : RunSecurityPolicy := configuredPolicy .decline ⟨.none, .host, none⟩

/-- A command step that declares nothing may read, so its plan freezes. -/
theorem derived_authority_freezes_lint :
    ∃ envelope frozen repository,
      deriveAuthorityEnvelope ⟨"/repository", (lintPlan none).toJson,
        hostPolicy.workers.capabilityProfiles, hostPolicy.validation.sandbox⟩ = .ok envelope ∧
      freezeRunAuthority (fun _ => "digest") ⟨"/repository", (lintPlan none).toJson, hostPolicy, none⟩ =
        .ok frozen ∧
      frozen.authority.envelope = envelope ∧
      GrantsExactly envelope "/repository" (lintPlan none) hostPolicy.workers.capabilityProfiles
        repository :=
  (derived_authority_freezes_iff (by decide +kernel) rfl rfl (by decide)).mpr
    (.inr ⟨_, List.mem_singleton_self _, by decide⟩)

/-- A valid plan whose only step declares command execution alone is rejected when it is frozen. -/
theorem derived_authority_rejects_lint :
    ¬ ∀ (sha256Hex : String → String) (value : Json) (plan : WorkflowPlan)
        (policy : RunSecurityPolicy) (root : String),
      readWorkflowPlanDocument value = .ok plan → policy.version = .v2 →
      policy.workers.capabilityProfiles = some defaultCapabilityProfiles → root ≠ "" →
      ∃ frozen, freezeRunAuthority sha256Hex ⟨root, value, policy, none⟩ = .ok frozen := by
  intro h
  have hplan : readWorkflowPlanDocument (lintPlan (some [.executeCommands])).toJson =
      .ok (lintPlan (some [.executeCommands])) := by decide +kernel
  obtain ⟨frozen, hfrozen⟩ := h (fun _ => "digest") _ _ hostPolicy "/repository" hplan rfl rfl
    (by decide)
  have hscope := ((freezeRunAuthority_derived_iff hplan rfl rfl).mp hfrozen).2.1
  rw [normalScope_implied_iff_reads (readPlan_of_read hplan)] at hscope
  revert hscope
  decide

end BuildConductor.Security
