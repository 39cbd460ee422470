import BuildConductor.Domain.JsonText
import BuildConductor.Security.Derivation

/-!
# Reloading a frozen authority

A frozen authority written as a document reads back as itself, passes the checks of its own run, and
freezes again to itself. `src/src/security/authority.ts:309-497`.
-/

namespace BuildConductor.Security

open Base Domain

/-! ## The document of an authority -/

private theorem scope_writable (scope : EnvelopeMutationScope) : scope.toJson.Writable := by
  unfold EnvelopeMutationScope.toJson
  simp [Json.Writable, Json.WritableFields]

private theorem command_writable (command : ValidationCommand) : command.toJson.Writable := by
  unfold ValidationCommand.toJson
  simp [Json.Writable, Json.WritableFields]

/-- The document of an envelope can be written. -/
theorem AuthorityEnvelope.toJson_writable (envelope : AuthorityEnvelope) :
    envelope.toJson.Writable := by
  have hrepositories : Json.WritableItems
      (envelope.repositories.map EnvelopeRepository.toJson) := by
    rw [Json.writableItems_iff, List.forall_mem_map]
    intro repository _
    have hscope := scope_writable repository.mutation
    unfold EnvelopeRepository.toJson
    simp [Json.Writable, Json.WritableFields, hscope]
  have hrequired : Json.WritableItems (envelope.validation.required.map (·.toJson)) := by
    rw [Json.writableItems_iff, List.forall_mem_map]
    exact fun command _ => command_writable command
  unfold AuthorityEnvelope.toJson
  simp [Json.Writable, Json.WritableFields, hrepositories, hrequired]

/-- The document of an authority can be written. -/
theorem FrozenAuthority.toJson_writable (authority : FrozenAuthority) :
    authority.toJson.Writable := by
  have henvelope := authority.envelope.toJson_writable
  unfold FrozenAuthority.toJson
  simp [Json.Writable, Json.WritableFields, henvelope]

variable {sha256Hex : String → String}

/-- The document of an authority whose digest identifies its envelope reads back as the authority. -/
theorem readStoredAuthority_toJson {authority : FrozenAuthority}
    (hdigest : authority.digest = authorityEnvelopeDigest sha256Hex authority.envelope)
    (hnormal : NormalEnvelope authority.source authority.envelope) (path : String) :
    readStoredAuthority sha256Hex authority.toJson path = .ok authority := by
  have hsource : envelopeSource? (some (.str authority.source.name)) = some authority.source := by
    cases authority.source <;> rfl
  unfold readStoredAuthority FrozenAuthority.toJson
  dsimp only
  rw [seq_ok_iff, bind_ok_iff]
  refine ⟨ensure_ok_iff.mpr (by simp), authority.source, require_ok_iff.mpr hsource, ?_⟩
  rw [bind_ok_iff]
  refine ⟨authority.envelope, normalizeAuthorityEnvelope_toJson hnormal, ?_⟩
  rw [seq_ok_iff, ← hdigest]
  exact ⟨ensure_ok_iff.mpr (decide_eq_true rfl), rfl⟩

/-! ## The narrowed profiles -/

variable {plan : WorkflowPlan}

/-- Under the profiles its own scope approves, a step of a plan holds what it held under the
defaults. -/
theorem effective_approved {step : StepDefinition} (hstep : step ∈ plan.steps) :
    effectiveStepCapabilities step
        (some (approvedProfiles (impliedScope plan (some defaultCapabilityProfiles)))) =
      effectiveStepCapabilities step (some defaultCapabilityProfiles) := by
  have happroved := capabilityProfilesFromEnvelope_eq (envelopeRepository_implied "/" plan
    (some defaultCapabilityProfiles) .none)
  apply effectiveStepCapabilities_congr
  intro capability
  rw [approved_of_effective (envelopeRepository_implied _ _ _ _) happroved,
    mem_impliedScope_capabilities]
  exact and_iff_left_of_imp fun hmem => ⟨step, hstep, hmem⟩

/-- The implied scope depends on what the steps hold only. -/
theorem impliedScope_congr {profiles others : Option RunCapabilityProfiles}
    (h : ∀ step ∈ plan.steps,
      effectiveStepCapabilities step profiles = effectiveStepCapabilities step others) :
    impliedScope plan profiles = impliedScope plan others := by
  have hpaths : ∀ step ∈ plan.steps,
      (if mutatesUnder profiles step then step.allowedPaths else []) =
        if mutatesUnder others step then step.allowedPaths else [] := by
    intro step hstep
    unfold mutatesUnder
    rw [h step hstep]
  unfold impliedScope
  rw [List.flatMap_congr h, List.flatMap_congr hpaths]

/-- A plan implies the same envelope under the profiles its own scope approves. -/
theorem impliedEnvelope_approved (root : String) (sandbox : ValidationSandboxMode) :
    impliedEnvelope root plan
        (some (approvedProfiles (impliedScope plan (some defaultCapabilityProfiles)))) sandbox =
      impliedEnvelope root plan (some defaultCapabilityProfiles) sandbox := by
  unfold impliedEnvelope
  rw [impliedScope_congr fun step hstep => effective_approved hstep]

/-! ## Reloading -/

/-- What loading a run relies on: its authority survives the document it is stored as, passes the
checks of its run, and freezes to itself again. -/
structure Reloads (sha256Hex : String → String) (input : FreezeAuthorityInput) (plan : WorkflowPlan)
    (frozen : FrozenRunAuthority) : Prop where
  normal : normalizeAuthorityEnvelope frozen.authority.envelope.toJson frozen.authority.source =
    .ok frozen.authority.envelope
  stored : ∀ layout path,
    (parseJson (jsonText layout frozen.authority.toJson)).map
      (readStoredAuthority sha256Hex · path) = some (.ok frozen.authority)
  consistent : ∃ profiles, frozen.securityPolicy.workers.capabilityProfiles = some profiles ∧
    ∀ path, assertAuthorityConsistencyUnder sha256Hex (some frozen.securityPolicy) frozen.authority
      input.repositoryRoot plan profiles path = .ok ()
  refrozen : freezeRunAuthority sha256Hex { input with securityPolicy := frozen.securityPolicy } =
    .ok frozen

/-- Whatever the document, an authority in normal form that its digest identifies is read back. -/
theorem parsed_readStoredAuthority {authority : FrozenAuthority}
    (hdigest : authority.digest = authorityEnvelopeDigest sha256Hex authority.envelope)
    (hnormal : NormalEnvelope authority.source authority.envelope) (layout : JsonLayout)
    (path : String) :
    (parseJson (jsonText layout authority.toJson)).map (readStoredAuthority sha256Hex · path) =
      some (.ok authority) := by
  have hparse := parseJson_jsonText layout authority.toJson_writable [] nofun
  rw [String.ofList_nil, String.append_empty] at hparse
  rw [hparse, Option.map_some, readStoredAuthority_toJson hdigest hnormal]

variable {input : FreezeAuthorityInput} {frozen : FrozenRunAuthority}

/-- An authority frozen under an authored envelope reloads. -/
theorem reloads_authored {envelope : AuthorityEnvelope} {document : Json}
    (hplan : readWorkflowPlanDocument input.plan = .ok plan)
    (hauthored : input.envelope = some envelope)
    (henvelope : normalizeAuthorityEnvelope document .authored = .ok envelope)
    (hfrozen : freezeRunAuthority sha256Hex input = .ok frozen) :
    Reloads sha256Hex input plan frozen := by
  rw [freezeRunAuthority_ok_iff] at hfrozen
  simp only [hplan, hauthored, Except.ok.injEq, Option.some.injEq, reduceCtorEq, false_and, or_false]
    at hfrozen
  obtain ⟨_, _, profiles, rfl, hversion, rfl, hsandbox, hprofiles, hissues, rfl⟩ := hfrozen
  have hnormal := normalEnvelope_of_normalize henvelope
  refine ⟨normalizeAuthorityEnvelope_toJson hnormal, parsed_readStoredAuthority rfl hnormal,
    ⟨profiles, rfl, fun path => ?_⟩, ?_⟩
  · rw [assertAuthorityConsistencyUnder_ok_iff]
    exact ⟨throwIssues_sandbox_iff.mp hsandbox, hprofiles, nofun, hissues⟩
  · rw [freezeRunAuthority_ok_iff]
    exact ⟨plan, envelope, profiles, hplan, hversion, .inl hauthored, hsandbox, hprofiles, hissues,
      by rw [hauthored]; rfl⟩

/-- An authority frozen under the envelope its plan implies reloads. -/
theorem reloads_derived (hplan : readWorkflowPlanDocument input.plan = .ok plan)
    (hderived : input.envelope = none)
    (hprofiles : input.securityPolicy.workers.capabilityProfiles = some defaultCapabilityProfiles)
    (hfrozen : freezeRunAuthority sha256Hex input = .ok frozen) :
    Reloads sha256Hex input plan frozen := by
  obtain ⟨root, document, policy, envelope⟩ := input
  cases hderived
  have hversion : policy.version = .v2 := by
    rw [freezeRunAuthority_ok_iff] at hfrozen
    obtain ⟨_, _, _, -, hversion, -⟩ := hfrozen
    exact hversion
  obtain ⟨hroot, hscope, rfl⟩ := (freezeRunAuthority_derived_iff hplan hversion hprofiles).mp hfrozen
  have hread := readPlan_of_read hplan
  have hnormal : NormalEnvelope .derived (derivedAuthority sha256Hex root plan policy).envelope := by
    unfold derivedAuthority
    rw [hprofiles]
    exact (normalEnvelope_implied_iff hread hroot).mpr hscope
  -- the narrowed profiles imply the same scope, so the same envelope is derived from them
  have hagain : ∀ value, readWorkflowPlanDocument value = .ok plan →
      deriveAuthorityEnvelope ⟨root, value, some (approvedProfiles (impliedScope plan
        (some defaultCapabilityProfiles))), policy.validation.sandbox⟩ =
          .ok (derivedAuthority sha256Hex root plan policy).envelope := by
    intro value hvalue
    rw [deriveAuthorityEnvelope_ok_iff hvalue, impliedScope_congr fun step hstep =>
      effective_approved hstep, impliedEnvelope_approved]
    unfold derivedAuthority
    rw [hprofiles]
    exact ⟨hroot, hscope, rfl⟩
  have happroved : capabilityProfilesFromEnvelope (derivedAuthority sha256Hex root plan policy).envelope
      root = .ok (approvedProfiles (impliedScope plan (some defaultCapabilityProfiles))) := by
    unfold derivedAuthority
    rw [hprofiles]
    exact capabilityProfilesFromEnvelope_eq (envelopeRepository_implied root plan _ _)
  have hissues : planAuthorityIssues plan (derivedAuthority sha256Hex root plan policy).envelope root
      (some (approvedProfiles (impliedScope plan (some defaultCapabilityProfiles)))) = [] := by
    unfold derivedAuthority at happroved ⊢
    rw [hprofiles] at happroved ⊢
    exact planAuthorityIssues_implied hread happroved
  have hdocument := readWorkflowPlanDocument_toJson hplan
  refine ⟨normalizeAuthorityEnvelope_toJson hnormal, parsed_readStoredAuthority rfl hnormal,
    ⟨_, rfl, fun path => ?_⟩, ?_⟩
  · rw [assertAuthorityConsistencyUnder_ok_iff]
    exact ⟨rfl, happroved, fun _ => ⟨_, hagain _ hdocument, rfl⟩, hissues⟩
  · rw [freezeRunAuthority_ok_iff]
    exact ⟨plan, _, _, hplan, hversion, .inr ⟨rfl, hagain _ hdocument⟩,
      throwIssues_sandbox_iff.mpr rfl, happroved, hissues, rfl⟩

/-- Whatever was frozen reloads: under no envelope, or under an envelope that was accepted. -/
theorem frozen_authority_reloads (hplan : readWorkflowPlanDocument input.plan = .ok plan)
    (hprofiles : input.securityPolicy.workers.capabilityProfiles = some defaultCapabilityProfiles)
    (henvelope : ∀ envelope, input.envelope = some envelope →
      ∃ document, normalizeAuthorityEnvelope document .authored = .ok envelope)
    (hfrozen : freezeRunAuthority sha256Hex input = .ok frozen) :
    Reloads sha256Hex input plan frozen := by
  cases hauthored : input.envelope with
  | none => exact reloads_derived hplan hauthored hprofiles hfrozen
  | some envelope =>
    obtain ⟨document, haccepted⟩ := henvelope envelope hauthored
    exact reloads_authored hplan hauthored haccepted hfrozen

/-- The authority of a plan of one command step reloads. -/
theorem frozen_authority_reloads_lint :
    ∃ frozen, freezeRunAuthority (fun text => text)
        ⟨"/repository", (lintPlan none).toJson, hostPolicy, none⟩ = .ok frozen ∧
      Reloads (fun text => text) ⟨"/repository", (lintPlan none).toJson, hostPolicy, none⟩
        (lintPlan none) frozen := by
  have hplan : readWorkflowPlanDocument (lintPlan none).toJson = .ok (lintPlan none) := by
    decide +kernel
  have hscope := (normalScope_implied_iff_reads (readPlan_of_read hplan)).mpr
    (.inr ⟨_, List.mem_singleton_self _, by decide⟩)
  have hfrozen := (@freezeRunAuthority_derived_iff _ "/repository" (fun text => text) hostPolicy _
    hplan rfl rfl _).mpr ⟨by decide, hscope, rfl⟩
  exact ⟨_, hfrozen, frozen_authority_reloads hplan rfl nofun hfrozen⟩

end BuildConductor.Security
