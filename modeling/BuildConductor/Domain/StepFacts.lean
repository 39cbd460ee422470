import BuildConductor.Domain.StepsNormal

/-!
# What the validator checks of one step

The bounds every step of an accepted plan keeps: a retry budget of one to five attempts, and a
profile and capabilities its kind may hold. `src/src/domain/steps.ts:247-335,445-473`.
-/

namespace BuildConductor.Domain

open Base

/-- A step the validator reads without an issue. -/
structure StepRead (step : StepDefinition) : Prop where
  budget_pos : 1 ≤ (stepRetryPolicy step).maxAttempts
  budget_le : (stepRetryPolicy step).maxAttempts ≤ maxStepRetryAttempts
  profile : stepProfileName step ∈ step.kind.profiles
  capabilities : ∀ capability ∈ stepCapabilities step, capability ∈ step.kind.capabilityMaxima

namespace Reading

/-- A budget is one to five attempts. -/
theorem retryBudget?_bounds {value : Json} {budget : Nat} (h : retryBudget? value = some budget) :
    1 ≤ budget ∧ budget ≤ maxStepRetryAttempts := by
  unfold retryBudget? at h
  split at h
  · split at h
    · split at h
      · cases h
        omega
      · cases h
    · cases h
  · cases h

private theorem readRetry_bounds {value : Option Json} {path : String}
    {retry : Option StepRetryPolicy}
    (h : readDeclared value (fun v => readRetry v path) = ⟨retry, []⟩) :
    1 ≤ (retry.getD ⟨1⟩).maxAttempts ∧ (retry.getD ⟨1⟩).maxAttempts ≤ maxStepRetryAttempts := by
  unfold readDeclared at h
  split at h
  · rw [pure_eq_clean_iff] at h
    rw [← h]
    exact ⟨Nat.le_refl 1, by decide⟩
  · unfold readRetry at h
    dsimp only at h
    split at h
    · next budget hbudget =>
      rw [pure_eq_clean_iff] at h
      rw [← h]
      exact retryBudget?_bounds hbudget
    · simp [bind_eq_clean_iff] at h

private theorem readStepCommon_facts {fields : List (String × Json)} {path : String}
    {c : CommonReading} (h : readStepCommon fields path = ⟨c, []⟩) :
    (1 ≤ (c.common.retry.getD ⟨1⟩).maxAttempts ∧
      (c.common.retry.getD ⟨1⟩).maxAttempts ≤ maxStepRetryAttempts) ∧
    c.common.capabilities =
      c.capabilityNames.map fun names => names.filterMap StepCapability.ofName? := by
  unfold readStepCommon at h
  simp only [bind_eq_clean_iff, pure_eq_clean_iff] at h
  obtain ⟨id, -, title, -, description, -, dependencies, -, inputs, -, outputs, -, profile, -,
    names, -, pathLocks, -, resourceLocks, -, timeoutMs, -, retry, hretry, rfl⟩ := h
  exact ⟨readRetry_bounds hretry, rfl⟩

private theorem readStepBody_kind {kind : StepKind} {fields : List (String × Json)} {path : String}
    {body : StepBody} (h : readStepBody kind fields path = ⟨body, []⟩) : body.kind = kind := by
  unfold readStepBody at h
  cases kind with
  | investigation =>
    simp only [bind_eq_clean_iff, pure_eq_clean_iff] at h
    obtain ⟨questions, -, rfl⟩ := h
    rfl
  | change =>
    simp only [bind_eq_clean_iff, pure_eq_clean_iff] at h
    obtain ⟨criteria, -, paths, -, commands, -, rfl⟩ := h
    rfl
  | command =>
    simp only [bind_eq_clean_iff, pure_eq_clean_iff] at h
    obtain ⟨invocation, -, rfl⟩ := h
    rfl
  | approval =>
    simp only [bind_eq_clean_iff, pure_eq_clean_iff] at h
    obtain ⟨prompt, -, rfl⟩ := h
    rfl

private theorem checkStepProfile_clean {kind : StepKind} {profile : Option CapabilityProfileName}
    {path : String} {u : Unit} (h : checkStepProfile kind profile path = ⟨u, []⟩) :
    profile.getD kind.profileName ∈ kind.profiles := by
  cases profile with
  | none => cases kind <;> decide
  | some profile =>
    rw [checkStepProfile, issueIf_eq_clean_iff, Decidable.not_not] at h
    exact h

private theorem checkStepCapabilities_clean {kind : StepKind} {names : Option (List String)}
    {path : String} (h : checkStepCapabilities kind names path = ⟨(), []⟩) :
    ∀ capability ∈ (names.map fun names => names.filterMap StepCapability.ofName?).getD
      kind.capabilityMaxima, capability ∈ kind.capabilityMaxima := by
  cases names with
  | none => exact fun capability hcapability => hcapability
  | some names =>
    intro capability hcapability
    rw [Option.map_some, Option.getD_some] at hcapability
    obtain ⟨name, hname, hof⟩ := List.mem_filterMap.mp hcapability
    obtain ⟨i, hi⟩ := List.mem_iff_getElem?.mp hname
    have hcheck := checkEach_eq_clean_iff.mp h i name hi
    rw [issueIf_eq_clean_iff, not_and, Decidable.not_not] at hcheck
    have hne : name ≠ "" := by
      rw [← StepCapability.name_of_ofName? hof]
      cases capability <;> decide
    obtain ⟨granted, hgranted, heq⟩ := List.mem_map.mp (hcheck hne)
    rw [← heq, StepCapability.ofName?_name, Option.some.injEq] at hof
    rw [← hof]
    exact hgranted

/-- A step read without issue keeps every bound. -/
theorem readStep_read {index : Nat} {value : Json} {step : StepDefinition}
    (h : readStep index value = ⟨step, []⟩) : StepRead step := by
  unfold readStep at h
  split at h
  · simp only [bind_eq_clean_iff] at h
    obtain ⟨common, hcommon, h⟩ := h
    obtain ⟨⟨hpos, hle⟩, hcapabilities⟩ := readStepCommon_facts hcommon
    split at h
    · next kind _ =>
      simp only [bind_eq_clean_iff, pure_eq_clean_iff] at h
      obtain ⟨body, hbody, u, hprofile, u', hnames, rfl⟩ := h
      have hkind := readStepBody_kind hbody
      refine ⟨hpos, hle, ?_, ?_⟩
      · rw [stepProfileName, StepDefinition.kind, hkind]
        exact checkStepProfile_clean hprofile
      · rw [stepCapabilities, StepDefinition.kind, hkind]
        dsimp only
        rw [hcapabilities]
        exact checkStepCapabilities_clean hnames
    · simp [bind_eq_clean_iff] at h
  · simp [bind_eq_clean_iff] at h

end Reading

/-- Every step of an accepted plan keeps every bound. -/
theorem validateWorkflowPlan_steps {value : Json} {plan : WorkflowPlan}
    (h : validateWorkflowPlan value = .ok plan) : ∀ step ∈ plan.steps, StepRead step := by
  obtain ⟨items, hitems⟩ := validateWorkflowPlan_reads h
  intro step hstep
  obtain ⟨index, item, -, hread⟩ := Reading.readEach_mem hitems hstep
  exact Reading.readStep_read hread

end BuildConductor.Domain
