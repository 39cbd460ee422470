import BuildConductor.Domain.PlanTranslation
import BuildConductor.Domain.StepFacts

/-!
# Plan documents

The reader of plans in either schema, and what every plan it accepts satisfies.
`src/src/domain/plan-translation.ts:43-67`.
-/

namespace BuildConductor.Domain

open Base

/-- `src/src/domain/plan-translation.ts:48-67`. -/
def readWorkflowPlanDocument (value : Json) : Except String WorkflowPlan :=
  match value with
  | .obj fields =>
    match Json.field fields "version" with
    | some (.number 4) => validateWorkflowPlan value
    | some (.number 3) => translateLegacyTaskPlan value
    | _ => .error (planValidationErrorMessage [⟨"unsupported_plan_version", "version",
        "version must be 4 (workflow plan) or 3 (legacy task plan)"⟩])
  | _ => .error (planValidationErrorMessage [⟨"plan_object", "plan", "plan must be an object"⟩])

/-- A plan that was read is one the validator of workflow plans accepts. -/
theorem readWorkflowPlanDocument_validates {value : Json} {plan : WorkflowPlan}
    (h : readWorkflowPlanDocument value = .ok plan) :
    ∃ document, validateWorkflowPlan document = .ok plan := by
  unfold readWorkflowPlanDocument at h
  split at h
  · split at h
    · exact ⟨_, h⟩
    · unfold translateLegacyTaskPlan at h
      rw [bind_ok_iff] at h
      obtain ⟨legacy, -, h⟩ := h
      exact ⟨_, h⟩
    · cases h
  · cases h

/-- Reading a plan that was read gives it back. -/
theorem readWorkflowPlanDocument_toJson {value : Json} {plan : WorkflowPlan}
    (h : readWorkflowPlanDocument value = .ok plan) :
    readWorkflowPlanDocument plan.toJson = .ok plan := by
  obtain ⟨document, hdocument⟩ := readWorkflowPlanDocument_validates h
  exact validateWorkflowPlan_toJson hdocument

namespace Reading

/-- The body of a change step that was read. -/
private theorem readStepBody_change {kind : StepKind} {fields : List (String × Json)} {path : String}
    {criteria paths : List String} {commands : List ValidationCommand}
    (h : readStepBody kind fields path = ⟨.change criteria paths commands, []⟩) :
    NormalBody (.change criteria paths commands) := by
  unfold readStepBody at h
  cases kind with
  | change =>
    simp only [bind_eq_clean_iff, pure_eq_clean_iff] at h
    obtain ⟨criteria', hcriteria, paths', hpaths, commands', hcommands, hbody⟩ := h
    cases hbody
    obtain ⟨hne, hnormal⟩ := normalCommands_of_read hcommands
    exact ⟨normalTexts_of_read hcriteria, normalPaths_of_read hpaths, hne, hnormal⟩
  | investigation | command | approval =>
    simp [bind_eq_clean_iff] at h

private theorem readStep_change {index : Nat} {value : Json} {step : StepDefinition}
    (h : readStep index value = ⟨step, []⟩) {criteria paths : List String}
    {commands : List ValidationCommand} (hbody : step.body = .change criteria paths commands) :
    NormalBody step.body := by
  unfold readStep at h
  split at h
  · simp only [bind_eq_clean_iff] at h
    obtain ⟨common, -, h⟩ := h
    split at h
    · simp only [bind_eq_clean_iff, pure_eq_clean_iff] at h
      obtain ⟨body, hread, -, -, -, -, rfl⟩ := h
      subst hbody
      exact readStepBody_change hread
    · simp [bind_eq_clean_iff] at h
  · simp [bind_eq_clean_iff] at h

end Reading

/-- What every accepted plan satisfies, as far as the authority it implies is concerned. -/
structure ReadPlan (plan : WorkflowPlan) : Prop where
  title : NormalText plan.title
  steps : ∀ step ∈ plan.steps, StepRead step
  changes : ∀ step ∈ plan.steps, step.kind = .change → NormalBody step.body
  finalValidationCommands : ∀ c ∈ plan.finalValidationCommands, NormalCommand c

theorem readPlan_of_validates {document : Json} {plan : WorkflowPlan}
    (h : validateWorkflowPlan document = .ok plan) : ReadPlan plan := by
  obtain ⟨fields, -, hread, -⟩ := validateWorkflowPlan_ok_iff.mp h
  obtain ⟨items, -, -, hitems, htitle, hcommands, -⟩ := Reading.readWorkflowPlan_clean hread
  refine ⟨Reading.normalText_of_read htitle, validateWorkflowPlan_steps h, ?_,
    (Reading.normalCommands_of_readFinal hcommands).2⟩
  intro step hstep hkind
  obtain ⟨index, item, -, hitem⟩ := Reading.readEach_mem hitems hstep
  cases hbody : step.body with
  | change criteria paths commands =>
    rw [← hbody]
    exact Reading.readStep_change hitem hbody
  | _ => simp [StepDefinition.kind, hbody, StepBody.kind] at hkind

/-- What every plan read from a document satisfies. -/
theorem readPlan_of_read {value : Json} {plan : WorkflowPlan}
    (h : readWorkflowPlanDocument value = .ok plan) : ReadPlan plan := by
  obtain ⟨document, hdocument⟩ := readWorkflowPlanDocument_validates h
  exact readPlan_of_validates hdocument

end BuildConductor.Domain
