import BuildConductor.Domain.PlanTexts
import BuildConductor.Domain.PlanTranslation
import BuildConductor.Engine.Admission

/-!
# Plans as normal forms

An accepted plan is accepted again as it stands, and so is what is read back from its text. The
store and the admission of steps compare definitions by their texts, which are equal only for equal
definitions, so a validated plan passes both comparisons. `src/src/domain/steps.ts:222-640`,
`src/src/domain/dag.ts:260-469`, `src/src/engine/admission.ts:63-105`,
`src/src/storage/workflow-state-store.ts:272-288`.
-/

namespace BuildConductor.Engine

open Base Domain

/-! ## Normal forms -/

/-- A validated value that is accepted again as it stands, and read back from its text as it
stands, with the same text. -/
structure NormalForm {α : Type} (validate : Json → Except String α) (toJson : α → Json) (plan : α) :
    Prop where
  again : validate (toJson plan) = .ok plan
  text : ∀ layout, ∃ document, parseJson (jsonText layout (toJson plan)) = some document ∧
    validate document = .ok plan ∧ jsonText layout document = jsonText layout (toJson plan)

private theorem NormalForm.of_again {α : Type} {validate : Json → Except String α}
    {toJson : α → Json} {plan : α} (hwritable : (toJson plan).Writable)
    (again : validate (toJson plan) = .ok plan) : NormalForm validate toJson plan :=
  ⟨again, fun layout => ⟨toJson plan, parseJson_written layout hwritable, again, rfl⟩⟩

/-- A translated plan: one change step for each task, in the order of the tasks, with the identity,
the dependencies, the paths and the commands of the task. -/
structure Translates (legacy : TaskPlan) (plan : WorkflowPlan) : Prop where
  title : plan.title = legacy.title
  steps : List.Forall₂ (fun task step => step.id = task.id ∧ step.title = task.title ∧
    step.description = task.description ∧ step.dependencies = task.dependencies ∧
    step.body = .change task.acceptanceCriteria task.allowedPaths task.validationCommands ∧
    stepPathLocks step = task.allowedPaths) legacy.tasks plan.steps
  order : topologicalStepIds plan = topologicalIds legacy.nodes
  finalValidationCommands : plan.finalValidationCommands = legacy.finalValidationCommands

private theorem translates_translated (legacy : TaskPlan) : Translates legacy legacy.translated := by
  refine ⟨rfl, ?_, ?_, rfl⟩
  · unfold TaskPlan.translated
    rw [List.forall₂_map_right_iff, List.forall₂_same]
    exact fun task _ => ⟨rfl, rfl, rfl, rfl, rfl, rfl⟩
  · rw [topologicalStepIds, legacy.translated_nodes]

/-! ## The comparisons -/

/-- The store and the admission of steps find the definitions they compare equal in text: the store
after the plan and a recorded definition are read back from their texts, the admission for every
proposal that collides with no step and validates. -/
structure PassesComparisons (plan : WorkflowPlan) : Prop where
  stored : ∀ (layout : JsonLayout) (run : WorkflowRunState), run.plan = plan →
    (∀ definition ∈ plan.steps, ∃ record, run.steps.get? definition.id = some record ∧
      record.definition = definition) →
    ∃ document checked, parseJson (jsonText layout run.plan.toJson) = some document ∧
      validateWorkflowPlan document = .ok checked ∧
      ∀ definition ∈ checked.steps, ∃ record recorded,
        run.steps.get? definition.id = some record ∧
          parseJson (jsonText layout record.definition.toJson) = some recorded ∧
          jsonText .compact recorded = jsonText .compact definition.toJson
  grown : ∀ (run : WorkflowRunState) (proposed : List Json) (grown : WorkflowPlan),
    run.plan = plan → (proposed.filterMap proposedId?).filter (· ∈ plan.stepIds) = [] →
    validateWorkflowPlan (grownDocument plan proposed) = .ok grown →
    grownPlan run proposed = .ok grown ∧
      jsonText .compact (.arr ((grown.steps.take plan.steps.length).map StepDefinition.toJson)) =
        jsonText .compact (.arr (plan.steps.map StepDefinition.toJson))

private theorem validateWorkflowPlanResult_of_ok {value : Json} {plan : WorkflowPlan}
    (h : validateWorkflowPlan value = .ok plan) : validateWorkflowPlanResult value = .ok plan := by
  unfold validateWorkflowPlan at h
  split at h
  · next read hread =>
    cases h
    exact hread
  · cases h

theorem passesComparisons_of_again {plan : WorkflowPlan}
    (h : validateWorkflowPlan plan.toJson = .ok plan) : PassesComparisons plan := by
  constructor
  · rintro layout run rfl hrecords
    refine ⟨run.plan.toJson, run.plan, parseJson_written layout run.plan.toJson_writable, h, ?_⟩
    intro definition hdefinition
    obtain ⟨record, hrecord, rfl⟩ := hrecords definition hdefinition
    exact ⟨record, record.definition.toJson, hrecord,
      parseJson_written layout record.definition.toJson_writable, rfl⟩
  · rintro run proposed grown rfl hcollisions hgrown
    obtain ⟨htake, -⟩ := validateWorkflowPlan_grown h hgrown
    refine ⟨?_, by rw [htake]⟩
    unfold grownPlan
    rw [validateWorkflowPlanResult_of_ok hgrown]
    refine seq_ok_iff.mpr ⟨ensure_ok_iff.mpr hcollisions, ?_⟩
    exact bind_ok_iff.mpr ⟨grown, rfl, seq_ok_iff.mpr ⟨ensure_ok_iff.mpr htake, rfl⟩⟩

/-- Validated plans are normal forms, a translation keeps the tasks of an accepted task plan, and
validated workflow plans pass the comparisons of definitions. -/
theorem validated_plans_normal :
    (∀ value legacy, validateTaskPlan value = .ok legacy →
      NormalForm validateTaskPlan TaskPlan.toJson legacy ∧
        ∃ plan, translateLegacyTaskPlan value = .ok plan ∧
          translateLegacyTaskPlan legacy.toJson = .ok plan ∧ Translates legacy plan ∧
          NormalForm validateWorkflowPlan WorkflowPlan.toJson plan) ∧
    ∀ value plan, validateWorkflowPlan value = .ok plan →
      NormalForm validateWorkflowPlan WorkflowPlan.toJson plan ∧ PassesComparisons plan := by
  have hnormal : ∀ value plan, validateWorkflowPlan value = .ok plan →
      NormalForm validateWorkflowPlan WorkflowPlan.toJson plan :=
    fun value plan h => .of_again plan.toJson_writable (validateWorkflowPlan_toJson h)
  constructor
  · intro value legacy h
    have hagain := validateTaskPlan_of_valid (validateTaskPlan_valid h)
    have htranslated := translateLegacyTaskPlan_ok_iff.mpr ⟨legacy, h, rfl⟩
    refine ⟨.of_again legacy.toJson_writable hagain, legacy.translated, htranslated,
      translateLegacyTaskPlan_ok_iff.mpr ⟨legacy, hagain, rfl⟩, translates_translated legacy, ?_⟩
    obtain ⟨read, -, hvalid⟩ := bind_ok_iff.mp htranslated
    exact hnormal _ _ hvalid
  · intro value plan h
    exact ⟨hnormal value plan h, passesComparisons_of_again (validateWorkflowPlan_toJson h)⟩

end BuildConductor.Engine
