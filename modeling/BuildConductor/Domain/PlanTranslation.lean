import BuildConductor.Domain.TaskPlans

/-!
# Translated task plans

A task plan as a workflow plan: every task becomes a change step with the same identity,
dependencies and paths, and the defaults for everything a task does not declare. Translation
refuses nothing that validation accepts. `src/src/domain/plan-translation.ts`.
-/

namespace BuildConductor.Domain

open Base (Node)

/-- The step a task becomes. `src/src/domain/plan-translation.ts:19-31`. -/
def TaskDefinition.toStep (task : TaskDefinition) : StepDefinition :=
  { id := task.id
    title := task.title
    description := task.description
    dependencies := task.dependencies
    inputs := none
    outputs := none
    profile := none
    capabilities := none
    pathLocks := none
    resourceLocks := none
    timeoutMs := none
    retry := none
    body := .change task.acceptanceCriteria task.allowedPaths task.validationCommands }

/-- The workflow plan a task plan becomes. -/
def TaskPlan.translated (legacy : TaskPlan) : WorkflowPlan :=
  ⟨legacy.title, legacy.tasks.map TaskDefinition.toStep, legacy.finalValidationCommands⟩

/-- `src/src/domain/plan-translation.ts:17-41`. -/
def translateLegacyTaskPlan (plan : Json) : Except String WorkflowPlan := do
  let legacy ← validateTaskPlan plan
  validateWorkflowPlan legacy.translated.toJson

@[simp] theorem TaskDefinition.toStep_id (task : TaskDefinition) : task.toStep.id = task.id := rfl

@[simp] theorem TaskDefinition.toStep_dependencies (task : TaskDefinition) :
    task.toStep.dependencies = task.dependencies := rfl

/-- A translated plan keeps the graph. -/
theorem TaskPlan.translated_nodes (legacy : TaskPlan) : legacy.translated.nodes = legacy.nodes :=
  List.map_map

/-- A change step that declares nothing but outputs reads back as itself. -/
theorem NormalTask.plainStep {task : TaskDefinition} (h : NormalTask task)
    {declared : Option (List String)}
    (houtputs : ∀ outputs, declared = some outputs → NormalIdentifiers outputs) :
    PlainStep { task.toStep with outputs := declared } where
  id := h.id
  title := h.title
  description := h.description
  dependencies := h.dependencies
  inputs := by
    intro inputs hinputs
    cases hinputs
  outputs := houtputs
  profile := by
    intro profile hprofile
    cases hprofile
  capabilities := by
    intro capabilities hcapabilities
    cases hcapabilities
  pathLocks := rfl
  resourceLocks := rfl
  timeoutMs := rfl
  retry := rfl
  body := ⟨h.acceptanceCriteria, h.allowedPaths, h.commanded, h.validationCommands⟩

/-- A translation is that of an accepted task plan. -/
theorem translateLegacyTaskPlan_ok_iff {value : Json} {plan : WorkflowPlan} :
    translateLegacyTaskPlan value = .ok plan ↔
      ∃ legacy, validateTaskPlan value = .ok legacy ∧ plan = legacy.translated := by
  unfold translateLegacyTaskPlan
  rw [Base.bind_ok_iff]
  refine exists_congr fun legacy => and_congr_right fun hlegacy => ?_
  have hvalid := validateTaskPlan_valid hlegacy
  have hplain : ∀ step ∈ legacy.translated.steps, PlainStep step := by
    intro step hstep
    obtain ⟨task, htask, rfl⟩ := List.mem_map.mp hstep
    exact (hvalid.tasks task htask).plainStep (by simp)
  rw [validateWorkflowPlan_plain_iff hplain hvalid.title hvalid.commanded
    hvalid.finalValidationCommands]
  refine ⟨fun h => h.1, fun h => ⟨h, ?_, ?_⟩⟩
  · rw [Reading.cleanPlan_iff, legacy.translated_nodes]
    refine ⟨?_, hvalid.wellFormed, ?_, ?_, ?_⟩
    · simpa [TaskPlan.translated] using hvalid.nonempty
    · intro step hstep
      obtain ⟨task, htask, rfl⟩ := List.mem_map.mp hstep
      exact hvalid.pattern task htask
    · intro step hstep
      obtain ⟨task, htask, rfl⟩ := List.mem_map.mp hstep
      exact hvalid.irreflexive task htask
    · intro step hstep input hinput
      obtain ⟨task, -, rfl⟩ := List.mem_map.mp hstep
      cases hinput
  · rw [legacy.translated_nodes]
    exact hvalid.acyclic

end BuildConductor.Domain
