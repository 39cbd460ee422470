import BuildConductor.Domain.Canonical

/-!
# Task plans

The document a user approves. Each of its tasks becomes a change step of the run. An accepted
task plan is a normal form: it is accepted again as it stands.
`src/src/domain/dag.ts:260-307`, `src/src/domain/dag.ts:350-469`, `src/src/domain/types.ts:157-172`.
-/

namespace BuildConductor.Domain

open Base (Node)

/-- `src/src/domain/types.ts:157-165`. -/
structure TaskDefinition where
  id : String
  title : String
  description : String
  dependencies : List String
  acceptanceCriteria : List String
  allowedPaths : List String
  validationCommands : List ValidationCommand
deriving DecidableEq, Repr

/-- The schema version every plan carries is fixed by its type. `src/src/domain/types.ts:167-172`. -/
structure TaskPlan where
  title : String
  tasks : List TaskDefinition
  finalValidationCommands : List ValidationCommand
deriving DecidableEq, Repr

namespace TaskDefinition

/-- The graph node a task declares. -/
def node (task : TaskDefinition) : Node String := ⟨task.id, task.dependencies⟩

/-- A task as the object a document holds. -/
def toJson (task : TaskDefinition) : Json :=
  .obj
    [("id", .str task.id),
     ("title", .str task.title),
     ("description", .str task.description),
     ("dependencies", Json.strings task.dependencies),
     ("acceptanceCriteria", Json.strings task.acceptanceCriteria),
     ("allowedPaths", Json.strings task.allowedPaths),
     ("validationCommands", .arr (task.validationCommands.map ValidationCommand.toJson))]

end TaskDefinition

namespace TaskPlan

/-- The dependency graph of a task plan. -/
def nodes (plan : TaskPlan) : List (Node String) := plan.tasks.map TaskDefinition.node

/-- A task plan as the object a document holds. -/
def toJson (plan : TaskPlan) : Json :=
  .obj
    [("version", .number 3),
     ("title", .str plan.title),
     ("tasks", .arr (plan.tasks.map TaskDefinition.toJson)),
     ("finalValidationCommands",
       .arr (plan.finalValidationCommands.map ValidationCommand.toJson))]

end TaskPlan

namespace Reading

/-- `src/src/domain/dag.ts:260-307`. -/
def readTask (index : Nat) (value : Json) : Reading TaskDefinition :=
  let path := s!"tasks[{index}]"
  match value with
  | .obj fields => do
    let id ← readNonEmptyString (Json.field fields "id") s!"{path}.id"
    let title ← readNonEmptyString (Json.field fields "title") s!"{path}.title"
    let description ← readNonEmptyString (Json.field fields "description") s!"{path}.description"
    let dependencies ← readStringArray (Json.field fields "dependencies") s!"{path}.dependencies"
    let acceptanceCriteria ← readStringArray (Json.field fields "acceptanceCriteria")
      s!"{path}.acceptanceCriteria"
    let allowedPaths ← readAllowedPaths (Json.field fields "allowedPaths") s!"{path}.allowedPaths"
    let validationCommands ← readValidationCommands (Json.field fields "validationCommands")
      s!"{path}.validationCommands"
    pure
      { id, title, description, dependencies, acceptanceCriteria, allowedPaths
        validationCommands }
  | _ => do
    addIssue "task_object" path s!"{path} must be an object"
    pure
      { id := "", title := "", description := "", dependencies := [], acceptanceCriteria := []
        allowedPaths := [], validationCommands := [] }

/-- `src/src/domain/dag.ts:364-371`. -/
def checkTaskPlanVersion (value : Option Json) : Reading Unit :=
  match value with
  | some (.number 3) => pure ()
  | _ => addIssue "schema_version" "version" "version must be 3"

/-- `src/src/domain/dag.ts:373-380`. -/
def checkRequiredTasks (value : Option Json) : Reading Unit :=
  match value with
  | some (.arr (_ :: _)) => pure ()
  | _ => addIssue "required_tasks" "tasks" "tasks must be a non-empty array"

/-- The identity checks of one task, against the tasks before it.
`src/src/domain/dag.ts:390-430`. -/
def checkTaskIdentity (tasks : List TaskDefinition) (index : Nat) (task : TaskDefinition) :
    Reading Unit := do
  let idPath := s!"tasks[{index}].id"
  issueIf (¬ matchesIdPattern task.id) "task_id_format" idPath
    s!"task id {quote task.id} must match {idPatternText}"
  issueIf (task.id ∈ (tasks.take index).map fun earlier => earlier.id) "duplicate_task_id" idPath
    s!"duplicate task id: {task.id}"
  issueIf (¬ task.dependencies.Nodup) "duplicate_dependency" s!"tasks[{index}].dependencies"
    s!"task {task.id} has duplicate dependencies"
  issueIf (task.id ∈ task.dependencies) "self_dependency" s!"tasks[{index}].dependencies"
    s!"task {task.id} cannot depend on itself"

/-- The dependency check of one task. `src/src/domain/dag.ts:431-443`. -/
def checkTaskDependencies (tasks : List TaskDefinition) (index : Nat) (task : TaskDefinition) :
    Reading Unit :=
  checkEach (fun dependencyIndex dependency =>
    issueIf (dependency ∉ tasks.map fun known => known.id) "unknown_dependency"
      s!"tasks[{index}].dependencies[{dependencyIndex}]"
      s!"task {task.id} depends on unknown task {dependency}") 0 task.dependencies

/-- Everything `validateTaskPlanResult` records before the cycle search.
`src/src/domain/dag.ts:350-443`. -/
def readTaskPlan (fields : List (String × Json)) : Reading TaskPlan := do
  checkTaskPlanVersion (Json.field fields "version")
  let title ← readNonEmptyString (Json.field fields "title") "title"
  checkRequiredTasks (Json.field fields "tasks")
  let tasks ← readEach readTask 0 (stepItems (Json.field fields "tasks"))
  let finalValidationCommands ← readValidationCommands
    (Json.field fields "finalValidationCommands") "finalValidationCommands"
  checkEach (checkTaskIdentity tasks) 0 tasks
  checkEach (checkTaskDependencies tasks) 0 tasks
  pure ⟨title, tasks, finalValidationCommands⟩

end Reading

/-- `src/src/domain/dag.ts:350-469`. -/
def validateTaskPlanResult (value : Json) : Except (List PlanValidationIssue) TaskPlan :=
  match value with
  | .obj fields =>
    let reading := Reading.readTaskPlan fields
    if reading.issues = [] then
      match findCycle reading.value.nodes with
      | some cycle => .error [⟨"dependency_cycle", "tasks",
          "dependency cycle: " ++ String.intercalate " -> " cycle⟩]
      | none => .ok reading.value
    else .error reading.issues
  | _ => .error [⟨"plan_object", "plan", "plan must be an object"⟩]

/-- `src/src/domain/dag.ts:471-477`. -/
def validateTaskPlan (value : Json) : Except String TaskPlan :=
  match validateTaskPlanResult value with
  | .ok plan => .ok plan
  | .error issues => .error (planValidationErrorMessage issues)

/-- The order is that of the validated plan. `src/src/domain/dag.ts:524-576`. -/
def topologicalTaskIds (plan : TaskPlan) : Except String (List String) := do
  let validated ← validateTaskPlan plan.toJson
  pure (topologicalIds validated.nodes)

/-! ## Accepted task plans -/

/-- A task the reader gives back as it stands. -/
structure NormalTask (task : TaskDefinition) : Prop where
  id : NormalText task.id
  title : NormalText task.title
  description : NormalText task.description
  dependencies : ∀ d ∈ task.dependencies, NormalText d
  acceptanceCriteria : ∀ criterion ∈ task.acceptanceCriteria, NormalText criterion
  allowedPaths : NormalPaths task.allowedPaths
  commanded : task.validationCommands ≠ []
  validationCommands : ∀ c ∈ task.validationCommands, NormalCommand c

/-- A task plan that is accepted as it stands. -/
structure ValidTaskPlan (plan : TaskPlan) : Prop where
  title : NormalText plan.title
  nonempty : plan.tasks ≠ []
  tasks : ∀ task ∈ plan.tasks, NormalTask task
  commanded : plan.finalValidationCommands ≠ []
  finalValidationCommands : ∀ c ∈ plan.finalValidationCommands, NormalCommand c
  wellFormed : Node.WellFormed plan.nodes
  pattern : ∀ task ∈ plan.tasks, matchesIdPattern task.id = true
  irreflexive : ∀ task ∈ plan.tasks, task.id ∉ task.dependencies
  acyclic : findCycle plan.nodes = none

namespace Reading

/-- A task reads back as itself exactly when it is normal. -/
theorem readTask_toJson_iff {task : TaskDefinition} {index : Nat} :
    readTask index task.toJson = ⟨task, []⟩ ↔ NormalTask task := by
  simp only [readTask, TaskDefinition.toJson, bind_eq_clean_iff, pure_eq_clean_iff]
  constructor
  · rintro ⟨id, hid, title, htitle, description, hdescription, dependencies, hdependencies,
      criteria, hcriteria, paths, hpaths, commands, hcommands, htask⟩
    cases htask
    have hread := readValidationCommands_toJson_iff.mp hcommands
    exact ⟨readNonEmptyString_str_iff.mp hid, readNonEmptyString_str_iff.mp htitle,
      readNonEmptyString_str_iff.mp hdescription, readStringArray_strings_iff.mp hdependencies,
      readStringArray_strings_iff.mp hcriteria, readAllowedPaths_strings_iff.mp hpaths,
      hread.1, hread.2⟩
  · intro h
    exact ⟨task.id, readNonEmptyString_str_iff.mpr h.id, task.title,
      readNonEmptyString_str_iff.mpr h.title, task.description,
      readNonEmptyString_str_iff.mpr h.description, task.dependencies,
      readStringArray_strings_iff.mpr h.dependencies, task.acceptanceCriteria,
      readStringArray_strings_iff.mpr h.acceptanceCriteria, task.allowedPaths,
      readAllowedPaths_strings_iff.mpr h.allowedPaths, task.validationCommands,
      readValidationCommands_toJson_iff.mpr ⟨h.commanded, h.validationCommands⟩, rfl⟩

/-- A task read without issue is normal. -/
theorem normalTask_of_read {value : Json} {index : Nat} {task : TaskDefinition}
    (h : readTask index value = ⟨task, []⟩) : NormalTask task := by
  unfold readTask at h
  split at h
  · simp only [bind_eq_clean_iff, pure_eq_clean_iff] at h
    obtain ⟨id, hid, title, htitle, description, hdescription, dependencies, hdependencies,
      criteria, hcriteria, paths, hpaths, commands, hcommands, htask⟩ := h
    cases htask
    have hread := normalCommands_of_read hcommands
    exact ⟨normalText_of_read hid, normalText_of_read htitle, normalText_of_read hdescription,
      normalTexts_of_read hdependencies, normalTexts_of_read hcriteria,
      normalPaths_of_read hpaths, hread.1, hread.2⟩
  · simp [bind_eq_clean_iff] at h

/-- The checks over the tasks of a plan are those of its graph. -/
private theorem checkTasks_clean_iff {tasks : List TaskDefinition} :
    (checkEach (checkTaskIdentity tasks) 0 tasks = ⟨(), []⟩ ∧
      checkEach (checkTaskDependencies tasks) 0 tasks = ⟨(), []⟩) ↔
    Node.WellFormed (tasks.map TaskDefinition.node) ∧
      (∀ task ∈ tasks, matchesIdPattern task.id = true) ∧
      ∀ task ∈ tasks, task.id ∉ task.dependencies := by
  have hgraph := @checkedGraph_iff _ TaskDefinition.node tasks
  rw [show (Node.WellFormed (tasks.map TaskDefinition.node) ∧
      (∀ task ∈ tasks, matchesIdPattern task.id = true) ∧
      ∀ task ∈ tasks, task.id ∉ task.dependencies) ↔ _ from hgraph.symm]
  simp only [checkEach_eq_clean_iff, checkTaskIdentity, checkTaskDependencies, bind_eq_clean_iff,
    issueIf_eq_clean_iff, Nat.zero_add, not_not, exists_const, TaskDefinition.node]
  refine and_congr_right fun _ => forall_congr' fun i => forall_congr' fun task => ?_
  exact imp_congr_right fun _ => forall_getElem?_iff

private theorem readTaskPlan_valid {fields : List (String × Json)} {plan : TaskPlan}
    (h : readTaskPlan fields = ⟨plan, []⟩) (hcycle : findCycle plan.nodes = none) :
    ValidTaskPlan plan := by
  simp only [readTaskPlan, bind_eq_clean_iff, pure_eq_clean_iff] at h
  obtain ⟨_, -, title, htitle, _, hrequired, tasks, hread, commands, hcommands, _, hidentity, _,
    hdependencies, rfl⟩ := h
  obtain ⟨hwf, hpattern, hirreflexive⟩ := checkTasks_clean_iff.mp ⟨hidentity, hdependencies⟩
  obtain ⟨hcommanded, hnormal⟩ := normalCommands_of_read hcommands
  refine ⟨normalText_of_read htitle, ?_, ?_, hcommanded, hnormal, hwf, hpattern, hirreflexive,
    hcycle⟩
  · unfold checkRequiredTasks at hrequired
    split at hrequired
    · next item rest hitems =>
      rw [hitems] at hread
      rintro rfl
      exact absurd (readEach_eq_clean_iff.mp hread).1 (by simp [stepItems])
    · simp at hrequired
  · intro task htask
    obtain ⟨i, value, -, hvalue⟩ := readEach_mem hread htask
    exact normalTask_of_read hvalue

private theorem readTaskPlan_of_valid {plan : TaskPlan} (h : ValidTaskPlan plan) :
    readTaskPlan
      [("version", .number 3), ("title", .str plan.title),
        ("tasks", .arr (plan.tasks.map TaskDefinition.toJson)),
        ("finalValidationCommands",
          .arr (plan.finalValidationCommands.map ValidationCommand.toJson))] = ⟨plan, []⟩ := by
  obtain ⟨hidentity, hdependencies⟩ :=
    checkTasks_clean_iff.mpr ⟨h.wellFormed, h.pattern, h.irreflexive⟩
  have hread : readEach readTask 0 (plan.tasks.map TaskDefinition.toJson) = ⟨plan.tasks, []⟩ :=
    (readEach_encoded_iff (fun _ _ => readTask_toJson_iff) 0).mpr h.tasks
  have hrequired : checkRequiredTasks (some (.arr (plan.tasks.map TaskDefinition.toJson))) =
      ⟨(), []⟩ := by
    cases htasks : plan.tasks with
    | nil => exact absurd htasks h.nonempty
    | cons task rest => rfl
  simp only [readTaskPlan, bind_eq_clean_iff, pure_eq_clean_iff]
  exact ⟨(), rfl, plan.title, readNonEmptyString_str_iff.mpr h.title, (), hrequired, plan.tasks,
    hread, plan.finalValidationCommands,
    readValidationCommands_toJson_iff.mpr ⟨h.commanded, h.finalValidationCommands⟩, (), hidentity,
    (), hdependencies, rfl⟩

end Reading

theorem validateTaskPlan_ok_iff {value : Json} {plan : TaskPlan} :
    validateTaskPlan value = .ok plan ↔ ∃ fields, value = .obj fields ∧
      Reading.readTaskPlan fields = ⟨plan, []⟩ ∧ findCycle plan.nodes = none := by
  constructor
  · intro h
    unfold validateTaskPlan validateTaskPlanResult at h
    split at h
    · next read hread =>
      cases h
      split at hread
      · next fields =>
        dsimp only at hread
        split at hread
        · next hclean =>
          split at hread
          · cases hread
          · next hcycle =>
            cases hread
            have hreading : Reading.readTaskPlan fields =
                ⟨(Reading.readTaskPlan fields).value, (Reading.readTaskPlan fields).issues⟩ := rfl
            rw [hclean] at hreading
            exact ⟨fields, rfl, hreading, hcycle⟩
        · cases hread
      · cases hread
    · cases h
  · rintro ⟨fields, rfl, hread, hcycle⟩
    simp only [validateTaskPlan, validateTaskPlanResult, hread, hcycle, if_true]

/-- An accepted task plan is valid. -/
theorem validateTaskPlan_valid {value : Json} {plan : TaskPlan}
    (h : validateTaskPlan value = .ok plan) : ValidTaskPlan plan := by
  obtain ⟨fields, -, hread, hcycle⟩ := validateTaskPlan_ok_iff.mp h
  exact Reading.readTaskPlan_valid hread hcycle

/-- A valid task plan is accepted as it stands. -/
theorem validateTaskPlan_of_valid {plan : TaskPlan} (h : ValidTaskPlan plan) :
    validateTaskPlan plan.toJson = .ok plan :=
  validateTaskPlan_ok_iff.mpr ⟨_, rfl, Reading.readTaskPlan_of_valid h, h.acyclic⟩

end BuildConductor.Domain
