import BuildConductor.Domain.Scheduler
import BuildConductor.Storage.WorkflowStateStore

/-!
# The run store

The complete check a stored run passes at every read and before every write. A typed run already
has the field types the source tests for, so the tests on types leave no trace here; every test on
values is kept, in order. `src/src/storage/run-store.ts:189-1430`.
-/

namespace BuildConductor.Storage.RunStore

open Base Domain Security

/-- `assertString` on a field that may be absent. -/
def assertPresent (value : Option String) (path : String) : Except String Unit :=
  ensure (value ≠ none ∧ value ≠ some "") s!"{path} must be a non-empty string"

/-! ## Tasks -/

/-- The checks on one task record. `src/src/storage/run-store.ts:384-420`. -/
def validateTask (tasks : OrderedRecord String RunTask) (definition : TaskDefinition) :
    Except String Unit := do
  let id := definition.id
  let task ← require (tasks.get? id) s!"Invalid state for task {id}"
  ensure (task.definition = definition) s!"Task definition does not match plan for {id}"
  assertOptionalString task.integratedCommit s!"run.tasks.{id}.integratedCommit"
  assertOptionalString task.integrationError s!"run.tasks.{id}.integrationError"
  ensure (task.integratedCommit = none ∨ task.integrationError = none)
    s!"Task {id} cannot have both an integrated commit and integration error"
  ensure (task.integratedCommit = none ∨ task.state = .succeeded)
    s!"Integrated task {id} must be succeeded"
  ensure (task.integrationError = none ∨ task.state = .failed)
    s!"Task {id} has an integration error without failing"

/-- `src/src/storage/run-store.ts:377-421`. -/
def validateTasks (run : OrchestrationRun) (plan : TaskPlan) : Except String Unit := do
  ensure (run.tasks.keys.length = plan.tasks.length)
    "run.tasks must contain exactly the plan tasks"
  forM plan.tasks (validateTask run.tasks)

/-- Every record of a checked run is that of a task of the plan, and passed its check. -/
theorem validateTasks_checked {run : OrchestrationRun} {plan : TaskPlan} (hplan : ValidTaskPlan plan)
    (h : validateTasks run plan = .ok ()) {id : String} (hid : id ∈ run.tasks.keys) :
    ∃ definition ∈ plan.tasks, definition.id = id ∧ validateTask run.tasks definition = .ok () := by
  unfold validateTasks at h
  rw [seq_ok_iff, ensure_ok_iff, forM_ok_iff] at h
  obtain ⟨hcount, htasks⟩ := h
  have hids : Node.ids plan.nodes = plan.tasks.map (·.id) := List.map_map
  have hnodup : (plan.tasks.map (·.id)).Nodup := by
    rw [← hids]
    exact hplan.wellFormed.nodup_ids
  have hsubset : plan.tasks.map (·.id) ⊆ run.tasks.keys := by
    intro known hknown
    obtain ⟨definition, hdefinition, rfl⟩ := List.mem_map.mp hknown
    have hchecked := htasks definition hdefinition
    unfold validateTask at hchecked
    simp only [bind_ok_iff, require_ok_iff] at hchecked
    obtain ⟨task, hget, -⟩ := hchecked
    rw [OrderedRecord.mem_keys_iff, hget]
    rfl
  have hperm : (plan.tasks.map (·.id)).Perm run.tasks.keys := by
    apply (hnodup.subperm hsubset).perm_of_length_le
    rw [hcount, List.length_map]
  rw [← hperm.mem_iff] at hid
  obtain ⟨definition, hdefinition, hsame⟩ := List.mem_map.mp hid
  exact ⟨definition, hdefinition, hsame, htasks definition hdefinition⟩

/-! ## Task attempts -/

/-- The evidence of a commit. `src/src/storage/run-store.ts:485-495`. -/
def validateCommitEvidence (evidence : Option TaskValidationEvidence) (commit : Option String)
    (path : String) : Except String Unit := do
  match evidence with
  | none => pure ()
  | some evidence => validateStoredEvidence evidence s!"{path}.evidence"
  ensure (commit = none ∨ evidence.map (·.passed) = some true)
    s!"{path} has a commit without passing validation evidence"

/-- The checks on one attempt, against the attempts before it.
`src/src/storage/run-store.ts:441-504`. -/
def validateAttempt (plan : TaskPlan) (before : List TaskAttempt) (attempt : TaskAttempt) :
    Except String Unit := do
  let path := s!"run.attempts[{before.length}]"
  assertString attempt.id s!"{path}.id"
  assertString attempt.taskId s!"{path}.taskId"
  assertString attempt.branch s!"{path}.branch"
  assertString attempt.worktreePath s!"{path}.worktreePath"
  assertString attempt.baseCommit s!"{path}.baseCommit"
  assertString attempt.startedAt s!"{path}.startedAt"
  ensure (attempt.taskId ∈ plan.tasks.map (·.id)) s!"{path}.taskId references an unknown task"
  ensure (1 ≤ attempt.number) s!"{path}.number must be a positive integer"
  ensure ((attempt.taskId, attempt.number) ∉ before.map fun earlier => (earlier.taskId, earlier.number))
    s!"Duplicate attempt number {attempt.number} for task {attempt.taskId}"
  validateCommitEvidence attempt.evidence attempt.commit path
  if attempt.state = .succeeded then do
    assertPresent attempt.finishedAt s!"{path}.finishedAt"
    assertPresent attempt.commit s!"{path}.commit"
  else pure ()
  ensure (attempt.id ∉ before.map (·.id)) s!"Duplicate attempt id: {attempt.id}"

/-- `src/src/storage/run-store.ts:436-504`. -/
def validateAttempts (run : OrchestrationRun) (plan : TaskPlan) : Except String Unit :=
  forEachAfter (validateAttempt plan) [] run.attempts

end BuildConductor.Storage.RunStore
