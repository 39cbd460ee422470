import BuildConductor.Engine.WorkflowState

/-!
# The run timeline

Appending events to the bounded window, and the block events a reconciliation derives.
`src/src/engine/events.ts`.
-/

namespace BuildConductor.Engine

open Base Domain

/-- `MAX_WORKFLOW_EVENTS`. -/
def maxWorkflowEvents : Nat := 2000

/-- Number a list of event bodies from the next sequence on. -/
def numberEvents (sequence : Nat) (timestamp : String) : List WorkflowEventBody → List WorkflowEvent
  | [] => []
  | body :: rest =>
    ⟨sequence + 1, timestamp, body⟩ :: numberEvents (sequence + 1) timestamp rest

/-- Append events, dropping and counting what leaves the window.
`src/src/engine/events.ts:77-99`. -/
def appendWorkflowEvents (state : WorkflowRunState) (bodies : List WorkflowEventBody)
    (timestamp : Timestamp) : WorkflowRunState :=
  if bodies = [] then state
  else
    let events := state.events ++ numberEvents state.eventSequence timestamp.text bodies
    let dropped := events.length - maxWorkflowEvents
    { state with
      events := events.drop dropped
      eventSequence := state.eventSequence + bodies.length
      droppedEvents := state.droppedEvents + dropped }

/-- The entries for the steps that just became blocked, each naming the dependencies that
stopped it. `src/src/engine/events.ts:115-144`. -/
def blockedStepEvents (previous next : WorkflowRunState) : List WorkflowEventBody :=
  next.steps.entries.flatMap fun (stepId, record) =>
    if record.state ≠ .blocked ∨
        (previous.steps.get? stepId).map (fun before => before.state) = some .blocked then []
    else
      [.stepBlocked stepId (record.definition.dependencies.filter fun dependencyId =>
        match next.steps.get? dependencyId with
        | none => true
        | some dependency => dependency.state.isTerminalFailure)]

@[simp] theorem length_numberEvents (sequence : Nat) (timestamp : String)
    (bodies : List WorkflowEventBody) :
    (numberEvents sequence timestamp bodies).length = bodies.length := by
  induction bodies generalizing sequence with
  | nil => rfl
  | cons body rest ih => simp [numberEvents, ih]

/-! ## What an append leaves alone -/

section Append

variable (run : WorkflowRunState) (bodies : List WorkflowEventBody) (now : Timestamp)

/-- An append writes the timeline and its counters only. -/
theorem appendWorkflowEvents_frame : ∃ events dropped, appendWorkflowEvents run bodies now =
    { run with
      events
      eventSequence := run.eventSequence + bodies.length
      droppedEvents := dropped } := by
  unfold appendWorkflowEvents
  split
  · next hnil => exact ⟨run.events, run.droppedEvents, by rw [hnil]; rfl⟩
  · exact ⟨_, _, rfl⟩

@[simp] theorem appendWorkflowEvents_eventSequence :
    (appendWorkflowEvents run bodies now).eventSequence = run.eventSequence + bodies.length := by
  obtain ⟨_, _, h⟩ := appendWorkflowEvents_frame run bodies now
  rw [h]

@[simp] theorem appendWorkflowEvents_id :
    (appendWorkflowEvents run bodies now).id = run.id := by
  obtain ⟨_, _, h⟩ := appendWorkflowEvents_frame run bodies now
  rw [h]

@[simp] theorem appendWorkflowEvents_state :
    (appendWorkflowEvents run bodies now).state = run.state := by
  obtain ⟨_, _, h⟩ := appendWorkflowEvents_frame run bodies now
  rw [h]

@[simp] theorem appendWorkflowEvents_plan :
    (appendWorkflowEvents run bodies now).plan = run.plan := by
  obtain ⟨_, _, h⟩ := appendWorkflowEvents_frame run bodies now
  rw [h]

@[simp] theorem appendWorkflowEvents_repositoryRoot :
    (appendWorkflowEvents run bodies now).repositoryRoot = run.repositoryRoot := by
  obtain ⟨_, _, h⟩ := appendWorkflowEvents_frame run bodies now
  rw [h]

@[simp] theorem appendWorkflowEvents_baseBranch :
    (appendWorkflowEvents run bodies now).baseBranch = run.baseBranch := by
  obtain ⟨_, _, h⟩ := appendWorkflowEvents_frame run bodies now
  rw [h]

@[simp] theorem appendWorkflowEvents_baseCommit :
    (appendWorkflowEvents run bodies now).baseCommit = run.baseCommit := by
  obtain ⟨_, _, h⟩ := appendWorkflowEvents_frame run bodies now
  rw [h]

@[simp] theorem appendWorkflowEvents_integrationBranch :
    (appendWorkflowEvents run bodies now).integrationBranch = run.integrationBranch := by
  obtain ⟨_, _, h⟩ := appendWorkflowEvents_frame run bodies now
  rw [h]

@[simp] theorem appendWorkflowEvents_integrationHead :
    (appendWorkflowEvents run bodies now).integrationHead = run.integrationHead := by
  obtain ⟨_, _, h⟩ := appendWorkflowEvents_frame run bodies now
  rw [h]

@[simp] theorem appendWorkflowEvents_capabilityProfiles :
    (appendWorkflowEvents run bodies now).capabilityProfiles = run.capabilityProfiles := by
  obtain ⟨_, _, h⟩ := appendWorkflowEvents_frame run bodies now
  rw [h]

@[simp] theorem appendWorkflowEvents_authority :
    (appendWorkflowEvents run bodies now).authority = run.authority := by
  obtain ⟨_, _, h⟩ := appendWorkflowEvents_frame run bodies now
  rw [h]

@[simp] theorem appendWorkflowEvents_steps :
    (appendWorkflowEvents run bodies now).steps = run.steps := by
  obtain ⟨_, _, h⟩ := appendWorkflowEvents_frame run bodies now
  rw [h]

@[simp] theorem appendWorkflowEvents_attempts :
    (appendWorkflowEvents run bodies now).attempts = run.attempts := by
  obtain ⟨_, _, h⟩ := appendWorkflowEvents_frame run bodies now
  rw [h]

@[simp] theorem appendWorkflowEvents_maxConcurrentWorkers :
    (appendWorkflowEvents run bodies now).maxConcurrentWorkers = run.maxConcurrentWorkers := by
  obtain ⟨_, _, h⟩ := appendWorkflowEvents_frame run bodies now
  rw [h]

@[simp] theorem appendWorkflowEvents_error :
    (appendWorkflowEvents run bodies now).error = run.error := by
  obtain ⟨_, _, h⟩ := appendWorkflowEvents_frame run bodies now
  rw [h]

@[simp] theorem appendWorkflowEvents_createdAt :
    (appendWorkflowEvents run bodies now).createdAt = run.createdAt := by
  obtain ⟨_, _, h⟩ := appendWorkflowEvents_frame run bodies now
  rw [h]

@[simp] theorem appendWorkflowEvents_updatedAt :
    (appendWorkflowEvents run bodies now).updatedAt = run.updatedAt := by
  obtain ⟨_, _, h⟩ := appendWorkflowEvents_frame run bodies now
  rw [h]

end Append

end BuildConductor.Engine
