import BuildConductor.Domain.PlanTranslation
import BuildConductor.Engine.Launches
import BuildConductor.Planning.Scopes
import BuildConductor.Storage.RunStore

/-!
# The engine scheduler refines the scheduler of task runs

On a translated task plan whose unordered tasks share no path, no lock ever keeps a ready step
back and every step takes a worker slot, so both schedulers give the same states and start the same
work. `src/src/domain/scheduler.ts`, `src/src/engine/scheduler.ts`.
-/

namespace BuildConductor.Engine

open Base Domain Security Planning Storage

/-- The status of a step that stands for a task: validating is part of running. -/
def stepStateOf : TaskState → StepRunState
  | .planned => .planned
  | .ready => .ready
  | .running | .validating => .running
  | .succeeded => .succeeded
  | .failed => .failed
  | .blocked => .blocked
  | .cancelled => .cancelled

/-- A step record stands for a task. -/
structure StandsFor (task : RunTask) (record : WorkflowStepRecord) : Prop where
  definition : record.definition = task.definition.toStep
  state : record.state = stepStateOf task.state
  integrated : record.integratedCommit.isSome = task.integratedCommit.isSome

/-- A workflow state over the translated plan of a task run, with the same tasks, live attempts and
worker limit, and the default profiles. -/
structure Corresponds (run : OrchestrationRun) (state : WorkflowRunState) : Prop where
  running : run.state = .running ∧ state.state = .running
  plan : translateLegacyTaskPlan run.plan.toJson = .ok state.plan
  profiles : state.capabilityProfiles = defaultCapabilityProfiles
  workers : state.maxConcurrentWorkers = run.maxConcurrentWorkers
  tasks : OrderedRecord.Pointwise (fun _ => StandsFor) run.tasks state.steps
  attempts : (activeStepIds state).Perm (tasksWithActiveAttempts run)

/-- The commit of a dependency is integrated. -/
def Integrated (tasks : OrderedRecord String RunTask) (id : String) : Prop :=
  ∃ task, tasks.get? id = some task ∧ task.integratedCommit.isSome

/-- No task has failed, and what a started task depends on is integrated. -/
structure Undisturbed (run : OrchestrationRun) : Prop where
  clean : ∀ id task, run.tasks.get? id = some task → task.state.isTerminalFailure = false
  started : ∀ id task, run.tasks.get? id = some task → task.state.isStarted = true →
    ∀ d ∈ task.definition.dependencies, Integrated run.tasks d

/-! ## Tasks of a stored run -/

/-- What the stored checks say about the tasks of a run. -/
structure TasksOf (plan : TaskPlan) (tasks : OrderedRecord String RunTask) : Prop where
  keys : ∀ id, id ∈ tasks.keys ↔ id ∈ Node.ids plan.nodes
  definition : ∀ id task, tasks.get? id = some task →
    task.definition ∈ plan.tasks ∧ task.definition.id = id
  integrated : ∀ id task, tasks.get? id = some task → task.integratedCommit.isSome →
    task.state = .succeeded ∧ task.integratedCommit ≠ some ""

theorem validateTasks_tasksOf {run : OrchestrationRun} {plan : TaskPlan} (hplan : ValidTaskPlan plan)
    (h : RunStore.validateTasks run plan = .ok ()) : TasksOf plan run.tasks := by
  have hids : Node.ids plan.nodes = plan.tasks.map (·.id) := List.map_map
  have hknown : ∀ id task, run.tasks.get? id = some task →
      task.definition ∈ plan.tasks ∧ task.definition.id = id ∧ task.integratedCommit ≠ some "" ∧
      (task.integratedCommit = none ∨ task.state = .succeeded) := by
    intro id task hget
    have hid : id ∈ run.tasks.keys := by
      rw [OrderedRecord.mem_keys_iff, hget]
      rfl
    obtain ⟨definition, hdefinition, rfl, hchecked⟩ := RunStore.validateTasks_checked hplan h hid
    simp only [RunStore.validateTask, bind_ok_iff, require_ok_iff, exists_unit_iff, ensure_ok_iff,
      assertOptionalString] at hchecked
    obtain ⟨found, hfound, rfl, hcommit, -, -, hstate, -⟩ := hchecked
    rw [hget, Option.some.injEq] at hfound
    subst hfound
    exact ⟨hdefinition, rfl, hcommit, hstate⟩
  refine ⟨fun id => ?_, ?_, ?_⟩
  · constructor
    · intro hid
      rw [OrderedRecord.mem_keys_iff, Option.isSome_iff_exists] at hid
      obtain ⟨task, hget⟩ := hid
      obtain ⟨hmem, rfl, -⟩ := hknown id task hget
      rw [hids]
      exact List.mem_map_of_mem hmem
    · intro hid
      rw [hids] at hid
      obtain ⟨definition, hdefinition, rfl⟩ := List.mem_map.mp hid
      unfold RunStore.validateTasks at h
      rw [seq_ok_iff, forM_ok_iff] at h
      have hchecked := h.2 definition hdefinition
      simp only [RunStore.validateTask, bind_ok_iff, require_ok_iff] at hchecked
      obtain ⟨task, hget, -⟩ := hchecked
      rw [OrderedRecord.mem_keys_iff, hget]
      rfl
  · intro id task hget
    have hfacts := hknown id task hget
    exact ⟨hfacts.1, hfacts.2.1⟩
  · intro id task hget hsome
    obtain ⟨-, -, hne, hstate⟩ := hknown id task hget
    refine ⟨?_, hne⟩
    rcases hstate with hnone | hstate
    · rw [hnone] at hsome
      cases hsome
    · exact hstate

theorem validateAttempts_known {run : OrchestrationRun} {plan : TaskPlan}
    (h : RunStore.validateAttempts run plan = .ok ()) :
    ∀ attempt ∈ run.attempts, attempt.taskId ∈ Node.ids plan.nodes := by
  intro attempt hattempt
  obtain ⟨before, after, hsplit⟩ := List.append_of_mem hattempt
  have hchecked := forEachAfter_ok_iff.mp h before attempt after hsplit
  simp only [RunStore.validateAttempt, bind_ok_iff, exists_unit_iff, ensure_ok_iff] at hchecked
  have hids : Node.ids plan.nodes = plan.tasks.map (·.id) := List.map_map
  rw [hids]
  exact hchecked.2.2.2.2.2.2.1

/-- The ids of a valid plan are not empty. -/
theorem ids_ne_empty {plan : TaskPlan} (hplan : ValidTaskPlan plan) :
    ∀ n ∈ plan.nodes, n.id ≠ "" := by
  intro n hn hempty
  obtain ⟨definition, hmem, rfl⟩ := List.mem_map.mp hn
  have hpattern := hplan.pattern definition hmem
  rw [show definition.id = "" from hempty] at hpattern
  revert hpattern
  decide

/-! ## Translated tasks under the default profiles -/

@[simp] theorem stepPathLocks_toStep (task : TaskDefinition) :
    stepPathLocks task.toStep = task.allowedPaths := rfl

@[simp] theorem stepResourceLocks_toStep (task : TaskDefinition) :
    stepResourceLocks task.toStep = [] := rfl

/-- A translated task takes a worker slot. -/
theorem stepConsumesWorkerSlot_toStep (task : TaskDefinition) :
    stepConsumesWorkerSlot defaultCapabilityProfiles task.toStep = true := rfl

/-- A translated task is integrated. -/
theorem stepRequiresIntegration_toStep (task : TaskDefinition) :
    stepRequiresIntegration defaultCapabilityProfiles task.toStep = true := rfl

/-- The two overlap tests are one. -/
theorem pathLocksConflict_eq (left right : String) :
    pathLocksConflict left right = mutationScopesOverlap left right := rfl

/-! ## One pass gives corresponding states -/

/-- Task records and step records that stand for each other, over the tasks of a plan, with nothing
failed. -/
structure Paired (plan : TaskPlan) (tasks : OrderedRecord String RunTask)
    (steps : OrderedRecord String WorkflowStepRecord) : Prop where
  table : TasksOf plan tasks
  clean : ∀ id task, tasks.get? id = some task → task.state.isTerminalFailure = false
  stands : OrderedRecord.Pointwise (fun _ => StandsFor) tasks steps

section Pass

variable {plan : TaskPlan} {tasks : OrderedRecord String RunTask}
  {steps : OrderedRecord String WorkflowStepRecord}

/-- The dependencies of a recorded task are recorded. -/
theorem Paired.dependency (hplan : ValidTaskPlan plan) (h : Paired plan tasks steps) {id : String}
    {task : RunTask} (htask : tasks.get? id = some task) {d : String}
    (hd : d ∈ task.definition.dependencies) :
    ∃ dependency record, tasks.get? d = some dependency ∧ steps.get? d = some record ∧
      StandsFor dependency record := by
  have hnode : task.definition.node ∈ plan.nodes :=
    List.mem_map_of_mem (h.table.definition id task htask).1
  have hkey : d ∈ tasks.keys := (h.table.keys d).mpr (hplan.wellFormed.known _ hnode d hd)
  rw [OrderedRecord.mem_keys_iff] at hkey
  obtain ⟨dependency, hdependency⟩ := Option.isSome_iff_exists.mp hkey
  obtain ⟨record, hrecord, hstands⟩ := h.stands.right hdependency
  exact ⟨dependency, record, hdependency, hrecord, hstands⟩

/-- A dependency unblocks in both schedulers or in neither. -/
private theorem satisfies_eq (h : Paired plan tasks steps) {d : String} {dependency : RunTask}
    {record : WorkflowStepRecord} (hdependency : tasks.get? d = some dependency)
    (hstands : StandsFor dependency record) :
    stepSatisfiesDependents defaultCapabilityProfiles record =
      (present dependency.integratedCommit).isSome := by
  unfold stepSatisfiesDependents
  rw [hstands.definition, stepRequiresIntegration_toStep, hstands.state, hstands.integrated]
  cases hcommit : dependency.integratedCommit with
  | none => simp [present]
  | some commit =>
    obtain ⟨hstate, hne⟩ := h.table.integrated d dependency hdependency (by rw [hcommit]; rfl)
    rw [hcommit] at hne
    rw [hstate]
    simpa [present, stepStateOf, Option.filter] using hne

private theorem readiness_ne_blocked {profiles : RunCapabilityProfiles} {definition : StepDefinition}
    (h : ∀ d ∈ definition.dependencies, ∃ dependency, steps.get? d = some dependency ∧
      dependency.state.isTerminalFailure = false) :
    readiness profiles definition steps ≠ .blocked := by
  unfold readiness
  split
  · next hany =>
    obtain ⟨d, hd, hfailed⟩ := List.any_eq_true.mp hany
    obtain ⟨dependency, hget, hfree⟩ := h d hd
    simp only [hget, hfree] at hfailed
    cases hfailed
  · split <;> simp

/-- A waiting task with recorded dependencies, none of them failed, is ready or planned. -/
private theorem nextState_waiting {task : RunTask} (hkept : task.state.isKept = false)
    (h : ∀ d ∈ task.definition.dependencies, ∃ dependency, tasks.get? d = some dependency ∧
      dependency.state.isTerminalFailure = false) :
    (nextState task tasks = .ready ∧ ∀ d ∈ task.definition.dependencies, ∀ dependency,
        tasks.get? d = some dependency → (present dependency.integratedCommit).isSome) ∨
      (nextState task tasks = .planned ∧ ∃ d ∈ task.definition.dependencies, ∃ dependency,
        tasks.get? d = some dependency ∧ (present dependency.integratedCommit).isSome = false) := by
  unfold nextState
  rw [hkept, if_neg Bool.false_ne_true]
  split
  · next hany =>
    obtain ⟨d, hd, hfailed⟩ := List.any_eq_true.mp hany
    obtain ⟨dependency, hget, hfree⟩ := h d hd
    simp only [hget, hfree] at hfailed
    cases hfailed
  · split
    · next hall =>
      refine Or.inl ⟨rfl, ?_⟩
      intro d hd dependency hget
      have hsatisfied := List.all_eq_true.mp hall d hd
      rwa [hget, Option.bind_some] at hsatisfied
    · next hsome =>
      rw [List.all_eq_true] at hsome
      push Not at hsome
      obtain ⟨d, hd, hmissing⟩ := hsome
      obtain ⟨dependency, hget, -⟩ := h d hd
      refine Or.inr ⟨rfl, d, hd, dependency, hget, ?_⟩
      rw [hget, Option.bind_some] at hmissing
      simpa using hmissing

/-- One task and its step take corresponding states, and nothing newly fails. -/
private theorem next_eq (hplan : ValidTaskPlan plan) (h : Paired plan tasks steps) {id : String}
    {task : RunTask} {record : WorkflowStepRecord} (htask : tasks.get? id = some task)
    (hstands : StandsFor task record) :
    nextStepState defaultCapabilityProfiles record steps = stepStateOf (nextState task tasks) ∧
      (nextState task tasks).isTerminalFailure = false := by
  have hclean := h.clean id task htask
  cases hkept : task.state.isKept with
  | true =>
    have hnext : nextState task tasks = task.state := by
      unfold nextState
      rw [if_pos hkept]
    have hsettled : record.state.isWaiting = false := by
      rw [hstands.state]
      cases hstate : task.state <;> simp_all [TaskState.isTerminalFailure, TaskState.isKept,
        stepStateOf, StepRunState.isWaiting]
    rw [hnext, nextStepState_of_not_waiting hsettled]
    exact ⟨hstands.state, hclean⟩
  | false =>
    have hwaiting : record.state.isWaiting = true := by
      rw [hstands.state]
      cases hstate : task.state <;> simp_all [TaskState.isTerminalFailure, TaskState.isKept,
        stepStateOf, StepRunState.isWaiting]
    have hdependencies : record.definition.dependencies = task.definition.dependencies := by
      rw [hstands.definition, TaskDefinition.toStep_dependencies]
    have hfree : ∀ d ∈ record.definition.dependencies, ∃ dependency,
        steps.get? d = some dependency ∧ dependency.state.isTerminalFailure = false := by
      intro d hd
      rw [hdependencies] at hd
      obtain ⟨dependency, found, hdependency, hfound, hpair⟩ := h.dependency hplan htask hd
      have hunfailed := h.clean d dependency hdependency
      refine ⟨found, hfound, ?_⟩
      rw [hpair.state]
      cases hstate : dependency.state <;> simp_all [TaskState.isTerminalFailure, stepStateOf,
        StepRunState.isTerminalFailure]
    rw [nextStepState_of_waiting hwaiting]
    have hknown : ∀ d ∈ task.definition.dependencies, ∃ dependency,
        tasks.get? d = some dependency ∧ dependency.state.isTerminalFailure = false := by
      intro d hd
      obtain ⟨dependency, _, hdependency, -, -⟩ := h.dependency hplan htask hd
      exact ⟨dependency, hdependency, h.clean d dependency hdependency⟩
    rcases nextState_waiting hkept hknown with ⟨hready, hall⟩ | ⟨hplanned, d, hd, missing, hget, hnone⟩
    · rw [hready]
      refine ⟨?_, rfl⟩
      show _ = StepRunState.ready
      rw [readiness_ready_iff]
      intro d hd
      rw [hdependencies] at hd
      obtain ⟨dependency, found, hdependency, hfound, hpair⟩ := h.dependency hplan htask hd
      refine ⟨found, hfound, ?_⟩
      rw [satisfies_eq h hdependency hpair]
      exact hall d hd dependency hdependency
    · rw [hplanned]
      refine ⟨?_, rfl⟩
      show _ = StepRunState.planned
      rcases readiness_cases defaultCapabilityProfiles record.definition steps with
        hstate | hstate | hstate
      · exact hstate
      · rw [← hdependencies] at hd
        obtain ⟨found, hfound, hsatisfied⟩ := readiness_ready_iff.mp hstate d hd
        obtain ⟨dependency, hdependency, hpair⟩ := h.stands.left hfound
        rw [satisfies_eq h hdependency hpair] at hsatisfied
        rw [hget, Option.some.injEq] at hdependency
        rw [← hdependency, hnone] at hsatisfied
        cases hsatisfied
      · exact absurd hstate (readiness_ne_blocked hfree)

/-- One task and its step keep their pairing. -/
private theorem Paired.step (hplan : ValidTaskPlan plan) (h : Paired plan tasks steps)
    (id : String) :
    Paired plan (reconcileTask tasks id) (reconcileStep defaultCapabilityProfiles steps id) := by
  unfold reconcileTask reconcileStep
  cases htask : tasks.get? id with
  | none =>
    have hrel := h.stands id
    rw [htask] at hrel
    cases hstep : steps.get? id with
    | none => exact h
    | some record =>
      rw [hstep] at hrel
      cases hrel
  | some task =>
    obtain ⟨record, hrecord, hstands⟩ := h.stands.right htask
    rw [hrecord]
    obtain ⟨hstate, hclean⟩ := next_eq hplan h htask hstands
    have hkey : id ∈ tasks.keys := by
      rw [OrderedRecord.mem_keys_iff, htask]
      rfl
    refine ⟨⟨?_, ?_, ?_⟩, ?_, ?_⟩
    · intro x
      rw [OrderedRecord.keys_set_of_mem _ _ _ hkey]
      exact h.table.keys x
    · intro x found hfound
      rw [OrderedRecord.get?_set] at hfound
      split at hfound
      · next hx =>
        cases hfound
        rw [hx]
        exact h.table.definition id task htask
      · exact h.table.definition x found hfound
    · intro x found hfound hsome
      rw [OrderedRecord.get?_set] at hfound
      split at hfound
      · cases hfound
        obtain ⟨hsucceeded, hne⟩ := h.table.integrated id task htask hsome
        refine ⟨?_, hne⟩
        simp [nextState, hsucceeded, TaskState.isKept]
      · exact h.table.integrated x found hfound hsome
    · intro x found hfound
      rw [OrderedRecord.get?_set] at hfound
      split at hfound
      · cases hfound
        exact hclean
      · exact h.clean x found hfound
    · intro x
      rw [OrderedRecord.get?_set, OrderedRecord.get?_set]
      split
      · exact Option.Rel.some ⟨hstands.definition, hstate, hstands.integrated⟩
      · exact h.stands x

private theorem Paired.foldl (hplan : ValidTaskPlan plan) (h : Paired plan tasks steps)
    (ids : List String) :
    Paired plan (ids.foldl reconcileTask tasks)
      (ids.foldl (reconcileStep defaultCapabilityProfiles) steps) := by
  induction ids generalizing tasks steps with
  | nil => exact h
  | cons id rest ih => exact ih (h.step hplan id)

end Pass

/-! ## One pass launches the same work -/

section Launch

variable {run reconciled : OrchestrationRun} {state : WorkflowRunState} {plan : TaskPlan}

/-- The steps a pass holds running are the running tasks. -/
private theorem perm_untracked (hpair : Paired plan reconciled.tasks state.steps)
    (hactive : (activeStepIds state).Perm (tasksWithActiveAttempts reconciled)) :
    (untrackedRunning state).Perm (untrackedRunningTasks reconciled) := by
  have hsteps : (untrackedRunning state).Nodup :=
    state.steps.nodup.sublist (List.Sublist.map _ List.filter_sublist)
  have htasks : (untrackedRunningTasks reconciled).Nodup :=
    reconciled.tasks.nodup.sublist (List.Sublist.map _ List.filter_sublist)
  rw [List.perm_ext_iff_of_nodup hsteps htasks]
  intro id
  have hrunning : ∀ task record, StandsFor task record →
      (record.state = .running ↔ task.state.isRunning = true) := by
    intro task record hstands
    rw [hstands.state]
    cases task.state <;> simp [stepStateOf, TaskState.isRunning]
  simp only [untrackedRunning, untrackedRunningTasks, List.mem_map, List.mem_filter, Prod.exists,
    Bool.and_eq_true, decide_eq_true_eq, exists_and_right, exists_eq_right,
    OrderedRecord.mem_entries_iff]
  rw [← List.mem_map, show id ∈ (activeAttempts state).map (·.stepId) ↔ _ from hactive.mem_iff]
  constructor
  · rintro ⟨record, hrecord, hstate, hfree⟩
    obtain ⟨task, htask, hstands⟩ := hpair.stands.left hrecord
    exact ⟨task, htask, (hrunning task record hstands).mp hstate, hfree⟩
  · rintro ⟨task, htask, hstate, hfree⟩
    obtain ⟨record, hrecord, hstands⟩ := hpair.stands.right htask
    exact ⟨record, hrecord, (hrunning task record hstands).mpr hstate, hfree⟩

/-- Every recorded step takes a worker slot. -/
private theorem consumesSlot_of_mem (hprofiles : state.capabilityProfiles = defaultCapabilityProfiles)
    (hpair : Paired plan reconciled.tasks state.steps) {id : String}
    (hid : id ∈ Node.ids plan.nodes) : consumesSlot state id = true := by
  rw [← hpair.table.keys id, OrderedRecord.mem_keys_iff] at hid
  obtain ⟨task, htask⟩ := Option.isSome_iff_exists.mp hid
  obtain ⟨record, hrecord, hstands⟩ := hpair.stands.right htask
  unfold consumesSlot
  rw [hrecord, hprofiles]
  show stepConsumesWorkerSlot defaultCapabilityProfiles record.definition = true
  rw [hstands.definition, stepConsumesWorkerSlot_toStep]

/-- The free slots are counted alike. -/
private theorem capacity_eq (hprofiles : state.capabilityProfiles = defaultCapabilityProfiles)
    (hworkers : state.maxConcurrentWorkers = reconciled.maxConcurrentWorkers)
    (hpair : Paired plan reconciled.tasks state.steps)
    (hactive : (activeStepIds state).Perm (tasksWithActiveAttempts reconciled))
    (hknown : ∀ id ∈ tasksWithActiveAttempts reconciled, id ∈ Node.ids plan.nodes) :
    (launchRules state).capacity = availableTaskSlots reconciled := by
  have huntracked := perm_untracked hpair hactive
  have hslots : ∀ attempt ∈ activeAttempts state, consumesSlot state attempt.stepId = true := by
    intro attempt hattempt
    apply consumesSlot_of_mem hprofiles hpair
    exact hknown _ (hactive.mem_iff.mp (List.mem_map_of_mem hattempt))
  have hrunning : ∀ id ∈ untrackedRunning state, consumesSlot state id = true := by
    intro id hid
    apply consumesSlot_of_mem hprofiles hpair
    obtain ⟨entry, hentry, rfl⟩ := List.mem_map.mp hid
    have hget := (state.steps.mem_entries_iff entry.1 entry.2).mp (List.mem_of_mem_filter hentry)
    obtain ⟨task, htask, -⟩ := hpair.stands.left hget
    rw [← hpair.table.keys, OrderedRecord.mem_keys_iff, htask]
    rfl
  have hlength := hactive.length_eq
  unfold activeStepIds at hlength
  rw [List.length_map] at hlength
  show state.maxConcurrentWorkers - occupiedSlots state = _
  unfold occupiedSlots availableTaskSlots
  rw [List.filter_eq_self.mpr hslots, List.filter_eq_self.mpr hrunning, huntracked.length_eq, hlength,
    hworkers]
  omega

/-- Both schedulers find the same work to start. -/
private theorem isStartable_eq (hpair : Paired plan reconciled.tasks state.steps)
    (hactive : (activeStepIds state).Perm (tasksWithActiveAttempts reconciled)) (id : String) :
    isStartable state id = isLaunchable reconciled id := by
  have hmem : (id ∉ activeStepIds state) = (id ∉ tasksWithActiveAttempts reconciled) := by
    rw [hactive.mem_iff]
  unfold isStartable isLaunchable
  cases htask : reconciled.tasks.get? id with
  | none =>
    have hrel := hpair.stands id
    rw [htask] at hrel
    cases hstep : state.steps.get? id with
    | none => simp
    | some record =>
      rw [hstep] at hrel
      cases hrel
  | some task =>
    obtain ⟨record, hrecord, hstands⟩ := hpair.stands.right htask
    have hready : record.state = .ready ↔ task.state = .ready := by
      rw [hstands.state]
      cases task.state <;> simp [stepStateOf]
    simp only [hrecord, Option.map_some, Option.some.injEq, hready, hmem]

/-! ### No lock keeps a ready step back -/

/-- What an unblocked dependency says: it succeeded and its commit is integrated. -/
def Unblocks (state : WorkflowRunState) (id : String) : Prop :=
  ∃ record, state.steps.get? id = some record ∧
    stepSatisfiesDependents state.capabilityProfiles record = true

/-- Where whatever ran or is ready had its dependencies unblocked, everything it depends on has
succeeded. -/
private theorem unblocks_of_reaches (hplan : ValidTaskPlan plan)
    (hpair : Paired plan reconciled.tasks state.steps)
    (hstarted : ∀ id record, state.steps.get? id = some record → record.state = .succeeded →
      ∀ d ∈ record.definition.dependencies, Unblocks state d)
    {id other : String} {record : WorkflowStepRecord} (hrecord : state.steps.get? id = some record)
    (hdependencies : ∀ d ∈ record.definition.dependencies, Unblocks state d)
    (hreaches : Reaches plan.nodes id other) : Unblocks state other := by
  have hedge : ∀ {x d : String} {found : WorkflowStepRecord}, Edge plan.nodes x d →
      state.steps.get? x = some found → d ∈ found.definition.dependencies := by
    rintro x d found ⟨n, hn, rfl, hd⟩ hfound
    obtain ⟨definition, hdefinition, rfl⟩ := List.mem_map.mp hn
    obtain ⟨task, htask, hstands⟩ := hpair.stands.left hfound
    obtain ⟨hmem, hid⟩ := hpair.table.definition _ task htask
    have hsame : task.definition = definition := by
      have hnode : task.definition.node = definition.node :=
        List.inj_on_of_nodup_map hplan.wellFormed.nodup_ids (List.mem_map_of_mem hmem) hn hid
      have hids : (plan.tasks.map fun t => t.id).Nodup := by
        have hnodup := hplan.wellFormed.nodup_ids
        unfold Node.ids TaskPlan.nodes at hnodup
        rwa [List.map_map] at hnodup
      exact List.inj_on_of_nodup_map hids hmem hdefinition hid
    rw [hstands.definition, TaskDefinition.toStep_dependencies, hsame]
    exact hd
  induction hreaches with
  | single hstep => exact hdependencies _ (hedge hstep hrecord)
  | tail _ hstep ih =>
    obtain ⟨found, hfound, hsatisfied⟩ := ih
    have hsucceeded : found.state = .succeeded := by
      unfold stepSatisfiesDependents at hsatisfied
      rw [Bool.and_eq_true] at hsatisfied
      simpa using hsatisfied.1
    exact hstarted _ found hfound hsucceeded _ (hedge hstep hfound)

/-- Steps that are ready or run hold no lock in conflict. -/
private theorem idsConflict_eq_false (hplan : ValidTaskPlan plan) (hscopes : ScopesDisjoint plan)
    (hpair : Paired plan reconciled.tasks state.steps)
    (hunblocked : ∀ id record, state.steps.get? id = some record →
      record.state = .ready ∨ record.state = .running ∨ record.state = .succeeded →
      ∀ d ∈ record.definition.dependencies, Unblocks state d)
    {id other : String} {record found : WorkflowStepRecord} (hne : id ≠ other)
    (hrecord : state.steps.get? id = some record) (hfound : state.steps.get? other = some found)
    (hstate : record.state = .ready ∨ record.state = .running)
    (hother : found.state = .ready ∨ found.state = .running) :
    idsConflict state id other = false := by
  have hunreached : ∀ {x y : String} {first second : WorkflowStepRecord},
      state.steps.get? x = some first → state.steps.get? y = some second →
      first.state = .ready ∨ first.state = .running →
      second.state = .ready ∨ second.state = .running → ¬ Reaches plan.nodes x y := by
    intro x y first second hfirst hsecond hx hy hreaches
    have hdependencies := hunblocked x first hfirst (hx.imp_right Or.inl)
    obtain ⟨reached, hreached, hsatisfied⟩ := unblocks_of_reaches hplan hpair
      (fun z known hknown hz => hunblocked z known hknown (Or.inr (Or.inr hz))) hfirst hdependencies
      hreaches
    rw [hsecond, Option.some.injEq] at hreached
    unfold stepSatisfiesDependents at hsatisfied
    rw [Bool.and_eq_true, ← hreached] at hsatisfied
    have hsucceeded : second.state = .succeeded := by simpa using hsatisfied.1
    rw [hsucceeded] at hy
    simp at hy
  obtain ⟨task, htask, hstands⟩ := hpair.stands.left hrecord
  obtain ⟨second, hsecond, hsecondstands⟩ := hpair.stands.left hfound
  obtain ⟨hmem, hid⟩ := hpair.table.definition id task htask
  obtain ⟨hmem', hid'⟩ := hpair.table.definition other second hsecond
  have hdisjoint := hscopes _ hmem _ hmem' (by rwa [hid, hid'])
    (by rw [hid, hid']; exact hunreached hrecord hfound hstate hother)
    (by rw [hid, hid']; exact hunreached hfound hrecord hother hstate)
  unfold idsConflict
  rw [hrecord, hfound]
  show stepsConflict record.definition found.definition = false
  rw [hstands.definition, hsecondstands.definition, stepsConflict_eq_false_iff]
  refine ⟨?_, by simp⟩
  intro l hl r hr
  rw [pathLocksConflict_eq]
  exact hdisjoint l hl r hr

end Launch

/-- After a pass, whatever is ready or ran has its dependencies unblocked. -/
private theorem unblocked_after_pass {run : OrchestrationRun} {state : WorkflowRunState}
    {plan : TaskPlan} (hplan : ValidTaskPlan plan) (hplanned : state.plan = plan.translated)
    (hprofiles : state.capabilityProfiles = defaultCapabilityProfiles)
    (hpair : Paired plan run.tasks state.steps) (hrun : Undisturbed run) {id : String}
    {record : WorkflowStepRecord}
    (hrecord : (reconcileWorkflowSteps state).steps.get? id = some record)
    (hstate : record.state = .ready ∨ record.state = .running ∨ record.state = .succeeded) :
    ∀ d ∈ record.definition.dependencies, Unblocks (reconcileWorkflowSteps state) d := by
  obtain ⟨before, hbefore, hsame, -⟩ := reconcile_record hrecord
  have hdefinition : record.definition = before.definition := by rw [hsame]
  obtain ⟨task, htask, hstands⟩ := hpair.stands.left hbefore
  rw [hdefinition]
  cases hwaiting : before.state.isWaiting with
  | false =>
    -- a task that ran: the run says its dependencies are integrated
    have hkept := reconcile_keeps hbefore hwaiting
    rw [hrecord, Option.some.injEq] at hkept
    have hstarted : task.state.isStarted = true := by
      rw [hkept, hstands.state] at hstate
      rw [hstands.state] at hwaiting
      revert hstate hwaiting
      cases task.state <;> decide
    intro d hd
    rw [hstands.definition, TaskDefinition.toStep_dependencies] at hd
    obtain ⟨dependency, hdependency, hcommit⟩ := hrun.started id task htask hstarted d hd
    obtain ⟨found, hfound, hpaired⟩ := hpair.stands.right hdependency
    obtain ⟨hsucceeded, hne⟩ := hpair.table.integrated d dependency hdependency hcommit
    have hsettled : found.state.isWaiting = false := by
      rw [hpaired.state, hsucceeded]
      rfl
    refine ⟨found, reconcile_keeps hfound hsettled, ?_⟩
    show stepSatisfiesDependents state.capabilityProfiles found = true
    rw [hprofiles, satisfies_eq hpair hdependency hpaired]
    obtain ⟨commit, hcommit⟩ := Option.isSome_iff_exists.mp hcommit
    rw [hcommit] at hne ⊢
    simpa [present, Option.filter] using hne
  | true =>
    -- a waiting step: the pass left it ready only with its dependencies unblocked
    have hlinear := topologicalIds_linearizes hplan.wellFormed (ids_ne_empty hplan)
      (acyclic_of_findCycle hplan.wellFormed hplan.acyclic)
    have horder : topologicalStepIds state.plan = topologicalIds plan.nodes := by
      unfold topologicalStepIds
      rw [hplanned, TaskPlan.translated_nodes]
    obtain ⟨hmem, hid⟩ := hpair.table.definition id task htask
    have hnode : task.definition.node ∈ plan.nodes := List.mem_map_of_mem hmem
    have hin : id ∈ topologicalIds plan.nodes := by
      rw [hlinear.perm.mem_iff, ← hid]
      exact List.mem_map_of_mem hnode
    obtain ⟨pre, post, hsplit⟩ := List.append_of_mem hin
    have hnodup : (topologicalStepIds state.plan).Nodup := by
      rw [horder, hlinear.perm.nodup_iff]
      exact hplan.wellFormed.nodup_ids
    have hfixed := reconcile_fixpoint (horder.trans hsplit) hnodup hbefore hwaiting (by
      intro d hd
      rw [hstands.definition, TaskDefinition.toStep_dependencies] at hd
      exact hlinear.precede pre id post hsplit task.definition.node hnode hid d hd)
    rw [hrecord, Option.some.injEq] at hfixed
    have hready : record.state = .ready := by
      rcases hstate with h | h | h
      · exact h
      all_goals
        rw [hfixed] at h
        rcases readiness_cases state.capabilityProfiles before.definition
          (reconcileWorkflowSteps state).steps with hcase | hcase | hcase <;>
          exact absurd (hcase.symm.trans h) (by decide)
    rw [hfixed] at hready
    exact readiness_ready_iff.mp hready

/-- Over the translated plan, the engine gives every step the state of its task and
starts exactly the tasks the scheduler of task runs starts, in the same order. -/
theorem engine_schedules_as_tasks {run : OrchestrationRun} {state : WorkflowRunState}
    {plan : TaskPlan} (hplan : validateTaskPlan run.plan.toJson = .ok plan)
    (hscopes : validateMutationScopes plan = []) (htasks : RunStore.validateTasks run plan = .ok ())
    (hattempts : RunStore.validateAttempts run plan = .ok ()) (hrun : Undisturbed run)
    (hcorresponds : Corresponds run state) :
    ∃ reconciled, reconcileTaskStates run = .ok reconciled ∧
      OrderedRecord.Pointwise (fun _ => StandsFor) reconciled.tasks
        (reconcileWorkflowSteps state).steps ∧
      getLaunchableTaskIds run = .ok (launchableStepIds state) := by
  have hvalid := validateTaskPlan_valid hplan
  have hplanned : state.plan = plan.translated := by
    obtain ⟨legacy, hlegacy, hstate⟩ := translateLegacyTaskPlan_ok_iff.mp hcorresponds.plan
    rw [hplan] at hlegacy
    cases hlegacy
    exact hstate
  have horder : topologicalTaskIds run.plan = .ok (topologicalIds plan.nodes) := by
    unfold topologicalTaskIds
    rw [hplan]
    rfl
  have hsteporder : topologicalStepIds state.plan = topologicalIds plan.nodes := by
    unfold topologicalStepIds
    rw [hplanned, TaskPlan.translated_nodes]
  have hpair : Paired plan run.tasks state.steps :=
    ⟨validateTasks_tasksOf hvalid htasks, hrun.clean, hcorresponds.tasks⟩
  let reconciled := { run with tasks := (topologicalIds plan.nodes).foldl reconcileTask run.tasks }
  have hreconciled : reconcileTaskStates run = .ok reconciled := by
    unfold reconcileTaskStates
    rw [horder]
    rfl
  have hafter : Paired plan reconciled.tasks (reconcileWorkflowSteps state).steps := by
    show Paired plan _ ((topologicalStepIds state.plan).foldl
      (reconcileStep state.capabilityProfiles) state.steps)
    rw [hsteporder, hcorresponds.profiles]
    exact hpair.foldl hvalid _
  refine ⟨reconciled, hreconciled, hafter.stands, ?_⟩
  have hactive : (activeStepIds (reconcileWorkflowSteps state)).Perm
      (tasksWithActiveAttempts reconciled) := hcorresponds.attempts
  have hknown : ∀ id ∈ tasksWithActiveAttempts reconciled, id ∈ Node.ids plan.nodes := by
    intro id hid
    obtain ⟨attempt, hattempt, rfl⟩ := List.mem_map.mp hid
    exact validateAttempts_known hattempts attempt (List.mem_of_mem_filter hattempt)
  have hprofiles : (reconcileWorkflowSteps state).capabilityProfiles = defaultCapabilityProfiles :=
    hcorresponds.profiles
  have hworkers : (reconcileWorkflowSteps state).maxConcurrentWorkers =
      reconciled.maxConcurrentWorkers := hcorresponds.workers
  have hcapacity := capacity_eq hprofiles hworkers hafter hactive hknown
  have hunblocked := fun id record (hrecord : (reconcileWorkflowSteps state).steps.get? id =
      some record) => unblocked_after_pass hvalid hplanned hcorresponds.profiles hpair hrun hrecord
  have hconflict := @idsConflict_eq_false reconciled (reconcileWorkflowSteps state) plan hvalid
    ((validateMutationScopes_eq_nil_iff hvalid).mp hscopes) hafter hunblocked
  have hstartable : ∀ id, isStartable (reconcileWorkflowSteps state) id = true →
      ∃ record, (reconcileWorkflowSteps state).steps.get? id = some record ∧
        record.state = .ready := by
    intro id hid
    unfold isStartable at hid
    split at hid
    · cases hid
    · next record hrecord =>
      rw [Bool.and_eq_true, decide_eq_true_eq] at hid
      exact ⟨record, hrecord, hid.1⟩
  have hgreedy : launchableStepIds state =
      ((topologicalIds plan.nodes).filter (isStartable (reconcileWorkflowSteps state))).take
        (launchRules (reconcileWorkflowSteps state)).capacity := by
    rw [launchableStepIds_eq_greedy hcorresponds.running.2, hsteporder]
    apply SelectionRules.greedy_eq_take
    · intro id hid _
      apply consumesSlot_of_mem hprofiles hafter
      have hsorted := (topologicalIds_linearizes hvalid.wellFormed (ids_ne_empty hvalid)
        (acyclic_of_findCycle hvalid.wellFormed hvalid.acyclic)).perm
      exact hsorted.mem_iff.mp hid
    · intro id _ hid other hother
      obtain ⟨record, hrecord, hready⟩ := hstartable id hid
      obtain ⟨entry, hentry, rfl⟩ := List.mem_map.mp hother
      rw [List.mem_filter, decide_eq_true_eq] at hentry
      have hfound := (OrderedRecord.mem_entries_iff _ entry.1 entry.2).mp hentry.1
      refine hconflict ?_ hrecord hfound (Or.inl hready) (Or.inr hentry.2)
      rintro rfl
      rw [hrecord, Option.some.injEq] at hfound
      rw [← hfound, hready] at hentry
      exact absurd hentry.2 (by decide)
    · have hnodup : ((topologicalIds plan.nodes).filter
          (launchRules (reconcileWorkflowSteps state)).eligible).Nodup := by
        apply List.Nodup.filter
        have hsorted := (topologicalIds_linearizes hvalid.wellFormed (ids_ne_empty hvalid)
          (acyclic_of_findCycle hvalid.wellFormed hvalid.acyclic)).perm
        rw [hsorted.nodup_iff]
        exact hvalid.wellFormed.nodup_ids
      refine hnodup.imp_of_mem ?_
      intro earlier later hearlier hlater hne
      obtain ⟨first, hfirst, hfirstready⟩ := hstartable earlier (List.mem_filter.mp hearlier).2
      obtain ⟨second, hsecond, hsecondready⟩ := hstartable later (List.mem_filter.mp hlater).2
      exact hconflict hne.symm hsecond hfirst (Or.inl hsecondready) (Or.inl hfirstready)
  have hlaunchable : getLaunchableTaskIds run =
      .ok (((topologicalIds plan.nodes).filter (isLaunchable reconciled)).take
        (availableTaskSlots reconciled)) := by
    unfold getLaunchableTaskIds
    rw [if_neg (by simp [hcorresponds.running.1]), hreconciled]
    show (if availableTaskSlots reconciled = 0 then pure []
      else do
        let order ← topologicalTaskIds run.plan
        pure ((order.filter (isLaunchable reconciled)).take (availableTaskSlots reconciled))) = _
    split
    · next hzero =>
      rw [hzero, List.take_zero]
      rfl
    · rw [horder]
      rfl
  have hsame : isStartable (reconcileWorkflowSteps state) = isLaunchable reconciled :=
    funext (isStartable_eq hafter hactive)
  rw [hlaunchable, hgreedy, hcapacity, hsame]

/-! ### A run in progress -/

/-- Two independent tasks and one that follows the first. -/
def progressPlan : TaskPlan :=
  smallTaskPlan [smallTask "a" [] "a/", smallTask "b" [] "b.txt", smallTask "c" ["a"] "a/c.txt"]

/-- The first task is integrated and the second is being validated. -/
def progressRun : OrchestrationRun :=
  { startedRun progressPlan with
    tasks := .ofList
      [("a", ⟨smallTask "a" [] "a/", .succeeded, ["a-1"], some "commit", none⟩),
        ("b", ⟨smallTask "b" [] "b.txt", .validating, ["b-1"], none, none⟩),
        ("c", ⟨smallTask "c" ["a"] "a/c.txt", .planned, [], none, none⟩)]
    attempts := [smallTaskAttempt "a-1" "a" 1 .succeeded (some "source"),
      smallTaskAttempt "b-1" "b" 1 .validating none]
    integrationHead := "commit" }

/-- The same run on the engine. -/
def progressState : WorkflowRunState :=
  { smallRun progressPlan.translated.steps with
    plan := progressPlan.translated
    steps := .ofList
      [("a", ⟨(smallTask "a" [] "a/").toStep, .succeeded, ["a-1"], some "commit", none, none⟩),
        ("b", ⟨(smallTask "b" [] "b.txt").toStep, .running, ["b-1"], none, none, none⟩),
        ("c", ⟨(smallTask "c" ["a"] "a/c.txt").toStep, .planned, [], none, none, none⟩)]
    attempts := [smallAttempt "a-1" "a" 1 .succeeded (some "source"),
      smallAttempt "b-1" "b" 1 .running none] }

private theorem progress_corresponds : Corresponds progressRun progressState where
  running := ⟨rfl, rfl⟩
  plan := by
    rw [translateLegacyTaskPlan_ok_iff]
    exact ⟨progressPlan, rfl, rfl⟩
  profiles := rfl
  workers := rfl
  tasks := OrderedRecord.pointwise_of_entries (.cons ⟨rfl, rfl, rfl, rfl⟩
    (.cons ⟨rfl, rfl, rfl, rfl⟩ (.cons ⟨rfl, rfl, rfl, rfl⟩ .nil)))
  attempts := by decide

/-- With one slot free, both schedulers start the third task. -/
theorem engine_schedules_as_tasks_progress :
    getLaunchableTaskIds progressRun = .ok ["c"] ∧ launchableStepIds progressState = ["c"] := by
  have hclean : ∀ entry ∈ progressRun.tasks.entries, entry.2.state.isTerminalFailure = false ∧
      (entry.2.state.isStarted = true → entry.2.definition.dependencies = []) := by decide
  have hstates : Undisturbed progressRun := by
    refine ⟨fun id task htask => ?_, fun id task htask hstarted d hd => ?_⟩
    · exact (hclean (id, task) ((OrderedRecord.mem_entries_iff _ _ _).mpr htask)).1
    · have hentry := (OrderedRecord.mem_entries_iff _ _ _).mpr htask
      rw [(hclean (id, task) hentry).2 hstarted] at hd
      cases hd
  obtain ⟨reconciled, -, -, hlaunch⟩ := @engine_schedules_as_tasks progressRun progressState
    progressPlan rfl (by decide +kernel) rfl rfl hstates progress_corresponds
  have hids : launchableStepIds progressState = ["c"] := by decide +kernel
  exact ⟨hids ▸ hlaunch, hids⟩

end BuildConductor.Engine
