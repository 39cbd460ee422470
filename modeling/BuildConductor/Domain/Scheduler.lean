import BuildConductor.Domain.DagOrder
import BuildConductor.Domain.Runs

/-!
# The scheduler of task runs

The scheduler of runs that keep their own attempts: every task state from the states of its
dependencies, and the tasks that may start now. `src/src/domain/scheduler.ts`.
-/

namespace BuildConductor.Domain

open Base (OrderedRecord)

namespace TaskState

/-- `TERMINAL_FAILURE_STATES`. `src/src/domain/scheduler.ts:9-13`. -/
def isTerminalFailure : TaskState → Bool
  | failed | blocked | cancelled => true
  | planned | ready | running | validating | succeeded => false

/-- The states a pass keeps as they are. `src/src/domain/scheduler.ts:15-21`. -/
def isKept : TaskState → Bool
  | running | validating | succeeded | failed | cancelled => true
  | planned | ready | blocked => false

/-- A task that is running, or ran and succeeded. -/
def isStarted : TaskState → Bool
  | running | validating | succeeded => true
  | planned | ready | failed | blocked | cancelled => false

/-- `["running", "validating"]`. -/
def isRunning : TaskState → Bool
  | running | validating => true
  | planned | ready | succeeded | failed | blocked | cancelled => false

end TaskState

/-- A dependency counts once its commit is integrated, and an empty commit does not count.
`src/src/domain/scheduler.ts:14-36`. -/
def nextState (task : RunTask) (tasks : OrderedRecord String RunTask) : TaskState :=
  if task.state.isKept then task.state
  else if task.definition.dependencies.any fun id =>
      match tasks.get? id with
      | none => true
      | some dependency => dependency.state.isTerminalFailure then .blocked
  else if task.definition.dependencies.all fun id =>
      ((tasks.get? id).bind fun dependency => present dependency.integratedCommit).isSome then .ready
  else .planned

/-- Recompute one task from the tasks recomputed before it. -/
def reconcileTask (tasks : OrderedRecord String RunTask) (id : String) :
    OrderedRecord String RunTask :=
  match tasks.get? id with
  | none => tasks
  | some task => tasks.set id { task with state := nextState task tasks }

/-- `src/src/domain/scheduler.ts:38-47`. -/
def reconcileTaskStates (run : OrchestrationRun) : Except String OrchestrationRun := do
  let order ← topologicalTaskIds run.plan
  pure { run with tasks := order.foldl reconcileTask run.tasks }

/-- `src/src/domain/scheduler.ts:54-59`. -/
def tasksWithActiveAttempts (run : OrchestrationRun) : List String :=
  (run.attempts.filter fun attempt => attempt.state.isActive).map (·.taskId)

/-- `src/src/domain/scheduler.ts:60-64`. -/
def untrackedRunningTasks (run : OrchestrationRun) : List String :=
  (run.tasks.entries.filter fun entry =>
    entry.2.state.isRunning && decide (entry.1 ∉ tasksWithActiveAttempts run)).map Prod.fst

/-- `src/src/domain/scheduler.ts:65-70`. -/
def availableTaskSlots (run : OrchestrationRun) : Nat :=
  run.maxConcurrentWorkers - (tasksWithActiveAttempts run).length -
    (untrackedRunningTasks run).length

/-- Whether a task is ready and unclaimed. `src/src/domain/scheduler.ts:75-79`. -/
def isLaunchable (run : OrchestrationRun) (taskId : String) : Bool :=
  (run.tasks.get? taskId).map (·.state) = some .ready && taskId ∉ tasksWithActiveAttempts run

/-- The tasks that may start now, in plan order. `src/src/domain/scheduler.ts:49-81`. -/
def getLaunchableTaskIds (run : OrchestrationRun) : Except String (List String) :=
  if run.state ≠ .running then .ok []
  else do
    let reconciled ← reconcileTaskStates run
    if availableTaskSlots reconciled = 0 then pure []
    else do
      let order ← topologicalTaskIds reconciled.plan
      pure ((order.filter (isLaunchable reconciled)).take (availableTaskSlots reconciled))

end BuildConductor.Domain
