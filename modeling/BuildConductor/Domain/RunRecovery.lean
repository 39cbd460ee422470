import BuildConductor.Domain.Scheduler

/-!
# Recovery of an interrupted run

What a restarted orchestrator makes of a run it finds in the store: every attempt that was under way
is interrupted, every task that was under way is planned again, and no worker waits any longer.
`src/src/domain/run.ts:321-412`.
-/

namespace BuildConductor.Domain

open Base (OrderedRecord)

/-- The reason an interrupted attempt carries. -/
def restartMessage : String := "Orchestrator restarted"

/-- `src/src/domain/run.ts:326-342`. -/
def interruptTaskAttempt (now : Timestamp) (attempt : TaskAttempt) : TaskAttempt :=
  if attempt.state.isActive then
    { attempt with
      state := .interrupted, finishedAt := some now.text, error := some restartMessage }
  else attempt

/-- `src/src/domain/run.ts:343-359`. -/
def interruptReviewAttempt (now : Timestamp) (attempt : ReviewAttempt) : ReviewAttempt :=
  if attempt.state.isActive then
    { attempt with
      state := .interrupted, finishedAt := some now.text, error := some restartMessage }
  else attempt

/-- `src/src/domain/run.ts:360-376`. -/
def interruptRepairAttempt (now : Timestamp) (attempt : RepairAttempt) : RepairAttempt :=
  if attempt.state.isActive then
    { attempt with
      state := .interrupted, finishedAt := some now.text, error := some restartMessage }
  else attempt

/-- `src/src/domain/run.ts:377-388`. -/
def interruptFinalAttempt (now : Timestamp) (attempt : FinalValidationAttempt) :
    FinalValidationAttempt :=
  if attempt.state = .running then
    { attempt with
      state := .interrupted, finishedAt := some now.text, error := some restartMessage }
  else attempt

/-- A task that was under way has to be launched again. `src/src/domain/run.ts:389-397`. -/
def replanTask (task : RunTask) : RunTask :=
  if task.state.isRunning then { task with state := .planned } else task

/-- The `changed` flag: something of the run was under way. `src/src/domain/run.ts:325-398`. -/
def isInterrupted (run : OrchestrationRun) : Bool :=
  run.blockedWorkers ≠ [] ∨
    run.attempts.any (·.state.isActive) ∨ run.reviewAttempts.any (·.state.isActive) ∨
    run.repairAttempts.any (·.state.isActive) ∨
    run.finalValidationAttempts.any (·.state = .running) ∨
    run.tasks.values.any (·.state.isRunning)

/-- The run before its tasks are recomputed. `src/src/domain/run.ts:402-411`. -/
def interruptRun (run : OrchestrationRun) (now : Timestamp) : OrchestrationRun :=
  { run with
    state := if run.state = .validating then .reviewed else run.state
    attempts := run.attempts.map (interruptTaskAttempt now)
    reviewAttempts := run.reviewAttempts.map (interruptReviewAttempt now)
    repairAttempts := run.repairAttempts.map (interruptRepairAttempt now)
    blockedWorkers := []
    finalValidationAttempts := run.finalValidationAttempts.map (interruptFinalAttempt now)
    tasks := run.tasks.mapValues fun _ task => replanTask task
    updatedAt := now.text }

/-- `src/src/domain/run.ts:321-412`. -/
def recoverInterruptedRun (run : OrchestrationRun) (now : Timestamp) :
    Except String OrchestrationRun :=
  if isInterrupted run then reconcileTaskStates (interruptRun run now) else pure run

end BuildConductor.Domain
