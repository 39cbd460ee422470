import BuildConductor.Domain.DagOrder
import BuildConductor.Engine.WorkflowState

/-!
# The engine scheduler

Readiness of steps, the locks running steps hold, the steps that may start now, and the
next step to integrate. `src/src/engine/scheduler.ts`.
-/

namespace BuildConductor.Engine

open Base Domain

/-- A dependency unblocks its dependents once its result is in the repository they start
from. `src/src/engine/scheduler.ts:26-37`. -/
def stepSatisfiesDependents (profiles : RunCapabilityProfiles) (record : WorkflowStepRecord) :
    Bool :=
  record.state = .succeeded &&
    (!stepRequiresIntegration profiles record.definition || record.integratedCommit.isSome)

/-- `src/src/engine/scheduler.ts:39-62`. -/
def nextStepState (profiles : RunCapabilityProfiles) (record : WorkflowStepRecord)
    (steps : OrderedRecord String WorkflowStepRecord) : StepRunState :=
  if record.state = .running ∨ record.state.isTerminal then record.state
  else if record.definition.dependencies.any fun id =>
      match steps.get? id with
      | none => true
      | some dependency => dependency.state.isTerminalFailure then .blocked
  else if record.definition.dependencies.all fun id =>
      match steps.get? id with
      | none => false
      | some dependency => stepSatisfiesDependents profiles dependency then .ready
  else .planned

/-- Recompute one step from the steps recomputed before it. -/
def reconcileStep (profiles : RunCapabilityProfiles) (steps : OrderedRecord String WorkflowStepRecord)
    (stepId : String) : OrderedRecord String WorkflowStepRecord :=
  match steps.get? stepId with
  | none => steps
  | some record => steps.set stepId { record with state := nextStepState profiles record steps }

/-- `src/src/engine/scheduler.ts:68-82`. -/
def reconcileWorkflowSteps (state : WorkflowRunState) : WorkflowRunState :=
  { state with
    steps := (topologicalStepIds state.plan).foldl (reconcileStep state.capabilityProfiles)
      state.steps }

/-- `src/src/engine/scheduler.ts:84-86`. -/
def pathLockCovers (pre path : String) : Bool := endsWith pre "/" && startsWith path pre

/-- Path locks are exclusive: any containment is a conflict. `src/src/engine/scheduler.ts:89-93`. -/
def pathLocksConflict (left right : String) : Bool :=
  left = right || pathLockCovers left right || pathLockCovers right left

/-- Every lock held by running or selected steps. `src/src/engine/scheduler.ts:96-99`. -/
structure HeldLocks where
  paths : List String
  resources : List String

/-- `src/src/engine/scheduler.ts:101-108`. -/
def heldLocksOf (records : List WorkflowStepRecord) : HeldLocks :=
  ⟨records.flatMap fun record => stepPathLocks record.definition,
    records.flatMap fun record => stepResourceLocks record.definition⟩

/-- `src/src/engine/scheduler.ts:110-119`. -/
def conflictsWithHeldLocks (step : StepDefinition) (held : HeldLocks) : Bool :=
  (stepPathLocks step).any (fun lock => held.paths.any (pathLocksConflict lock)) ||
    (stepResourceLocks step).any (· ∈ held.resources)

/-- `src/src/engine/scheduler.ts:121-126`. -/
def holdLocks (held : HeldLocks) (step : StepDefinition) : HeldLocks :=
  ⟨held.paths ++ stepPathLocks step, held.resources ++ stepResourceLocks step⟩

/-- Whether a step occupies a worker slot. The source throws on an unknown step, which no
stored attempt names. -/
def consumesSlot (state : WorkflowRunState) (stepId : String) : Bool :=
  match state.steps.get? stepId with
  | none => false
  | some record => stepConsumesWorkerSlot state.capabilityProfiles record.definition

/-- The steps marked running without a live attempt. `src/src/engine/scheduler.ts:153-156`. -/
def untrackedRunning (state : WorkflowRunState) : List String :=
  (state.steps.entries.filter fun entry =>
    entry.2.state = .running && entry.1 ∉ (activeAttempts state).map (·.stepId)).map Prod.fst

/-- `src/src/engine/scheduler.ts:157-159`. -/
def occupiedSlots (state : WorkflowRunState) : Nat :=
  ((activeAttempts state).filter fun attempt => consumesSlot state attempt.stepId).length +
    ((untrackedRunning state).filter (consumesSlot state)).length

/-- The loop variables of `launchableStepIds`. -/
structure Selection where
  held : HeldLocks
  availableSlots : Nat
  launchable : List String

/-- Select one step if it is ready, unclaimed, free of conflicts and finds a slot.
`src/src/engine/scheduler.ts:170-184`. -/
def selectStep (state : WorkflowRunState) (selection : Selection) (stepId : String) : Selection :=
  match state.steps.get? stepId with
  | none => selection
  | some record =>
    if record.state ≠ .ready ∨ stepId ∈ (activeAttempts state).map (·.stepId) then selection
    else if conflictsWithHeldLocks record.definition selection.held then selection
    else if consumesSlot state stepId ∧ selection.availableSlots = 0 then selection
    else
      { held := holdLocks selection.held record.definition
        availableSlots :=
          if consumesSlot state stepId then selection.availableSlots - 1
          else selection.availableSlots
        launchable := selection.launchable ++ [stepId] }

/-- The selection before the loop. `src/src/engine/scheduler.ts:139-169`. -/
def initialSelection (state : WorkflowRunState) : Selection :=
  { held := heldLocksOf (state.steps.values.filter fun record => record.state = .running)
    availableSlots := state.maxConcurrentWorkers - occupiedSlots state
    launchable := [] }

/-- The steps that may start now, in plan order. `src/src/engine/scheduler.ts:132-186`. -/
def launchableStepIds (state : WorkflowRunState) : List String :=
  if state.state ≠ .running then []
  else
    let reconciled := reconcileWorkflowSteps state
    ((topologicalStepIds reconciled.plan).foldl (selectStep reconciled)
      (initialSelection reconciled)).launchable

/-- Walk the order to the first mutating step without an integrated commit. -/
def firstIntegrable (state : WorkflowRunState) : List String → Option String
  | [] => none
  | stepId :: rest =>
    match state.steps.get? stepId with
    | none => firstIntegrable state rest
    | some record =>
      if ¬ stepRequiresIntegration state.capabilityProfiles record.definition then
        firstIntegrable state rest
      else if (present record.integratedCommit).isSome then firstIntegrable state rest
      else if record.state = .succeeded then some stepId
      else none

/-- The first mutating step whose commit still has to be integrated.
`src/src/engine/scheduler.ts:189-206`. -/
def nextIntegrableStepId (state : WorkflowRunState) : Option String :=
  firstIntegrable state (topologicalStepIds state.plan)

end BuildConductor.Engine
