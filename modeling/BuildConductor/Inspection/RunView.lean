import BuildConductor.Domain.Runs
import BuildConductor.Workflows.Change

/-!
# Run views

The one shape every inspection and control of a run reads, and its reading of a run that keeps its
own attempts. What is only shown (titles, descriptions, paths, commands, summaries and times) is
left out. `src/src/inspection/run-view.ts`.
-/

namespace BuildConductor.Inspection

open Base Domain Workflows

/-- `src/src/inspection/run-view.ts:37`. -/
inductive RunViewSource
  | engine | legacy
deriving DecidableEq, Repr

/-- `src/src/inspection/run-view.ts:44-50`. -/
inductive RunUnitRole
  | change | review | repair | investigation | command | approval
deriving DecidableEq, Repr

/-- `src/src/inspection/run-view.ts:52-72`. -/
structure RunUnitView where
  id : String
  role : RunUnitRole
  state : TaskState
  dependencies : List String
  /-- The review round and category a review unit reports on. -/
  review : Option (Nat × ReviewCategory)
  /-- The review round a repair unit answers. -/
  repairRound : Option Nat
deriving DecidableEq, Repr

/-- `src/src/inspection/run-view.ts:74-94`. -/
structure RunAttemptView where
  id : String
  unitId : String
  role : RunUnitRole
  state : AttemptState
  findings : Option (List ReviewFinding)
deriving DecidableEq, Repr

/-- `src/src/inspection/run-view.ts:103-128`. -/
structure RunView where
  source : RunViewSource
  id : String
  state : RunState
  approvedAt : Option String
  approvedPlanRevision : Option Nat
  units : List RunUnitView
  attempts : List RunAttemptView
  finalValidationAttempts : List FinalValidationAttempt
deriving DecidableEq

/-! ## Runs that keep their own attempts -/

/-- `src/src/inspection/run-view.ts:401-417`. -/
def unitStateFromAttempts (states : List AttemptState) : TaskState :=
  match states.getLast? with
  | none => .planned
  | some .succeeded => .succeeded
  | some .failed => .failed
  | some .cancelled => .cancelled
  | some .validating => .validating
  | some _ => .running

/-- The rounds of a run, each once and ascending. `src/src/inspection/run-view.ts:429-434`. -/
def legacyRounds (run : OrchestrationRun) : List Nat :=
  (run.reviewRounds.map (·.number) ++ run.reviewAttempts.map (·.round)).dedup.mergeSort (· ≤ ·)

/-- The unit of one category in one round. `src/src/inspection/run-view.ts:435-456`. -/
def legacyReviewUnit (run : OrchestrationRun) (round : Nat) (category : ReviewCategory) :
    RunUnitView :=
  let attempts := run.reviewAttempts.filter fun attempt =>
    reviewStepId attempt.round attempt.category = reviewStepId round category
  { id := reviewStepId round category, role := .review
    state := unitStateFromAttempts (attempts.map (·.state)), dependencies := []
    review := some (round, category), repairRound := none }

/-- `src/src/inspection/run-view.ts:423-457`. -/
def legacyReviewUnits (run : OrchestrationRun) : List RunUnitView :=
  (legacyRounds run).flatMap fun round => ReviewCategory.all.map (legacyReviewUnit run round)

/-- The rounds in the order their first repair was recorded. `src/src/inspection/run-view.ts:460-466`. -/
def repairRounds (attempts : List RepairAttempt) : List Nat :=
  (attempts.map (·.round)).reverse.dedup.reverse

/-- `src/src/inspection/run-view.ts:459-493`. -/
def legacyRepairUnits (run : OrchestrationRun) : List RunUnitView :=
  (repairRounds run.repairAttempts).map fun round =>
    { id := repairStepId round, role := .repair
      state := unitStateFromAttempts
        ((run.repairAttempts.filter fun attempt => attempt.round = round).map (·.state))
      dependencies := [], review := none, repairRound := some round }

/-- The unit of a task, planned while the run holds no record of it.
`src/src/inspection/run-view.ts:524-548`. -/
def legacyTaskUnit (run : OrchestrationRun) (definition : TaskDefinition) : RunUnitView :=
  { id := definition.id, role := .change
    state := ((run.tasks.get? definition.id).map (·.state)).getD .planned
    dependencies := definition.dependencies, review := none, repairRound := none }

/-- Every attempt of the run: tasks, then reviews, then repairs.
`src/src/inspection/run-view.ts:549-590`. -/
def legacyAttemptViews (run : OrchestrationRun) : List RunAttemptView :=
  run.attempts.map (fun attempt => ⟨attempt.id, attempt.taskId, .change, attempt.state, none⟩) ++
    run.reviewAttempts.map (fun attempt => ⟨attempt.id,
      reviewStepId attempt.round attempt.category, .review, attempt.state, attempt.findings⟩) ++
    run.repairAttempts.map (fun attempt =>
      ⟨attempt.id, repairStepId attempt.round, .repair, attempt.state, none⟩)

/-- `src/src/inspection/run-view.ts:523-600`. -/
def legacyRunView (run : OrchestrationRun) : RunView :=
  { source := .legacy, id := run.id, state := run.state, approvedAt := present run.approvedAt
    approvedPlanRevision := run.approvedPlanRevision
    units := run.plan.tasks.map (legacyTaskUnit run) ++ legacyReviewUnits run ++
      legacyRepairUnits run
    attempts := legacyAttemptViews run
    finalValidationAttempts := run.finalValidationAttempts }

/-! ## Review rounds -/

/-- `src/src/inspection/run-view.ts:625-631`. -/
def reviewRounds (view : RunView) : List Nat :=
  (view.units.filterMap fun unit => unit.review.map Prod.fst).dedup.mergeSort (· ≤ ·)

/-- `src/src/inspection/run-view.ts:655-685`. -/
def roundState (reported categories : Nat) (cancelled failed : Bool) (repairRequired : Nat)
    (repairUnit : Option RunUnitView) : ReviewRoundState :=
  if cancelled then .cancelled
  else if failed then .failed
  else if reported ≠ categories then .running
  else if repairRequired = 0 then .succeeded
  else
    match (repairUnit.map (·.state) : Option TaskState) with
    | none => .failed
    | some .succeeded => .succeeded
    | some .failed | some .cancelled => .failed
    | some _ => .repairing

/-- The state of one round of a view. `src/src/inspection/run-view.ts:693-735`. -/
def reviewRoundViewState (view : RunView) (number : Nat) : ReviewRoundState :=
  let units := view.units.filter fun unit => unit.review.map Prod.fst = some number
  let attempts := view.attempts.filter fun attempt => attempt.unitId ∈ units.map (·.id)
  let repairRequired := (attempts.flatMap fun attempt => attempt.findings.getD []).filter
    fun finding => finding.status = .repairRequired
  let reported := (units.filter fun unit => unit.state = .succeeded).map (·.id)
  roundState reported.dedup.length units.length (units.any fun unit => unit.state = .cancelled)
    (units.any fun unit => unit.state = .failed ∨ unit.state = .blocked) repairRequired.length
    (view.units.find? fun unit => unit.repairRound = some number)

/-- The states of the rounds of a view, in order. `src/src/inspection/run-view.ts:693-760`. -/
def reviewRoundViewStates (view : RunView) : List ReviewRoundState :=
  (reviewRounds view).map (reviewRoundViewState view)

end BuildConductor.Inspection
