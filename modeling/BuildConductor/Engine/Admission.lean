import BuildConductor.Engine.Events
import BuildConductor.Engine.Scheduler

/-!
# Step admission

The steps a running session proposes enter the graph of its own run, append-only and
within the frozen authority. `src/src/engine/admission.ts`.
-/

namespace BuildConductor.Engine

open Base Domain Security

/-- `MAX_WORKFLOW_PLAN_STEPS`. -/
def maxWorkflowPlanSteps : Nat := 200

/-- `src/src/engine/admission.ts:35-42`. -/
structure StepAdmissionRequest where
  steps : List Json
  proposedBy : String
  reason : String

/-- The message of a `StepAdmissionError`. `src/src/engine/admission.ts:23-33`. -/
def stepAdmissionMessage (message : String) (issues : List String) : String :=
  if issues = [] then message
  else message ++ ":\n- " ++ String.intercalate "\n- " issues

/-- `src/src/engine/admission.ts:44-61`. -/
def requireRunningProposer (state : WorkflowRunState) (proposedBy : String) : Except String Unit := do
  let proposer ← require (state.steps.get? proposedBy)
    s!"Step {proposedBy} is not part of run {state.id}, so it cannot propose work for it"
  ensure (proposer.state = .running)
    s!"Step {proposedBy} is {proposer.state.name}, and only a running step can propose further work"

/-- The id a proposed document names, when it is a string. -/
def proposedId? : Json → Option String
  | .obj fields =>
    match Json.field fields "id" with
    | some (.str id) => some id
    | _ => none
  | _ => none

/-- The plan document with the proposed steps appended. -/
def grownDocument (plan : WorkflowPlan) (proposed : List Json) : Json :=
  .obj (plan.fieldsWith (plan.steps.map StepDefinition.toJson ++ proposed))

/-- `src/src/engine/admission.ts:63-105`. -/
def grownPlan (state : WorkflowRunState) (proposed : List Json) : Except String WorkflowPlan := do
  let collisions := (proposed.filterMap proposedId?).filter (· ∈ state.plan.stepIds)
  ensure (collisions = []) (stepAdmissionMessage
    "Proposed steps collide with steps this run already has"
    (collisions.eraseDups.map fun id => s!"step id {id} already exists"))
  let plan ←
    (match validateWorkflowPlanResult (grownDocument state.plan proposed) with
      | .ok plan => pure plan
      | .error issues => .error (stepAdmissionMessage
          "Proposed steps do not form a valid workflow plan" (issues.map (·.message))))
  ensure (plan.steps.take state.plan.steps.length = state.plan.steps)
    "Admitting steps cannot change the steps this run already has"
  pure plan

/-- The record an admitted step enters with. -/
def admittedStepRecord (definition : StepDefinition) : WorkflowStepRecord :=
  { definition
    state := .planned
    attemptIds := []
    integratedCommit := none
    integrationError := none
    error := none }

/-- `src/src/engine/admission.ts:116-179`. -/
def admitSteps (request : StepAdmissionRequest) (now : Timestamp) (state : WorkflowRunState) :
    Except String WorkflowRunState := do
  ensure (state.state = .running)
    s!"Run {state.id} is {state.state.name}, so it can no longer admit steps"
  let authority ← require state.authority
    s!"Run {state.id} has no frozen authority envelope, so it cannot admit steps"
  ensure (request.steps ≠ []) "At least one step must be proposed"
  ensure (trim request.reason ≠ "") "Admitted steps must record why they exist"
  requireRunningProposer state request.proposedBy
  ensure (state.plan.steps.length + request.steps.length ≤ maxWorkflowPlanSteps)
    s!"A run may hold at most {maxWorkflowPlanSteps} steps, and this run already has {
      state.plan.steps.length}"
  let plan ← grownPlan state request.steps
  let admitted := plan.steps.drop state.plan.steps.length
  let issues := planAuthorityIssues plan authority.envelope state.repositoryRoot
    (some state.capabilityProfiles)
  ensure (issues = []) (authorityViolationMessage issues)
  let steps := admitted.foldl (fun steps definition =>
    steps.set definition.id (admittedStepRecord definition)) state.steps
  pure (appendWorkflowEvents
    (reconcileWorkflowSteps { state with plan, steps, updatedAt := now.text })
    (admitted.map fun definition =>
      .stepAdmitted definition.id request.proposedBy request.reason) now)

end BuildConductor.Engine
