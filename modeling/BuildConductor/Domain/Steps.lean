import BuildConductor.Domain.Dag

/-!
# Workflow steps and plans

The step union a plan declares, the authority each kind may hold, and the validator of
plan documents. The validator reads every field of every step in order, checks the
graph, and accepts only when no issue was recorded. `src/src/domain/steps.ts`.
-/

namespace BuildConductor.Domain

open Base (Node)

/-- `MAX_STEP_RETRY_ATTEMPTS`. -/
def maxStepRetryAttempts : Nat := 5

/-- Reference to an output of a dependency. `src/src/domain/steps.ts:41-44`. -/
structure StepInputReference where
  stepId : String
  output : String
deriving DecidableEq, Repr

/-- `src/src/domain/steps.ts:46-48`. -/
structure StepRetryPolicy where
  maxAttempts : Nat
deriving DecidableEq, Repr

/-- The declarations every kind shares. `src/src/domain/steps.ts:50-69`. -/
structure StepDefinitionCommon where
  id : String
  title : String
  description : String
  dependencies : List String
  inputs : Option (List StepInputReference)
  outputs : Option (List String)
  profile : Option CapabilityProfileName
  capabilities : Option (List StepCapability)
  pathLocks : Option (List String)
  resourceLocks : Option (List String)
  timeoutMs : Option Nat
  retry : Option StepRetryPolicy
deriving DecidableEq, Repr

/-- What distinguishes the kinds. `src/src/domain/steps.ts:118-141`. -/
inductive StepBody
  | investigation (questions : List String)
  | change (acceptanceCriteria allowedPaths : List String)
      (validationCommands : List ValidationCommand)
  | command (command : ValidationCommand)
  | approval (prompt : String)
deriving DecidableEq, Repr

/-- One declared step. `src/src/domain/steps.ts:143-147`. -/
structure StepDefinition extends StepDefinitionCommon where
  body : StepBody
deriving DecidableEq, Repr

/-- `STEP_KINDS`. -/
inductive StepKind
  | investigation | change | command | approval
deriving DecidableEq, Repr

namespace StepKind

/-- The name a document uses. -/
def name : StepKind → String
  | investigation => "investigation"
  | change => "change"
  | command => "command"
  | approval => "approval"

/-- `STEP_KIND_PROFILES`. `src/src/domain/steps.ts:71-79`. -/
def profiles : StepKind → List CapabilityProfileName
  | investigation => [.investigation, .review]
  | change => [.change, .repair]
  | command => [.command]
  | approval => [.approval]

/-- The profile named like the kind. -/
def profileName : StepKind → CapabilityProfileName
  | investigation => .investigation
  | change => .change
  | command => .command
  | approval => .approval

/-- `STEP_KIND_CAPABILITY_MAXIMA`. `src/src/domain/steps.ts:87-96`. -/
def capabilityMaxima : StepKind → List StepCapability
  | investigation => [.readRepository]
  | change => [.readRepository, .mutateRepository, .executeCommands]
  | command => [.readRepository, .executeCommands]
  | approval => []

end StepKind

/-- The kind of a step body. -/
def StepBody.kind : StepBody → StepKind
  | investigation _ => .investigation
  | change _ _ _ => .change
  | command _ => .command
  | approval _ => .approval

namespace StepDefinition

/-- `step.kind`. -/
def kind (step : StepDefinition) : StepKind := step.body.kind

/-- `step.allowedPaths` of a change step. -/
def allowedPaths (step : StepDefinition) : List String :=
  match step.body with
  | .change _ allowedPaths _ => allowedPaths
  | _ => []

/-- The graph node a step declares. -/
def node (step : StepDefinition) : Node String := ⟨step.id, step.dependencies⟩

end StepDefinition

/-- `src/src/domain/steps.ts:81-85`. -/
def stepProfileName (step : StepDefinition) : CapabilityProfileName :=
  step.profile.getD step.kind.profileName

/-- `src/src/domain/steps.ts:98-100`. -/
def stepCapabilities (step : StepDefinition) : List StepCapability :=
  step.capabilities.getD step.kind.capabilityMaxima

/-- `src/src/domain/steps.ts:102-107`. -/
def stepPathLocks (step : StepDefinition) : List String :=
  match step.pathLocks with
  | some locks => locks
  | none => if step.kind = .change then step.allowedPaths else []

/-- `src/src/domain/steps.ts:109-111`. -/
def stepResourceLocks (step : StepDefinition) : List String := step.resourceLocks.getD []

/-- `src/src/domain/steps.ts:113-116`. -/
def stepRetryPolicy (step : StepDefinition) : StepRetryPolicy := step.retry.getD ⟨1⟩

/-- The schema version every plan carries is fixed by its type. `src/src/domain/steps.ts:149-154`. -/
structure WorkflowPlan where
  title : String
  steps : List StepDefinition
  finalValidationCommands : List ValidationCommand
deriving DecidableEq, Repr

namespace WorkflowPlan

/-- The dependency graph of a plan. -/
def nodes (plan : WorkflowPlan) : List (Node String) := plan.steps.map StepDefinition.node

/-- The declared step ids. -/
def stepIds (plan : WorkflowPlan) : List String := plan.steps.map fun step => step.id

end WorkflowPlan

/-- `src/src/domain/steps.ts:642-644`. -/
def topologicalStepIds (plan : WorkflowPlan) : List String := topologicalIds plan.nodes

/-- The text a list contributes to a message. -/
def joinNames (names : List String) : String := String.intercalate ", " names

/-- The text of a list that may be empty. -/
def namesOrNone (names : List String) : String := if names = [] then "none" else joinNames names

namespace Reading

/-- Read a declaration that may be absent. -/
def readDeclared {α : Type} (value : Option Json) (read : Json → Reading (Option α)) :
    Reading (Option α) :=
  match value with
  | none => pure none
  | some v => read v

/-- Read a declaration that always yields a value. -/
def always {α : Type} (reading : Reading α) : Reading (Option α) := do
  let value ← reading
  pure (some value)

/-- One element of `inputs`. -/
def readInput (path : String) (index : Nat) (item : Json) : Reading StepInputReference :=
  let itemPath := s!"{path}[{index}]"
  match item with
  | .obj fields => do
    let stepId ← readNonEmptyString (Json.field fields "stepId") s!"{itemPath}.stepId"
    let output ← readNonEmptyString (Json.field fields "output") s!"{itemPath}.output"
    pure ⟨stepId, output⟩
  | _ => do
    addIssue "input_object" itemPath s!"{itemPath} must be an object"
    pure ⟨"", ""⟩

/-- `src/src/domain/steps.ts:160-190`. -/
def readInputs (value : Json) (path : String) : Reading (List StepInputReference) :=
  match value with
  | .arr items => readEach (readInput path) 0 items
  | _ => do
    addIssue "input_array" path s!"{path} must be an array of \x7b stepId, output \x7d references"
    pure []

/-- `src/src/domain/steps.ts:192-220`. -/
def readNamedIdentifiers (value : Json) (path formatCode duplicateCode : String) :
    Reading (List String) := do
  let names ← readStringArray (some value) path
  checkEach (fun index name =>
    issueIf (name ≠ "" ∧ ¬ matchesIdPattern name) formatCode s!"{path}[{index}]"
      s!"{path}[{index}] must match {idPatternText}") 0 names
  issueIf (¬ names.Nodup) duplicateCode path s!"{path} must not contain duplicates"
  pure names

/-- The profile branch of `readDeclarations`. `src/src/domain/steps.ts:241-255`. -/
def readProfile (value : Json) (path : String) : Reading (Option CapabilityProfileName) :=
  match value with
  | .str text =>
    match CapabilityProfileName.ofName? text with
    | some profile => pure (some profile)
    | none => do
      addIssue "unknown_profile" s!"{path}.profile"
        s!"{path}.profile must be one of {joinNames (CapabilityProfileName.all.map (·.name))}"
      pure none
  | _ => do
    addIssue "unknown_profile" s!"{path}.profile"
      s!"{path}.profile must be one of {joinNames (CapabilityProfileName.all.map (·.name))}"
    pure none

/-- The capabilities branch of `readDeclarations`, with the names as they were written.
`src/src/domain/steps.ts:256-276`. -/
def readCapabilityNames (value : Json) (path : String) : Reading (List String) := do
  let names ← readStringArray (some value) s!"{path}.capabilities"
  checkEach (fun index name =>
    issueIf (name ≠ "" ∧ StepCapability.ofName? name = none) "unknown_capability"
      s!"{path}.capabilities[{index}]"
      s!"{path}.capabilities[{index}] must be one of {joinNames (StepCapability.all.map (·.name))}")
    0 names
  pure names

/-- The timeout branch of `readDeclarations`. `src/src/domain/steps.ts:294-308`. -/
def readTimeoutMs (value : Json) (path : String) : Reading (Option Nat) :=
  match safeInteger? (some value) with
  | some n =>
    if n ≤ 0 then do
      addIssue "invalid_timeout" s!"{path}.timeoutMs"
        s!"{path}.timeoutMs must be a positive integer of milliseconds"
      pure none
    else pure (some n.toNat)
  | none => do
    addIssue "invalid_timeout" s!"{path}.timeoutMs"
      s!"{path}.timeoutMs must be a positive integer of milliseconds"
    pure none

/-- The retry budget a value declares, when it is one to five attempts. -/
def retryBudget? (value : Json) : Option Nat :=
  match value with
  | .obj fields =>
    match safeInteger? (Json.field fields "maxAttempts") with
    | some n => if 1 ≤ n ∧ n ≤ maxStepRetryAttempts then some n.toNat else none
    | none => none
  | _ => none

/-- The retry branch of `readDeclarations`. `src/src/domain/steps.ts:309-327`. -/
def readRetry (value : Json) (path : String) : Reading (Option StepRetryPolicy) :=
  match retryBudget? value with
  | some budget => pure (some ⟨budget⟩)
  | none => do
    addIssue "invalid_retry" s!"{path}.retry"
      s!"{path}.retry.maxAttempts must be an integer from 1 to {maxStepRetryAttempts}"
    pure none

/-- The common part of a step, with its capability names as they were written. -/
structure CommonReading where
  common : StepDefinitionCommon
  capabilityNames : Option (List String)

/-- `readStepCommon` and `readDeclarations`. `src/src/domain/steps.ts:222-350`. -/
def readStepCommon (fields : List (String × Json)) (path : String) : Reading CommonReading := do
  let id ← readNonEmptyString (Json.field fields "id") s!"{path}.id"
  let title ← readNonEmptyString (Json.field fields "title") s!"{path}.title"
  let description ← readNonEmptyString (Json.field fields "description") s!"{path}.description"
  let dependencies ← readStringArray (Json.field fields "dependencies") s!"{path}.dependencies"
  let inputs ← readDeclared (Json.field fields "inputs")
    fun v => always (readInputs v s!"{path}.inputs")
  let outputs ← readDeclared (Json.field fields "outputs")
    fun v => always (readNamedIdentifiers v s!"{path}.outputs" "output_format" "duplicate_output")
  let profile ← readDeclared (Json.field fields "profile") fun v => readProfile v path
  let capabilityNames ← readDeclared (Json.field fields "capabilities")
    fun v => always (readCapabilityNames v path)
  let pathLocks ← readDeclared (Json.field fields "pathLocks")
    fun v => always (readSafeRepositoryPaths (some v) s!"{path}.pathLocks")
  let resourceLocks ← readDeclared (Json.field fields "resourceLocks")
    fun v => always (readNamedIdentifiers v s!"{path}.resourceLocks" "resource_lock_format"
      "duplicate_resource_lock")
  let timeoutMs ← readDeclared (Json.field fields "timeoutMs") fun v => readTimeoutMs v path
  let retry ← readDeclared (Json.field fields "retry") fun v => readRetry v path
  pure
    { common :=
        { id, title, description, dependencies, inputs, outputs, profile
          capabilities := capabilityNames.map fun names => names.filterMap StepCapability.ofName?
          pathLocks, resourceLocks, timeoutMs, retry }
      capabilityNames }

/-- `src/src/domain/steps.ts:352-367`. -/
def readQuestions (value : Option Json) (path : String) : Reading (List String) := do
  let questions ← readStringArray value path
  issueIf (questions = []) "required_questions" path
    s!"{path} must contain at least one question the investigation answers"
  pure questions

/-- The fields of one kind. `src/src/domain/steps.ts:388-439`. -/
def readStepBody (kind : StepKind) (fields : List (String × Json)) (path : String) :
    Reading StepBody :=
  match kind with
  | .investigation => do
    let questions ← readQuestions (Json.field fields "questions") s!"{path}.questions"
    pure (.investigation questions)
  | .change => do
    let acceptanceCriteria ← readStringArray (Json.field fields "acceptanceCriteria")
      s!"{path}.acceptanceCriteria"
    let allowedPaths ← readAllowedPaths (Json.field fields "allowedPaths") s!"{path}.allowedPaths"
    let validationCommands ← readValidationCommands (Json.field fields "validationCommands")
      s!"{path}.validationCommands"
    pure (.change acceptanceCriteria allowedPaths validationCommands)
  | .command => do
    let command ← readCommandObject (Json.field fields "command") s!"{path}.command"
    pure (.command command)
  | .approval => do
    let prompt ← readNonEmptyString (Json.field fields "prompt") s!"{path}.prompt"
    pure (.approval prompt)

/-- The kind a document names. -/
def stepKind? (value : Option Json) : Option StepKind :=
  match value with
  | some (.str "investigation") => some .investigation
  | some (.str "change") => some .change
  | some (.str "command") => some .command
  | some (.str "approval") => some .approval
  | _ => none

/-- The profile check of `readStep`. `src/src/domain/steps.ts:440-450`. -/
def checkStepProfile (kind : StepKind) (profile : Option CapabilityProfileName) (path : String) :
    Reading Unit :=
  match profile with
  | some profile =>
    issueIf (profile ∉ kind.profiles) "profile_not_allowed" s!"{path}.profile"
      s!"{path}.profile {profile.name} is not available to {kind.name} steps (allowed: {
        joinNames (kind.profiles.map (·.name))})"
  | none => pure ()

/-- The capability check of `readStep`, over the names as they were written.
`src/src/domain/steps.ts:451-463`. -/
def checkStepCapabilities (kind : StepKind) (names : Option (List String)) (path : String) :
    Reading Unit :=
  checkEach (fun index name =>
    issueIf (name ≠ "" ∧ name ∉ kind.capabilityMaxima.map (·.name)) "capability_not_allowed"
      s!"{path}.capabilities[{index}]"
      s!"{path}.capabilities[{index}] exceeds the {kind.name} step authority (allowed: {
        namesOrNone (kind.capabilityMaxima.map (·.name))})") 0 (names.getD [])

/-- `src/src/domain/steps.ts:369-465`. -/
def readStep (index : Nat) (value : Json) : Reading StepDefinition :=
  let path := s!"steps[{index}]"
  match value with
  | .obj fields => do
    let common ← readStepCommon fields path
    match stepKind? (Json.field fields "kind") with
    | some kind => do
      let body ← readStepBody kind fields path
      checkStepProfile kind common.common.profile path
      checkStepCapabilities kind common.capabilityNames path
      pure { common.common with body }
    | none => do
      addIssue "step_kind" s!"{path}.kind"
        s!"{path}.kind must be one of investigation, change, command, approval"
      pure { common.common with body := .investigation [] }
  | _ => do
    addIssue "step_object" path s!"{path} must be an object"
    pure
      { id := "", title := "", description := "", dependencies := [], inputs := none
        outputs := none, profile := none, capabilities := none, pathLocks := none
        resourceLocks := none, timeoutMs := none, retry := none, body := .investigation [] }

/-- `src/src/domain/steps.ts:505-538`. -/
def readFinalValidationCommands (hasChangeStep : Bool) (value : Option Json) :
    Reading (List ValidationCommand) :=
  if hasChangeStep then
    match value with
    | some (.arr (_ :: _)) => readValidationCommands value "finalValidationCommands"
    | _ => do
      addIssue "required_final_validation" "finalValidationCommands"
        "finalValidationCommands must be a non-empty array when the plan contains a change step"
      pure []
  else
    match value with
    | none => pure []
    | some (.arr []) => pure []
    | some (.arr (_ :: _)) => readValidationCommands value "finalValidationCommands"
    | some _ => do
      addIssue "command_array" "finalValidationCommands"
        "finalValidationCommands must be an array of command objects"
      pure []

/-- The identity checks of one step, against the steps before it.
`src/src/domain/steps.ts:539-576`. -/
def checkStepIdentity (steps : List StepDefinition) (index : Nat) (step : StepDefinition) :
    Reading Unit := do
  let idPath := s!"steps[{index}].id"
  issueIf (¬ matchesIdPattern step.id) "step_id_format" idPath
    s!"step id {quote step.id} must match {idPatternText}"
  issueIf (step.id ∈ (steps.take index).map fun earlier => earlier.id) "duplicate_step_id" idPath
    s!"duplicate step id: {step.id}"
  issueIf (¬ step.dependencies.Nodup) "duplicate_dependency" s!"steps[{index}].dependencies"
    s!"step {step.id} has duplicate dependencies"
  issueIf (step.id ∈ step.dependencies) "self_dependency" s!"steps[{index}].dependencies"
    s!"step {step.id} cannot depend on itself"

/-- The dependency check of one step. `src/src/domain/steps.ts:577-588`. -/
def checkStepDependencies (steps : List StepDefinition) (index : Nat) (step : StepDefinition) :
    Reading Unit :=
  checkEach (fun dependencyIndex dependency =>
    issueIf (dependency ∉ steps.map fun known => known.id) "unknown_dependency"
      s!"steps[{index}].dependencies[{dependencyIndex}]"
      s!"step {step.id} depends on unknown step {dependency}") 0 step.dependencies

/-- Whether a step of the plan declares an output. -/
def declaresOutput (steps : List StepDefinition) (input : StepInputReference) : Bool :=
  match steps.findRev? fun step => step.id = input.stepId with
  | some producer => input.output ∈ producer.outputs.getD []
  | none => false

/-- The input check of one step. `src/src/domain/steps.ts:589-615`. -/
def checkStepInputs (steps : List StepDefinition) (index : Nat) (step : StepDefinition) :
    Reading Unit :=
  checkEach (fun inputIndex input => do
    let inputPath := s!"steps[{index}].inputs[{inputIndex}]"
    if input.stepId = "" ∨ input.output = "" then pure ()
    else if input.stepId ∉ step.dependencies then
      addIssue "input_without_dependency" inputPath
        s!"step {step.id} consumes an output of {input.stepId} without declaring it as a dependency"
    else
      issueIf (¬ declaresOutput steps input) "unknown_input_output" inputPath
        s!"step {input.stepId} does not declare output {input.output}") 0 (step.inputs.getD [])

/-- `src/src/domain/steps.ts:483-490`. -/
def checkSchemaVersion (value : Option Json) : Reading Unit :=
  match value with
  | some (.number 4) => pure ()
  | _ => addIssue "schema_version" "version" "version must be 4"

/-- `src/src/domain/steps.ts:492-499`. -/
def checkRequiredSteps (value : Option Json) : Reading Unit :=
  match value with
  | some (.arr (_ :: _)) => pure ()
  | _ => addIssue "required_steps" "steps" "steps must be a non-empty array"

/-- The step documents, none when the field is no array. -/
def stepItems (value : Option Json) : List Json :=
  match value with
  | some (.arr items) => items
  | _ => []

/-- Everything `validateWorkflowPlanResult` records before the cycle search.
`src/src/domain/steps.ts:467-615`. -/
def readWorkflowPlan (fields : List (String × Json)) : Reading WorkflowPlan := do
  checkSchemaVersion (Json.field fields "version")
  let title ← readNonEmptyString (Json.field fields "title") "title"
  checkRequiredSteps (Json.field fields "steps")
  let steps ← readEach readStep 0 (stepItems (Json.field fields "steps"))
  let finalValidationCommands ← readFinalValidationCommands
    (steps.any fun step => step.kind = .change) (Json.field fields "finalValidationCommands")
  checkEach (checkStepIdentity steps) 0 steps
  checkEach (checkStepDependencies steps) 0 steps
  checkEach (checkStepInputs steps) 0 steps
  pure ⟨title, steps, finalValidationCommands⟩

end Reading

/-- `src/src/domain/steps.ts:467-640`. -/
def validateWorkflowPlanResult (value : Json) : Except (List PlanValidationIssue) WorkflowPlan :=
  match value with
  | .obj fields =>
    let reading := Reading.readWorkflowPlan fields
    if reading.issues = [] then
      match findCycle reading.value.nodes with
      | some cycle => .error [⟨"dependency_cycle", "steps",
          "dependency cycle: " ++ String.intercalate " -> " cycle⟩]
      | none => .ok reading.value
    else .error reading.issues
  | _ => .error [⟨"plan_object", "plan", "plan must be an object"⟩]

/-- The message of a `PlanValidationError`. `src/src/domain/dag.ts:41-53`. -/
def planValidationErrorMessage (issues : List PlanValidationIssue) : String :=
  "Invalid task plan:\n- " ++ String.intercalate "\n- " (issues.map (·.message))

/-- `src/src/domain/steps.ts:646-652`. -/
def validateWorkflowPlan (value : Json) : Except String WorkflowPlan :=
  match validateWorkflowPlanResult value with
  | .ok plan => .ok plan
  | .error issues => .error (planValidationErrorMessage issues)

end BuildConductor.Domain
