import BuildConductor.Domain.ArtifactRecords
import BuildConductor.Engine.Timeline
import BuildConductor.Storage.WorkflowStateStore

/-!
# Stored timelines as documents

The check of the timeline of a run that was read from disk, on untyped values. The shapes of events
are looked up in a plain object, by a kind that is turned into a property name.
`src/src/storage/workflow-state-store.ts:121-263`.
-/

namespace BuildConductor.Storage

open Base Domain Engine

/-! ## Values as text -/

mutual

/-- `String(value)`. An object with a conversion of its own throws instead; what it is read for
rejects it either way. -/
def textOf : Json → String
  | .null => "null"
  | .bool value => if value then "true" else "false"
  | .number value => toString value
  | .fraction literal => literal
  | .str value => value
  | .arr items => ",".intercalate (textsOf items)
  | .obj _ => "[object Object]"

/-- The texts an array is joined from. -/
def textsOf : List Json → List String
  | [] => []
  | item :: rest =>
    (match item with
      | .null => ""
      | _ => textOf item) :: textsOf rest

end

/-- `String(value)` of a property, which may be absent. -/
def textOfProperty : Option Json → String
  | none => "undefined"
  | some value => textOf value

/-! ## Shapes -/

/-- The fields of an event, by what they must hold. `src/src/storage/workflow-state-store.ts:138-146`. -/
structure EventShape where
  text : List String := []
  optionalText : List String := []
  integers : List String := []
  enums : List (String × List String) := []
  textArrays : List String := []

/-- `LIFECYCLE_STATES`. -/
def lifecycleStates : List WorkflowRunLifecycleState := [.running, .completed, .failed, .cancelled]

/-- `WORKSPACE_REQUIREMENTS`. -/
def workspaceRequirements : List WorkspaceRequirement := [.none, .readOnly, .mutable]

/-- The classes of a failure. -/
def failureClasses : List StepFailureClass := [.retryable, .terminal]

/-- The name stored for a failure class. -/
def failureClassName : StepFailureClass → String
  | .retryable => "retryable"
  | .terminal => "terminal"

/-- `EVENT_SHAPES`. `src/src/storage/workflow-state-store.ts:148-172`. -/
def eventShapes : List (String × EventShape) :=
  [("step_launched",
      { text := ["stepId", "attemptId"]
        integers := ["attemptNumber"]
        enums := [("workspaceRequirement", workspaceRequirements.map (·.name))] }),
    ("step_succeeded", { text := ["stepId", "attemptId"], optionalText := ["summary"] }),
    ("step_failed",
      { text := ["stepId", "attemptId", "error", "reason"]
        enums := [("failureClass", failureClasses.map failureClassName)] }),
    ("step_retry_scheduled",
      { text := ["stepId", "attemptId", "reason"], integers := ["nextAttemptNumber"] }),
    ("step_cancelled", { text := ["stepId"], optionalText := ["attemptId", "error"] }),
    ("step_blocked", { text := ["stepId"], textArrays := ["blockedBy"] }),
    ("step_admitted", { text := ["stepId", "proposedBy", "reason"] }),
    ("artifact_published",
      { text := ["stepId", "attemptId", "artifactId", "output"]
        integers := ["sizeBytes"]
        enums := [("artifactKind", ArtifactKind.all.map (·.name))] }),
    ("step_integrated", { text := ["stepId", "integrationHead"], optionalText := ["commit"] }),
    ("run_cancellation_requested", { text := ["reason"] }),
    ("run_settled",
      { optionalText := ["error"], enums := [("state", lifecycleStates.map (·.name))] })]

/-- The properties every object inherits. -/
def objectPrototypeKeys : List String :=
  ["constructor", "__defineGetter__", "__defineSetter__", "hasOwnProperty", "__lookupGetter__",
    "__lookupSetter__", "isPrototypeOf", "propertyIsEnumerable", "toString", "valueOf", "__proto__",
    "toLocaleString"]

/-- `EVENT_SHAPES[key]`. An inherited property is found too; it has none of the lists of a shape. -/
def shapeOf (key : String) : Option EventShape :=
  match eventShapes.lookup key with
  | some shape => some shape
  | none => if key ∈ objectPrototypeKeys then some {} else none

/-- The fields an event of a shape may have. `src/src/storage/workflow-state-store.ts:209-218`. -/
def EventShape.known (shape : EventShape) : List String :=
  ["kind", "sequence", "at"] ++ shape.text ++ shape.optionalText ++ shape.integers ++
    shape.enums.map Prod.fst ++ shape.textArrays

/-! ## The check -/

/-- `typeof value === "string"`. -/
def isString : Option Json → Bool
  | some (.str _) => true
  | _ => false

/-- An array of strings. `src/src/storage/workflow-state-store.ts:125-132`. -/
def isStringArray : Option Json → Bool
  | some (.arr items) => items.all fun item => isString (some item)
  | _ => false

/-- A property that holds a non-empty string. -/
def isNonEmptyString : Option Json → Bool
  | some (.str value) => value ≠ ""
  | _ => false

/-- A counting number. `src/src/storage/workflow-state-store.ts:119-123`. -/
def readCountingInteger (value : Option Json) (path : String) : Except String Nat :=
  match safeInteger? value with
  | some n =>
    if 0 ≤ n then .ok n.toNat else .error s!"{path} must be a non-negative safe integer"
  | none => .error s!"{path} must be a non-negative safe integer"

/-- A positive number. `src/src/storage/workflow-state-store.ts:113-117`. -/
def readPositiveInteger (value : Option Json) (path : String) : Except String Nat :=
  match safeInteger? value with
  | some n => if 1 ≤ n then .ok n.toNat else .error s!"{path} must be a positive safe integer"
  | none => .error s!"{path} must be a positive safe integer"

/-- The sequence of an event that has the shape of its kind.
`src/src/storage/workflow-state-store.ts:174-227`. -/
def validateEventDocument (value : Json) (path : String) : Except String Nat :=
  match value with
  | .obj fields => do
    let field := Json.field fields
    let kind := textOfProperty (field "kind")
    let shape ← require (shapeOf kind) s!"{path}.kind is unknown: {kind}"
    let sequence ← readPositiveInteger (field "sequence") s!"{path}.sequence"
    ensure (isNonEmptyString (field "at")) s!"{path}.at must be a non-empty string"
    forM shape.text fun name => ensure (isString (field name)) s!"{path}.{name} must be a string"
    forM shape.optionalText fun name =>
      ensure ((field name).isNone ∨ isString (field name))
        s!"{path}.{name} must be a string when present"
    forM shape.integers fun name => do
      let _ ← readCountingInteger (field name) s!"{path}.{name}"
    forM shape.enums fun (name, allowed) =>
      ensure (textOfProperty (field name) ∈ allowed)
        s!"{path}.{name} is invalid: {textOfProperty (field name)}"
    forM shape.textArrays fun name =>
      ensure (isStringArray (field name)) s!"{path}.{name} must be an array of strings"
    let unexpected := (fields.map Prod.fst).filter (· ∉ shape.known)
    ensure (unexpected = [])
      (s!"{path} has unexpected {kind} fields: " ++ ", ".intercalate unexpected)
    pure sequence
  | _ => .error s!"{path} must be an object"

/-- The loop over the events, with the last sequence.
`src/src/storage/workflow-state-store.ts:243-255`. -/
def validateEventDocuments : Nat → Nat → List Json → Except String Nat
  | _, previous, [] => pure previous
  | index, previous, event :: rest => do
    let sequence ← validateEventDocument event s!"run.events[{index}]"
    ensure (previous < sequence)
      s!"run.events[{index}].sequence must increase strictly along the timeline"
    validateEventDocuments (index + 1) sequence rest

/-- `src/src/storage/workflow-state-store.ts:229-263`. -/
def validateStoredEventsDocument (run : List (String × Json)) : Except String Unit :=
  match Json.field run "events" with
  | some (.arr events) => do
    ensure (events.length ≤ maxWorkflowEvents)
      s!"run.events retains {events.length} entries; the window is {maxWorkflowEvents}"
    let eventSequence ← readCountingInteger (Json.field run "eventSequence") "run.eventSequence"
    let droppedEvents ← readCountingInteger (Json.field run "droppedEvents") "run.droppedEvents"
    let last ← validateEventDocuments 0 0 events
    ensure (eventSequence = events.length + droppedEvents)
      "run.eventSequence must equal the retained events plus the dropped events"
    ensure (events.length = 0 ∨ last = eventSequence)
      "run.events must end at the highest assigned sequence"
  | _ => .error "run.events must be an array"

/-! ## Events as documents -/

/-- The properties of an event, in the order they are written. `src/src/engine/events.ts:98-100`. -/
def eventProperties (event : WorkflowEvent) : List (String × Option Json) :=
  [("sequence", some (.number event.sequence)), ("at", some (.str event.timestamp))] ++
    match event.body with
    | .stepLaunched stepId attemptId attemptNumber requirement =>
      [("kind", some (.str "step_launched")), ("stepId", some (.str stepId)),
        ("attemptId", some (.str attemptId)), ("attemptNumber", some (.number attemptNumber)),
        ("workspaceRequirement", some (.str requirement.name))]
    | .stepSucceeded stepId attemptId summary =>
      [("kind", some (.str "step_succeeded")), ("stepId", some (.str stepId)),
        ("attemptId", some (.str attemptId)), ("summary", summary.map .str)]
    | .stepFailed stepId attemptId error failureClass reason =>
      [("kind", some (.str "step_failed")), ("stepId", some (.str stepId)),
        ("attemptId", some (.str attemptId)), ("error", some (.str error)),
        ("failureClass", some (.str (failureClassName failureClass))),
        ("reason", some (.str reason))]
    | .stepRetryScheduled stepId attemptId nextAttemptNumber reason =>
      [("kind", some (.str "step_retry_scheduled")), ("stepId", some (.str stepId)),
        ("attemptId", some (.str attemptId)),
        ("nextAttemptNumber", some (.number nextAttemptNumber)), ("reason", some (.str reason))]
    | .stepCancelled stepId attemptId error =>
      [("kind", some (.str "step_cancelled")), ("stepId", some (.str stepId)),
        ("attemptId", attemptId.map .str), ("error", error.map .str)]
    | .stepBlocked stepId blockedBy =>
      [("kind", some (.str "step_blocked")), ("stepId", some (.str stepId)),
        ("blockedBy", some (Json.strings blockedBy))]
    | .stepAdmitted stepId proposedBy reason =>
      [("kind", some (.str "step_admitted")), ("stepId", some (.str stepId)),
        ("proposedBy", some (.str proposedBy)), ("reason", some (.str reason))]
    | .artifactPublished stepId attemptId artifactId output artifactKind sizeBytes =>
      [("kind", some (.str "artifact_published")), ("stepId", some (.str stepId)),
        ("attemptId", some (.str attemptId)), ("artifactId", some (.str artifactId)),
        ("output", some (.str output)), ("artifactKind", some (.str artifactKind.name)),
        ("sizeBytes", some (.number sizeBytes))]
    | .stepIntegrated stepId commit integrationHead =>
      [("kind", some (.str "step_integrated")), ("stepId", some (.str stepId)),
        ("commit", commit.map .str), ("integrationHead", some (.str integrationHead))]
    | .runCancellationRequested reason =>
      [("kind", some (.str "run_cancellation_requested")), ("reason", some (.str reason))]
    | .runSettled state error =>
      [("kind", some (.str "run_settled")), ("state", some (.str state.name)),
        ("error", error.map .str)]

/-- A document is an object with the properties of an event and no others. -/
def Spells (value : Json) (event : WorkflowEvent) : Prop :=
  ∃ fields, value = .obj fields ∧
    ∀ name, Json.field fields name = Json.field (Json.definedFields (eventProperties event)) name

/-- The stored run holds a timeline that appends to an empty one produce. -/
def HonestTimeline (run : List (String × Json)) : Prop :=
  ∃ (timeline : Timeline) (events : List Json), timeline.Produced ∧
    Json.field run "events" = some (.arr events) ∧ List.Forall₂ Spells events timeline.events ∧
    Json.field run "eventSequence" = some (.number timeline.eventSequence) ∧
    Json.field run "droppedEvents" = some (.number timeline.droppedEvents)

/-- The kind of an event is a string that names a declared kind, and its fields that name one of
several values are strings. -/
def NamesItsKind (value : Json) : Prop :=
  ∃ fields kind shape, value = .obj fields ∧ Json.field fields "kind" = some (.str kind) ∧
    eventShapes.lookup kind = some shape ∧
    ∀ entry ∈ shape.enums, isString (Json.field fields entry.1) = true

end BuildConductor.Storage
