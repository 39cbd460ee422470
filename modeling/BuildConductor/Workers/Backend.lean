import BuildConductor.Domain.Json
import BuildConductor.Domain.Runs
import BuildConductor.Security.Policy

/-!
# Worker events

What a worker reports while it executes a prompt, and the documents of these events.
`src/src/workers/backend.ts:34-66`.
-/

namespace BuildConductor.Workers

open Domain Security

/-- `src/src/workers/backend.ts:34-41`. -/
inductive WorkerUiResolutionOutcome
  | responded | declined | cancelled | requestTimeout | executionAborted | streamClosed
  | recoveryInterrupted
deriving DecidableEq, Repr

/-- `"declined" | "cancelled"`. -/
inductive UiDecisionOutcome
  | declined | cancelled
deriving DecidableEq, Repr

/-- `src/src/workers/backend.ts:43-66`. -/
inductive WorkerProgressEvent
  | agentStarted
  | textDelta (text : String)
  | toolStarted (toolName : String)
  | toolFinished (toolName : String) (isError : Bool)
  | retrying (message : String)
  | uiBlocked (requestId : String) (method : WorkerUiMethod)
  | uiDecision (requestId : String) (method : WorkerUiMethod) (policy : BlockedWorkerPolicy)
      (outcome : UiDecisionOutcome)
  | uiResolved (requestId : String) (method : WorkerUiMethod) (outcome : WorkerUiResolutionOutcome)
deriving DecidableEq, Repr

/-! ## Names -/

/-- The name of a method. -/
def uiMethodName : WorkerUiMethod → String
  | .select => "select"
  | .confirm => "confirm"
  | .input => "input"
  | .editor => "editor"

/-- `WORKER_UI_METHODS`. -/
def allUiMethods : List WorkerUiMethod := [.select, .confirm, .input, .editor]

/-- The name of a policy for blocked workers. -/
def blockedPolicyName : BlockedWorkerPolicy → String
  | .decline => "decline"
  | .cancel => "cancel"

/-- `BLOCKED_WORKER_POLICIES`. -/
def allBlockedPolicies : List BlockedWorkerPolicy := [.decline, .cancel]

/-- The name of the outcome of a decision. -/
def UiDecisionOutcome.name : UiDecisionOutcome → String
  | .declined => "declined"
  | .cancelled => "cancelled"

/-- `UI_DECISION_OUTCOMES`. -/
def UiDecisionOutcome.all : List UiDecisionOutcome := [.declined, .cancelled]

/-- The name of the outcome of a request. -/
def WorkerUiResolutionOutcome.name : WorkerUiResolutionOutcome → String
  | .responded => "responded"
  | .declined => "declined"
  | .cancelled => "cancelled"
  | .requestTimeout => "request_timeout"
  | .executionAborted => "execution_aborted"
  | .streamClosed => "stream_closed"
  | .recoveryInterrupted => "recovery_interrupted"

/-- `UI_RESOLUTION_OUTCOMES`. -/
def WorkerUiResolutionOutcome.all : List WorkerUiResolutionOutcome :=
  [.responded, .declined, .cancelled, .requestTimeout, .executionAborted, .streamClosed,
    .recoveryInterrupted]

/-- The value a document names, one of a list. -/
def named? {α : Type} (all : List α) (name : α → String) (value : Option Json) : Option α :=
  match value with
  | some (.str s) => all.find? fun a => name a = s
  | _ => none

/-- A listed value is found by its name. -/
theorem named?_name {α : Type} {all : List α} {name : α → String}
    (hinj : ∀ a ∈ all, ∀ b ∈ all, name a = name b → a = b) {a : α} (ha : a ∈ all) :
    named? all name (some (.str (name a))) = some a := by
  unfold named?
  dsimp only
  cases hfind : all.find? fun b => decide (name b = name a) with
  | none =>
    rw [List.find?_eq_none] at hfind
    exact absurd rfl (of_decide_eq_false (by simpa using hfind a ha) : ¬ name a = name a)
  | some b =>
    have hname := List.find?_some hfind
    rw [hinj b (List.mem_of_find?_eq_some hfind) a ha (of_decide_eq_true hname)]

@[simp] theorem named?_uiMethod (method : WorkerUiMethod) :
    named? allUiMethods uiMethodName (some (.str (uiMethodName method))) = some method :=
  named?_name (by decide) (by cases method <;> decide)

@[simp] theorem named?_blockedPolicy (policy : BlockedWorkerPolicy) :
    named? allBlockedPolicies blockedPolicyName (some (.str (blockedPolicyName policy))) =
      some policy :=
  named?_name (by decide) (by cases policy <;> decide)

@[simp] theorem named?_decisionOutcome (outcome : UiDecisionOutcome) :
    named? UiDecisionOutcome.all UiDecisionOutcome.name (some (.str outcome.name)) = some outcome :=
  named?_name (by decide) (by cases outcome <;> decide)

@[simp] theorem named?_resolutionOutcome (outcome : WorkerUiResolutionOutcome) :
    named? WorkerUiResolutionOutcome.all WorkerUiResolutionOutcome.name (some (.str outcome.name)) =
      some outcome :=
  named?_name (by decide) (by cases outcome <;> decide)

/-! ## Documents -/

/-- An event as a document. -/
def WorkerProgressEvent.toJson : WorkerProgressEvent → Json
  | .agentStarted => .obj [("type", .str "agent_started")]
  | .textDelta text => .obj [("type", .str "text_delta"), ("text", .str text)]
  | .toolStarted toolName => .obj [("type", .str "tool_started"), ("toolName", .str toolName)]
  | .toolFinished toolName isError =>
    .obj [("type", .str "tool_finished"), ("toolName", .str toolName), ("isError", .bool isError)]
  | .retrying message => .obj [("type", .str "retrying"), ("message", .str message)]
  | .uiBlocked requestId method =>
    .obj [("type", .str "ui_blocked"), ("requestId", .str requestId),
      ("method", .str (uiMethodName method))]
  | .uiDecision requestId method policy outcome =>
    .obj [("type", .str "ui_decision"), ("requestId", .str requestId),
      ("method", .str (uiMethodName method)), ("policy", .str (blockedPolicyName policy)),
      ("outcome", .str outcome.name)]
  | .uiResolved requestId method outcome =>
    .obj [("type", .str "ui_resolved"), ("requestId", .str requestId),
      ("method", .str (uiMethodName method)), ("outcome", .str outcome.name)]

end BuildConductor.Workers
