import BuildConductor.Domain.ParsedValues
import BuildConductor.Domain.Text
import BuildConductor.Storage.EventDocuments
import BuildConductor.Workers.Backend
import BuildConductor.Workers.ServerRequest

/-!
# The messages of a worker's stream

What the messages of the event stream are read as: requests that block the worker, progress, and how
a run of the agent ended. `src/src/workers/server-backend.ts:127-356`.
-/

namespace BuildConductor.Workers

open Base Domain Storage

/-! ## Requests that block a worker -/

/-- What a request asks, by its method. -/
inductive WorkerUiQuestion
  | select (options : List String)
  | confirm (message : String)
  | input (placeholder : Option String)
  | editor (prefill : Option String)

/-- `src/src/domain/types.ts:208-235`. -/
structure WorkerUiRequest where
  id : String
  title : String
  question : WorkerUiQuestion
  timeoutMs : Option Json

/-- The method of a request. -/
def WorkerUiRequest.method (request : WorkerUiRequest) : WorkerUiMethod :=
  match request.question with
  | .select _ => .select
  | .confirm _ => .confirm
  | .input _ => .input
  | .editor _ => .editor

/-- `src/src/domain/types.ts:237-240`. -/
inductive WorkerUiResponse
  | value (value : String)
  | confirmation (confirmed : Bool)
  | cancelled

def maxUiRequestIdLength : Nat := 256

def maxUiTitleLength : Nat := 4096

def maxUiTextLength : Nat := 64 * 1024

def maxUiOptions : Nat := 1000

/-- `src/src/workers/server-backend.ts:127-139`. -/
def boundedUiString (value : Option Json) (field : String) (maximum : Nat) : Except String String :=
  match value with
  | some (.str text) =>
    if utf16Length text > maximum then
      .error s!"Worker UI request {field} exceeds {maximum} characters"
    else .ok text
  | _ => .error s!"Worker UI request {field} must be a string"

/-- A value that may be left out, and is bounded when it is not. -/
def optionalUiString (value : Option Json) (field : String) (maximum : Nat) :
    Except String (Option String) :=
  match value with
  | none => .ok none
  | some value => some <$> boundedUiString (some value) field maximum

/-- The least positive number that reads as infinity. -/
def infinityBound : Nat := 2 ^ 1024 - 2 ^ 970

/-- `Number.isFinite(value) && value > 0`. -/
def isPositiveFinite : Json → Bool
  | .number value => 0 < value ∧ value < infinityBound
  | .fraction literal =>
    let digits := literal.toList
    let mantissa := digits.takeWhile fun c => c ≠ 'e' && c ≠ 'E'
    let exponent := exponentValue ((digits.dropWhile fun c => c ≠ 'e' && c ≠ 'E').drop 1)
    let shift := exponent - ((mantissa.dropWhile (· ≠ '.')).length - 1 : Nat)
    let value := digitsValue (mantissa.filter (· ≠ '.'))
    digits.head? ≠ some '-' && !readsAsZero digits &&
      decide (value * 10 ^ shift.toNat < infinityBound * 10 ^ (-shift).toNat)
  | _ => false

/-- `src/src/workers/server-backend.ts:141-149`. -/
def uiRequestTimeout (value : Option Json) : Except String (Option Json) :=
  match value with
  | none => .ok none
  | some value =>
    if isPositiveFinite value then .ok (some value)
    else .error "Worker UI request timeout must be a positive number"

/-- An option that is a text within its bound. -/
def boundedOption : Json → Option String
  | .str text => if utf16Length text > maxUiTextLength then none else some text
  | _ => none

/-- `src/src/workers/server-backend.ts:171-182`. -/
def uiOptions (value : Option Json) : Except String (List String) :=
  let message := s!"Worker UI request options must contain at most {maxUiOptions} bounded strings"
  match value with
  | some (.arr items) =>
    if items.length > maxUiOptions then .error message else require (items.mapM boundedOption) message
  | _ => .error message

/-- The methods that block a worker. -/
def blockingMethod (value : Option Json) : Option WorkerUiMethod :=
  allUiMethods.find? fun method => Json.isText value (uiMethodName method)

/-- What a blocking request asks. `src/src/workers/server-backend.ts:170-233`. -/
def uiQuestion (method : WorkerUiMethod) (message : Json) :
    Except String (WorkerUiQuestion × Option Json) :=
  match method with
  | .select => do
    let options ← uiOptions (← message.property "options")
    let timeoutMs ← uiRequestTimeout (← message.property "timeout")
    pure (.select options, timeoutMs)
  | .confirm => do
    let timeoutMs ← uiRequestTimeout (← message.property "timeout")
    let text ← boundedUiString (← message.property "message") "message" maxUiTextLength
    pure (.confirm text, timeoutMs)
  | .input => do
    let timeoutMs ← uiRequestTimeout (← message.property "timeout")
    let placeholder ←
      optionalUiString (← message.property "placeholder") "placeholder" maxUiTextLength
    pure (.input placeholder, timeoutMs)
  | .editor => do
    let prefill ← optionalUiString (← message.property "prefill") "prefill" maxUiTextLength
    pure (.editor prefill, none)

/-- `src/src/workers/server-backend.ts:151-234`. -/
def blockingUiRequest (message : Json) : Except String (Option WorkerUiRequest) := do
  if !Json.isText (← message.property "type") "extension_ui_request" then pure none
  else
    match blockingMethod (← message.property "method") with
    | none => pure none
    | some method => do
      let id ← boundedUiString (← message.property "id") "id" maxUiRequestIdLength
      ensure (id ≠ "") "Worker UI request id must not be empty"
      let title ← boundedUiString (← message.property "title") "title" maxUiTitleLength
      let (question, timeoutMs) ← uiQuestion method message
      pure (some ⟨id, title, question, timeoutMs⟩)

/-- The line a response is written as, and what it does to the request.
`src/src/workers/server-backend.ts:236-278`. -/
def wireUiResponse (request : WorkerUiRequest) (response : WorkerUiResponse) :
    Except String (Json × WorkerUiResolutionOutcome) :=
  let command (key : String) (value : Json) : Json :=
    .obj [("type", .str "extension_ui_response"), ("id", .str request.id), (key, value)]
  match response with
  | .cancelled => .ok (command "cancelled" (.bool true), .cancelled)
  | .confirmation confirmed =>
    if request.method ≠ .confirm then
      .error s!"Worker UI request {request.id} ({uiMethodName request.method}) does not accept a confirmation response"
    else .ok (command "confirmed" (.bool confirmed), if confirmed then .responded else .declined)
  | .value value =>
    if request.method = .confirm then
      .error s!"Worker UI request {request.id} (confirm) does not accept a value response"
    else .ok (command "value" (.str value), .responded)

/-! ## Progress -/

/-- `value?.[key]`. -/
def chained (value : Option Json) (key : String) : Option Json :=
  match value with
  | some (.obj fields) => Json.field fields key
  | _ => none

/-- `value ?? fallback`. -/
def orElse (value : Option Json) (fallback : String) : Json :=
  match value with
  | none | some .null => .str fallback
  | some value => value

/-- `src/src/workers/server-backend.ts:280-311`. -/
def progressEvent (message : Json) : Except String (Option WorkerProgressEvent) := do
  match ← message.property "type" with
  | some (.str "agent_start") => pure (some .agentStarted)
  | some (.str "message_update") => do
    let update ← message.property "assistantMessageEvent"
    match Json.isText (chained update "type") "text_delta", chained update "delta" with
    | true, some (.str text) => pure (some (.textDelta text))
    | _, _ => pure none
  | some (.str "tool_execution_start") => do
    match ← message.property "toolName" with
    | some (.str toolName) => pure (some (.toolStarted toolName))
    | _ => pure none
  | some (.str "tool_execution_end") => do
    let isError ← message.property "isError"
    match ← message.property "toolName" with
    | some (.str toolName) =>
      pure (some (.toolFinished toolName (match isError with | some (.bool true) => true | _ => false)))
    | _ => pure none
  | some (.str "auto_retry_start") => do
    let error ← message.property "errorMessage"
    pure (some (.retrying (textOf (orElse error "Pi is retrying a transient failure"))))
  | _ => pure none

/-! ## How the agent ended -/

/-- `MAX_FINAL_OUTPUT_BYTES`. -/
def maxFinalOutputBytes : Nat := 256 * 1024

/-- The first of some items a test that may throw holds of. -/
def findItem (test : Json → Except String Bool) : List Json → Except String (Option Json)
  | [] => pure none
  | item :: rest => do if ← test item then pure (some item) else findItem test rest

/-- The last message of the assistant. `src/src/workers/server-backend.ts:317-319`. -/
def lastAssistant (message : Json) : Except String (Option Json) := do
  match ← message.property "messages" with
  | none | some .null => pure none
  | some (.arr items) =>
    findItem (fun item => do pure (Json.isText (← item.property "role") "assistant")) items.reverse
  | some _ => .error "message.messages?.toReversed is not a function"

/-- The text of one item of a message, when it is one. -/
def textPart (item : Json) : Except String (Option String) := do
  let type ← item.property "type"
  match Json.isText type "text", ← item.property "text" with
  | true, some (.str text) => pure (some text)
  | _, _ => pure none

/-- The texts of a message. `src/src/workers/server-backend.ts:320-322`. -/
def textParts (assistant : Option Json) : Except String (Option (List String)) :=
  match assistant with
  | none => pure none
  | some assistant => do
    match ← assistant.property "content" with
    | none | some .null => pure none
    | some (.arr items) => (fun parts => some (parts.filterMap id)) <$> items.mapM textPart
    | some _ => .error "assistant?.content?.flatMap is not a function"

/-- `src/src/workers/server-backend.ts:313-334`. -/
def assistantOutput (message : Json) : Except String (Option String) := do
  if !Json.isText (← message.property "type") "agent_end" then pure none
  else
    match ← textParts (← lastAssistant message) with
    | none => pure none
    | some parts => do
      ensure ((parts.map String.utf8ByteSize).sum ≤ maxFinalOutputBytes)
        s!"Final assistant output exceeds {maxFinalOutputBytes} bytes"
      let output := String.join parts
      pure (if trim output = "" then none else some output)

/-- The failure a message reports, as the value it reports. `src/src/workers/server-backend.ts:336-356`. -/
def agentFailure (message : Json) : Except String (Option Json) := do
  let type ← message.property "type"
  let success ← message.property "success"
  if Json.isText type "auto_retry_end" && (match success with | some (.bool false) => true | _ => false) then
    pure (some (orElse (← message.property "finalError") "Pi exhausted its automatic retries"))
  else if !Json.isText type "agent_end" then pure none
  else
    match ← lastAssistant message with
    | none => pure none
    | some assistant => do
      match ← assistant.property "stopReason" with
      | some (.str reason) =>
        if reason = "error" ∨ reason = "aborted" then
          pure (some (orElse (← assistant.property "errorMessage")
            s!"Pi finished with stop reason {reason}"))
        else pure none
      | _ => pure none

end BuildConductor.Workers
