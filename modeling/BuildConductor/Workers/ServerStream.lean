import BuildConductor.Base.LineFraming
import BuildConductor.Workers.StreamProtocol

/-!
# The event stream of a prompt

A prompt is executed over one connection: the server accepts it, streams what the worker does, and
settles. Timers, aborts, responses and the status of a lost worker interleave with it. What
`StringDecoder` makes of a chunk is taken as the chunk. `src/src/workers/server-backend.ts:554-925`.
-/

namespace BuildConductor.Workers

open Base Domain Storage

/-! ## The state -/

/-- A request that is open. `src/src/workers/server-backend.ts:569-576`. -/
structure PendingUiRequest where
  serial : Nat
  request : WorkerUiRequest
  /-- What the response being written resolves the request with. -/
  responding : Option WorkerUiResolutionOutcome

/-- `startSettled` and `terminal` are that `start` and `completion` are settled. -/
structure StreamState where
  start : Option (Except String Unit)
  completion : Option WorkerExecutionResult
  disconnectHandled : Bool
  /-- The socket error behind a disconnect, while the status of the worker is asked for. -/
  statusAsked : Option (Option String)
  agentRunFailure : Option Json
  retryFailure : Option Json
  finalOutput : Option String
  pending : List PendingUiRequest
  announced : Nat
  writable : Bool
  listening : Bool
  trace : List StreamEntry

/-- What a handler of requests does before it returns. -/
structure UiHandling where
  responses : List WorkerUiResponse
  thrown : Option String

/-- `src/src/workers/backend.ts:9-14`. -/
inductive WorkerStatus
  | starting | online | stopping | stopped | error
deriving DecidableEq, Repr

/-- The name of a status. -/
def WorkerStatus.name : WorkerStatus → String
  | starting => "starting"
  | online => "online"
  | stopping => "stopping"
  | stopped => "stopped"
  | error => "error"

/-- What a stream is opened with. What `JSON.parse` says of a text it does not read is not part of
the repository. -/
structure StreamOptions where
  workerId : String
  socketPath : String
  onUiRequest : Option (Nat → WorkerUiRequest → UiHandling)
  syntaxError : String → String

/-- What happens to a stream. -/
inductive StreamEvent
  | connect
  | data (chunk : List Char)
  | error (message : String)
  | ended (chunk : List Char)
  | startTimeout
  | abort (message : String)
  | statusAnswered (answer : Except String WorkerStatus)
  | respond (serial : Nat) (response : WorkerUiResponse)
  | writeSettled (serial : Nat) (error : Option String)
  | requestTimeout (serial : Nat)
  | handlerFailed (serial : Nat) (message : String)
  | unwritable

namespace StreamState

/-- A stream before it is connected. -/
def opened : StreamState :=
  ⟨none, none, false, none, none, none, none, [], 0, true, true, []⟩

/-- What others can see of a stream. -/
def view (s : StreamState) : Observation :=
  ⟨s.pending.map fun pending => (pending.serial, pending.request), s.announced, s.completion, s.start⟩

/-- An open request. -/
def find (serial : Nat) (s : StreamState) : Option PendingUiRequest :=
  s.pending.find? fun pending => pending.serial = serial

/-! ## Settling -/

/-- `resolveUiRequest`. `src/src/workers/server-backend.ts:587-605`. -/
def resolve (serial : Nat) (outcome : WorkerUiResolutionOutcome) (s : StreamState) : StreamState :=
  match s.find serial with
  | none => s
  | some pending =>
    { s with
      pending := s.pending.filter fun other => other.serial ≠ serial
      trace := s.trace ++ [.resolved serial pending.request outcome] }

/-- `invalidateUiRequests`. `src/src/workers/server-backend.ts:606-610`. -/
def invalidate (outcome : WorkerUiResolutionOutcome) (s : StreamState) : StreamState :=
  s.pending.foldl (fun s pending => s.resolve pending.serial outcome) s

/-- The completion settles behind the requests it leaves open. -/
def settle (result : WorkerExecutionResult) (outcome : WorkerUiResolutionOutcome) (s : StreamState) :
    StreamState :=
  let closed := s.invalidate outcome
  { closed with completion := some result, trace := closed.trace ++ [.settled result] }

/-- The listener is removed, and the socket is destroyed. -/
def destroy (s : StreamState) : StreamState := { s with listening := false, writable := false }

/-- `src/src/workers/server-backend.ts:616-630`. -/
def finishCompletion (result : WorkerExecutionResult) (s : StreamState) : StreamState :=
  if s.completion.isSome then s
  else
    let settled := s.settle result (match result with | .aborted _ => .executionAborted | _ => .streamClosed)
    if s.start.isSome then settled.destroy else settled

/-- `src/src/workers/server-backend.ts:631-644`. -/
def failStart (error : String) (s : StreamState) : StreamState :=
  if s.start.isSome then s.finishCompletion (.failed (.str error))
  else
    let closed :=
      if s.completion.isSome then s.invalidate .streamClosed
      else s.settle (.failed (.str error)) .streamClosed
    destroy { closed with
      start := some (.error error), trace := closed.trace ++ [.started (.error error)] }

/-- `src/src/workers/server-backend.ts:645-653`. -/
def handleAbort (error : String) (s : StreamState) : StreamState :=
  if s.start.isSome then s.finishCompletion (.aborted error)
  else (s.invalidate .executionAborted).failStart error

/-- `src/src/workers/server-backend.ts:745-793`. -/
def handleDisconnect (socketError : Option String) (s : StreamState) : StreamState :=
  if s.disconnectHandled then s
  else if s.start.isNone then
    { s with disconnectHandled := true }.failStart
      (socketError.getD "Official server stream closed before prompt acceptance")
  else if s.completion.isSome then { s with disconnectHandled := true }
  else { s with disconnectHandled := true, statusAsked := some socketError }

/-- What a lost worker failed with. `src/src/workers/server-backend.ts:770-792`. -/
def disconnectError (workerId : String) : Except String WorkerStatus → String
  | .error error => s!"Worker {workerId} disconnected: {error}"
  | .ok .error => s!"Worker {workerId} entered error status"
  | .ok .stopped => s!"Worker {workerId} stopped before Pi settled"
  | .ok status => s!"Worker {workerId} closed its event stream while {status.name}"

/-- The status of a lost worker is answered. -/
def statusAnswered (workerId : String) (answer : Except String WorkerStatus) (s : StreamState) :
    StreamState :=
  match s.statusAsked with
  | none => s
  | some socketError =>
    { s with statusAsked := none }.finishCompletion
      (.failed (.str (socketError.getD (disconnectError workerId answer))))

/-! ## Requests -/

/-- What a handler is told of a response it may not give is left out.
`src/src/workers/server-backend.ts:654-699`. -/
def respondToUiRequest (serial : Nat) (response : WorkerUiResponse) (s : StreamState) : StreamState :=
  match s.find serial with
  | none => s
  | some pending =>
    match pending.responding, wireUiResponse pending.request response with
    | none, .ok (command, outcome) =>
      if s.completion.isSome ∨ s.writable = false then s
      else
        { s with
          pending := s.pending.map fun other =>
            if other.serial = serial then { other with responding := some outcome } else other
          trace := s.trace ++ [.answered serial command] }
    | _, _ => s

/-- The line of a response is written, or not. `src/src/workers/server-backend.ts:681-698`. -/
def writeSettled (serial : Nat) (error : Option String) (s : StreamState) : StreamState :=
  match (s.find serial).bind (·.responding) with
  | none => s
  | some outcome =>
    match error with
    | none => s.resolve serial outcome
    | some _ =>
      { s with
        pending := s.pending.map fun other =>
          if other.serial = serial then { other with responding := none } else other }

/-- The timer of a request runs out. `src/src/workers/server-backend.ts:711-716`. -/
def requestTimeout (serial : Nat) (s : StreamState) : StreamState :=
  match (s.find serial).bind (·.request.timeoutMs) with
  | none => s
  | some _ => s.resolve serial .requestTimeout

/-- A handler fails after it returned. `src/src/workers/server-backend.ts:734-743`. -/
def handlerFailed (serial : Nat) (message : String) (s : StreamState) : StreamState :=
  match s.find serial with
  | none => s
  | some pending =>
    s.failStart s!"Failed to handle worker UI request {pending.request.id}: {message}"

/-- What the handler does while it is called. `src/src/workers/server-backend.ts:726-733`. -/
def callHandler (serial : Nat) (handling : UiHandling) (s : StreamState) : StreamState :=
  let answered := handling.responses.foldl (fun s response => s.respondToUiRequest serial response) s
  match handling.thrown with
  | none => answered
  | some error => answered.failStart error

/-- What is thrown fails the start, as the caller catches it. `src/src/workers/server-backend.ts:700-744`. -/
def registerUiRequest (options : StreamOptions) (request : WorkerUiRequest) (s : StreamState) :
    StreamState :=
  if s.pending.any fun pending => pending.request.id = request.id then
    s.failStart s!"Duplicate worker UI request id: {request.id}"
  else
    let serial := s.announced
    let registered : StreamState :=
      { s with
        pending := s.pending ++ [⟨serial, request, none⟩]
        announced := serial + 1
        trace := s.trace ++ [.announced serial request] }
    match options.onUiRequest with
    | none => registered
    | some handle => registered.callHandler serial (handle serial request)

/-! ## Messages -/

/-- A step that may throw. -/
def attempting {α : Type} (result : Except String α) (next : α → StreamState) (s : StreamState) :
    StreamState :=
  match result with
  | .error error => s.failStart error
  | .ok value => next value

/-- The error a message carries. -/
def errorText (message : Json) (fallback : String) : String :=
  textOf (orElse (chained (some message) "error") fallback)

/-- Whether a property is a given boolean. -/
def isBool (message : Json) (key : String) (value : Bool) : Bool :=
  match chained (some message) key with
  | some (.bool found) => found = value
  | _ => false

/-- The prompt is accepted. `src/src/workers/server-backend.ts:817-825`. -/
def acceptPrompt (s : StreamState) : StreamState :=
  if s.start.isSome then s
  else
    let accepted : StreamState :=
      { s with start := some (.ok ()), trace := s.trace ++ [.started (.ok ())] }
    if s.completion.isSome then accepted.destroy else accepted

/-- `src/src/workers/server-backend.ts:850-862`. -/
def settleAgent (s : StreamState) : StreamState :=
  match (s.retryFailure.or s.agentRunFailure).filter fun failure => !isFalsy failure with
  | some failure => s.finishCompletion (.failed failure)
  | none => s.finishCompletion (.succeeded s.finalOutput)

/-- What a message says of the agent. `src/src/workers/server-backend.ts:843-862`. -/
def trackAgent (message : Json) (type : Option Json) (s : StreamState) : StreamState :=
  match type with
  | some (.str "agent_end") =>
    s.attempting (agentFailure message) fun failure =>
      let failed : StreamState := { s with agentRunFailure := failure }
      failed.attempting (assistantOutput message) fun output => { failed with finalOutput := output }
  | some (.str "auto_retry_end") =>
    if isBool message "success" true then { s with retryFailure := none }
    else s.attempting (agentFailure message) fun failure => { s with retryFailure := failure }
  | some (.str "agent_settled") => s.settleAgent
  | _ => s

/-- `src/src/workers/server-backend.ts:794-863`. -/
def handleMessage (options : StreamOptions) (message : Json) (s : StreamState) : StreamState :=
  s.attempting (message.property "type") fun type =>
    if Json.isText type "rpc_ready" then
      if isBool message "ok" true then { s with trace := s.trace ++ [.prompted] }
      else s.failStart
        (errorText message s!"Official server could not stream worker {options.workerId}")
    else if Json.isText type "response" && Json.isText (chained (some message) "id") "conductor_prompt" then
      if isBool message "success" true then s.acceptPrompt
      else s.failStart (errorText message "Official server rejected prompt")
    else if Json.isText type "error" && isBool message "ok" false then
      s.failStart (errorText message "Official server stream failed")
    else
      s.attempting (blockingUiRequest message) fun request =>
        match request with
        | some request => s.registerUiRequest options request
        | none =>
          s.attempting (progressEvent message) fun event =>
            match event with
            | none => s.trackAgent message type
            | some event =>
              let reported : StreamState := { s with trace := s.trace ++ [.progressed event] }
              reported.trackAgent message type

/-- A line that is not too long. `src/src/workers/server-backend.ts:890-896`. -/
def handleFrame (options : StreamOptions) (frame : List Char) (s : StreamState) : StreamState :=
  match parseJson (String.ofList frame) with
  | none => s.failStart (options.syntaxError (String.ofList frame))
  | some message => s.handleMessage options message

end StreamState

/-! ## Frames -/

/-- `line.replace(/\r$/, "")`. -/
def withoutReturn (line : List Char) : List Char :=
  if line.getLast? = some '\r' then line.dropLast else line

/-- The frame limit is exceeded. -/
def frameError : String := s!"Official server frame exceeds {maxStreamFrameBytes} bytes"

/-- A stream with what was received and is not handled yet. -/
structure ServerStream where
  buffer : List Char
  state : StreamState

namespace ServerStream

/-- The lines a buffer holds, and the rest that stays in it. A line that is too long leaves what
follows it in the buffer. `src/src/workers/server-backend.ts:866-898`. -/
def processLines (options : StreamOptions) :
    List (List Char) → List Char → StreamState → ServerStream
  | [], rest, state =>
    ⟨rest, if maxStreamFrameBytes < (utf8Bytes rest).length then state.failStart frameError else state⟩
  | line :: lines, rest, state =>
    let frame := withoutReturn line
    if frame = [] then processLines options lines rest state
    else if maxStreamFrameBytes < (utf8Bytes frame).length then
      ⟨terminated '\n' lines ++ rest, state.failStart frameError⟩
    else processLines options lines rest (state.handleFrame options frame)

/-- `src/src/workers/server-backend.ts:864-899`. -/
def processChunk (options : StreamOptions) (chunk : List Char) (stream : ServerStream) :
    ServerStream :=
  let (lines, rest) := splitLines '\n' (stream.buffer ++ chunk)
  processLines options lines rest stream.state

/-- `src/src/workers/server-backend.ts:900-924`. -/
def receive (options : StreamOptions) (stream : ServerStream) (event : StreamEvent) : ServerStream :=
  let state := stream.state
  match event with
  | .connect => { stream with state := { state with trace := state.trace ++ [.subscribed] } }
  | .data chunk => stream.processChunk options chunk
  | .error message => { stream with state := state.handleDisconnect (some message) }
  | .ended chunk =>
    let received := stream.processChunk options chunk
    { received with state := received.state.handleDisconnect none }
  | .startTimeout =>
    if state.start.isSome then stream
    else
      { stream with
        state := state.failStart s!"Official server stream timed out at {options.socketPath}" }
  | .abort message =>
    if state.listening then
      { stream with state := { state with listening := false }.handleAbort message }
    else stream
  | .statusAnswered answer => { stream with state := state.statusAnswered options.workerId answer }
  | .respond serial response => { stream with state := state.respondToUiRequest serial response }
  | .writeSettled serial error => { stream with state := state.writeSettled serial error }
  | .requestTimeout serial => { stream with state := state.requestTimeout serial }
  | .handlerFailed serial message => { stream with state := state.handlerFailed serial message }
  | .unwritable => { stream with state := { state with writable := false } }

/-- A signal that is aborted already aborts the stream at once.
`src/src/workers/server-backend.ts:919-923`. -/
def openStream (aborted : Option String) : ServerStream :=
  match aborted with
  | none => ⟨[], .opened⟩
  | some message => ⟨[], { StreamState.opened with listening := false }.handleAbort message⟩

/-- A stream after some events. -/
def run (options : StreamOptions) (aborted : Option String) (events : List StreamEvent) :
    ServerStream :=
  events.foldl (receive options) (openStream aborted)

end ServerStream

end BuildConductor.Workers
