import BuildConductor.Base.Utf8Chunks
import BuildConductor.Domain.JsonText
import Mathlib.Algebra.GroupWithZero.Nat

/-!
# Requests with one response

A request opens a connection, writes one line and settles with the first line it is answered. Each
chunk of the answer is decoded by itself. `src/src/workers/server-backend.ts:372-450`.
-/

namespace BuildConductor.Workers

open Base Domain

/-! ## The code -/

/-- `MAX_STREAM_FRAME_BYTES`. -/
def maxStreamFrameBytes : Nat := 1024 * 1024

/-- Why a request was rejected. -/
inductive RequestError
  | timedOut
  | tooLarge
  | emptyResponse
  | syntaxError (message : String)
  | connection (message : String)
  | closed
deriving DecidableEq, Repr

/-- The text of an error. -/
def RequestError.message (socketPath : String) : RequestError → String
  | .timedOut => s!"Official server request timed out at {socketPath}"
  | .tooLarge => s!"Official server response exceeds {maxStreamFrameBytes} bytes"
  | .emptyResponse => "Official server returned an empty response"
  | .syntaxError message => message
  | .connection message => message
  | .closed => s!"Official server closed {socketPath} without a response"

/-- The value of some decimal digits. -/
def digitsValue (digits : List Char) : Nat :=
  digits.foldl (fun value digit => 10 * value + (digit.toNat - '0'.toNat)) 0

/-- The value of an exponent. -/
def exponentValue : List Char → Int
  | '-' :: digits => -(digitsValue digits : Int)
  | '+' :: digits => digitsValue digits
  | digits => digitsValue digits

/-- A literal is read as zero: its digits are zeros, or it is at most half of the least number. -/
def readsAsZero (literal : List Char) : Bool :=
  let unsigned := if literal.head? = some '-' then literal.tail else literal
  let mantissa := unsigned.takeWhile fun c => c ≠ 'e' && c ≠ 'E'
  let exponent := (unsigned.dropWhile fun c => c ≠ 'e' && c ≠ 'E').drop 1
  let places := (mantissa.dropWhile (· ≠ '.')).length - 1
  let value := digitsValue (mantissa.filter (· ≠ '.'))
  let shift := exponentValue exponent - places
  value = 0 || (shift < 0 && value * 2 ^ 1075 ≤ 10 ^ (-shift).toNat)

/-- `!value`, of a value `JSON.parse` returned. -/
def isFalsy : Json → Bool
  | .null => true
  | .bool value => !value
  | .number value => value = 0
  | .fraction literal => readsAsZero literal.toList
  | .str value => value = ""
  | .arr _ | .obj _ => false

/-- What a request sends, and whether its timer runs on once it is connected. -/
structure RequestOptions where
  payload : Json
  timeoutAfterConnect : Bool

/-- What happens to the connection of a request. -/
inductive SocketEvent
  | connect
  | data (chunk : List UInt8)
  | error (message : String)
  | ended
  | timeout
deriving DecidableEq

/-- A pending or settled request. -/
structure RequestState where
  buffer : List Char
  settlement : Option (Except RequestError Json)
  timer : Bool
  written : List String

namespace RequestState

/-- A request before it is connected. -/
def start : RequestState := ⟨[], none, true, []⟩

/-- Settle a request that is not settled. `src/src/workers/server-backend.ts:382-400`. -/
def finish (outcome : Except RequestError Json) (state : RequestState) : RequestState :=
  match state.settlement with
  | some _ => state
  | none =>
    { state with
      timer := false
      settlement := some (match outcome with
        | .error error => .error error
        | .ok response => if isFalsy response then .error .emptyResponse else .ok response) }

/-- What the first line of a buffer settles a request with, if anything. What `JSON.parse` says of a
text it does not read is not part of the repository. `src/src/workers/server-backend.ts:416-437`. -/
def answerIn (syntaxError : String → String) (buffer : List Char) :
    Option (Except RequestError Json) :=
  if maxStreamFrameBytes < (utf8Bytes (firstLine buffer)).length then some (.error .tooLarge)
  else if '\n' ∈ buffer then
    let frame := String.ofList (firstLine buffer)
    match parseJson frame with
    | some response => some (.ok response)
    | none => some (.error (.syntaxError (syntaxError frame)))
  else none

/-- The handlers of a request. `src/src/workers/server-backend.ts:402-448`. -/
def receive (syntaxError : String → String) (options : RequestOptions) (state : RequestState) :
    SocketEvent → RequestState
  | .connect =>
    { state with
      timer := state.timer && options.timeoutAfterConnect
      written := state.written ++ [jsonText .compact options.payload ++ "\n"] }
  | .data chunk =>
    let buffered := { state with buffer := state.buffer ++ decodeUtf8 chunk }
    match answerIn syntaxError buffered.buffer with
    | none => buffered
    | some outcome => buffered.finish outcome
  | .error message => state.finish (.error (.connection message))
  | .ended => state.finish (.error .closed)
  | .timeout => if state.timer then state.finish (.error .timedOut) else state

end RequestState

/-- What a connected request settles with after some events. -/
def requestSettlement (syntaxError : String → String) (options : RequestOptions)
    (events : List SocketEvent) : Option (Except RequestError Json) :=
  ((SocketEvent.connect :: events).foldl (RequestState.receive syntaxError options)
    .start).settlement

/-! ## One response in chunks -/

namespace RequestState

variable {syntaxError : String → String} {options : RequestOptions}

/-- Two requests are settled alike, and one has its timer running when the other has. -/
private def Alike (s t : RequestState) : Prop := s.settlement = t.settlement ∧ s.timer = t.timer

private theorem Alike.finish {s t : RequestState} (h : Alike s t)
    (outcome : Except RequestError Json) : Alike (s.finish outcome) (t.finish outcome) := by
  obtain ⟨hsettlement, htimer⟩ := h
  unfold RequestState.finish
  cases hs : s.settlement with
  | some settled =>
    rw [← hsettlement, hs]
    exact ⟨hs.trans (hs.symm.trans hsettlement), htimer⟩
  | none =>
    rw [← hsettlement, hs]
    exact ⟨rfl, rfl⟩

private theorem Alike.receive {s t : RequestState} (h : Alike s t) {event : SocketEvent}
    (hclosing : ∀ chunk, event ≠ .data chunk) :
    Alike (s.receive syntaxError options event) (t.receive syntaxError options event) := by
  cases event with
  | connect => exact ⟨h.1, congrArg (· && options.timeoutAfterConnect) h.2⟩
  | data chunk => exact absurd rfl (hclosing chunk)
  | error message => exact h.finish _
  | ended => exact h.finish _
  | timeout =>
    show Alike (if s.timer then s.finish _ else s) (if t.timer then t.finish _ else t)
    rw [h.2]
    split
    · exact h.finish _
    · exact h

private theorem Alike.foldl {s t : RequestState} (h : Alike s t) {closing : List SocketEvent}
    (hclosing : ∀ event ∈ closing, ∀ chunk, event ≠ .data chunk) :
    Alike (closing.foldl (RequestState.receive syntaxError options) s)
      (closing.foldl (RequestState.receive syntaxError options) t) := by
  induction closing generalizing s t with
  | nil => exact h
  | cons event rest ih =>
    rw [List.foldl_cons, List.foldl_cons]
    apply ih (h.receive (hclosing event List.mem_cons_self))
    exact fun other hother => hclosing other (List.mem_cons_of_mem _ hother)

/-- The connected request. -/
private def connected (syntaxError : String → String) (options : RequestOptions) : RequestState :=
  start.receive syntaxError options .connect

/-- A buffer within a line that is not too long settles nothing. -/
private theorem answerIn_within {cs buffer : List Char} (hbuffer : buffer <+: firstLine cs)
    (hnone : '\n' ∉ buffer) (hframe : (utf8Bytes (firstLine cs)).length ≤ maxStreamFrameBytes) :
    answerIn syntaxError buffer = none := by
  obtain ⟨rest, hrest⟩ := hbuffer
  have hlength : (utf8Bytes buffer).length ≤ (utf8Bytes (firstLine cs)).length := by
    rw [← hrest, utf8Bytes_append, List.length_append]
    omega
  unfold answerIn
  rw [firstLine_of_not_mem hnone, if_neg (by omega), if_neg hnone]

/-- What a buffer settles depends on its first line and its line break. -/
private theorem answerIn_congr {cs buffer : List Char} (hbuffer : '\n' ∈ buffer) (hcs : '\n' ∈ cs)
    (hline : firstLine buffer = firstLine cs) :
    answerIn syntaxError buffer = answerIn syntaxError cs := by
  unfold answerIn
  rw [hline, if_pos hbuffer, if_pos hcs]

private theorem exists_answerIn {cs : List Char} (h : '\n' ∈ cs) :
    ∃ outcome, answerIn syntaxError cs = some outcome := by
  unfold answerIn
  rw [if_pos h]
  split
  · exact ⟨_, rfl⟩
  · dsimp only
    split
    · exact ⟨_, rfl⟩
    · exact ⟨_, rfl⟩

private theorem receive_data_settled {state : RequestState} {outcome : Except RequestError Json}
    (h : state.settlement = some outcome) (chunk : List UInt8) :
    Alike (state.receive syntaxError options (.data chunk)) state := by
  unfold RequestState.receive
  dsimp only
  split
  · exact ⟨rfl, rfl⟩
  · unfold RequestState.finish
    rw [h]
    exact ⟨h.symm, rfl⟩

/-- What one chunk with the whole text leaves. -/
private theorem receive_whole (cs : List Char) :
    (connected syntaxError options).receive syntaxError options (.data (utf8Bytes cs)) =
      match answerIn syntaxError cs with
      | none => { connected syntaxError options with buffer := cs }
      | some outcome =>
        { connected syntaxError options with buffer := cs }.finish outcome := by
  unfold RequestState.receive
  dsimp only
  rw [decodeUtf8_utf8Bytes]
  rfl

/-- After some chunks that are cut where characters start, the request waits with their text, or is
settled as by one chunk. -/
private theorem receive_chunks {cs : List Char} {chunks : List (List UInt8)}
    (h : chunks.flatten = utf8Bytes cs)
    (hframe : (utf8Bytes (firstLine cs)).length ≤ maxStreamFrameBytes)
    (hcuts : CutsAtCharacters (utf8Bytes (firstLine cs)).length chunks)
    {before after : List (List UInt8)} (hchunks : chunks = before ++ after) :
    ('\n' ∉ decodeChunks before →
      (before.map SocketEvent.data).foldl (RequestState.receive syntaxError options)
        (connected syntaxError options) =
        { connected syntaxError options with buffer := decodeChunks before }) ∧
    ('\n' ∈ decodeChunks before →
      Alike ((before.map SocketEvent.data).foldl (RequestState.receive syntaxError options)
        (connected syntaxError options))
        ((connected syntaxError options).receive syntaxError options (.data (utf8Bytes cs)))) := by
  induction before using List.reverseRecOn generalizing after with
  | nil => exact ⟨fun _ => rfl, fun hbreak => absurd hbreak List.not_mem_nil⟩
  | append_singleton before chunk ih =>
    have hnext := hchunks
    rw [List.append_assoc] at hnext
    obtain ⟨hwaiting, hsettled⟩ := ih hnext
    have hline := firstLine_decodeChunks h hcuts hchunks
    rw [List.map_append, List.foldl_append, List.map_cons, List.map_nil, List.foldl_cons,
      List.foldl_nil]
    by_cases hbreak : '\n' ∈ decodeChunks before
    · have hstill : '\n' ∈ decodeChunks (before ++ [chunk]) := by
        rw [decodeChunks_concat]
        exact List.mem_append_left _ hbreak
      refine ⟨fun hnone => absurd hstill hnone, fun _ => ?_⟩
      have halike := hsettled hbreak
      rcases hline with ⟨-, hcs, -⟩ | ⟨hnone, -⟩
      · obtain ⟨outcome, houtcome⟩ := @exists_answerIn syntaxError cs hcs
        have hwhole := @receive_whole syntaxError options cs
        rw [houtcome] at hwhole
        have hsome := halike.1
        rw [hwhole] at hsome
        have hkept := @receive_data_settled syntaxError options _ _ hsome chunk
        exact ⟨hkept.1.trans halike.1, hkept.2.trans halike.2⟩
      · exact absurd hstill hnone
    · rw [hwaiting hbreak]
      have htext : decodeChunks before ++ decodeUtf8 chunk = decodeChunks (before ++ [chunk]) :=
        (decodeChunks_concat before chunk).symm
      have hreceive : RequestState.receive syntaxError options
          { connected syntaxError options with buffer := decodeChunks before } (.data chunk) =
          match answerIn syntaxError (decodeChunks (before ++ [chunk])) with
          | none =>
            { connected syntaxError options with buffer := decodeChunks (before ++ [chunk]) }
          | some outcome =>
            { connected syntaxError options with
              buffer := decodeChunks (before ++ [chunk]) }.finish outcome := by
        unfold RequestState.receive
        dsimp only
        rw [htext]
      rw [hreceive]
      rcases hline with ⟨hhas, hcs, hsame⟩ | ⟨hnone, hpart⟩
      · refine ⟨fun hnone => absurd hhas hnone, fun _ => ?_⟩
        obtain ⟨outcome, houtcome⟩ := @exists_answerIn syntaxError cs hcs
        rw [answerIn_congr hhas hcs hsame, receive_whole, houtcome]
        exact Alike.finish ⟨rfl, rfl⟩ outcome
      · refine ⟨fun _ => ?_, fun hhas => absurd hhas hnone⟩
        rw [answerIn_within hpart hnone hframe]

end RequestState

open RequestState in
/-- The line a request reads from chunks is the one that was sent exactly when the chunks that begin
within it begin where a character starts, and then the request settles as with one chunk. -/
theorem chunked_response_settles_alike {syntaxError : String → String} {options : RequestOptions}
    {cs : List Char} {chunks : List (List UInt8)} (h : chunks.flatten = utf8Bytes cs)
    (hframe : (utf8Bytes (firstLine cs)).length ≤ maxStreamFrameBytes) :
    (firstLine (decodeChunks chunks) = firstLine cs ↔
      CutsAtCharacters (utf8Bytes (firstLine cs)).length chunks) ∧
    (CutsAtCharacters (utf8Bytes (firstLine cs)).length chunks →
      ∀ closing : List SocketEvent, (∀ event ∈ closing, ∀ chunk, event ≠ .data chunk) →
        requestSettlement syntaxError options (chunks.map .data ++ closing) =
          requestSettlement syntaxError options (.data (utf8Bytes cs) :: closing)) := by
  refine ⟨firstLine_decodeChunks_iff h, fun hcuts closing hclosing => ?_⟩
  have halike : Alike
      ((chunks.map SocketEvent.data).foldl (RequestState.receive syntaxError options)
        (connected syntaxError options))
      ((connected syntaxError options).receive syntaxError options (.data (utf8Bytes cs))) := by
    obtain ⟨hwaiting, hsettled⟩ := @receive_chunks syntaxError options _ _ h hframe hcuts _ _
      (List.append_nil chunks).symm
    obtain ⟨hline, hbreak⟩ := decodeChunks_of_cuts h hcuts
    by_cases hhas : '\n' ∈ decodeChunks chunks
    · exact hsettled hhas
    · have hnone : '\n' ∉ cs := fun hcs => hhas (hbreak.mpr hcs)
      rw [hwaiting hhas, receive_whole,
        answerIn_within (by rw [firstLine_of_not_mem hnone]) hnone hframe]
      exact ⟨rfl, rfl⟩
  unfold requestSettlement
  rw [List.foldl_cons, List.foldl_cons, List.foldl_append, List.foldl_cons]
  exact (halike.foldl hclosing).1

/-- A failed answer whose error text has a character of two bytes. -/
private def accentedAnswer : List Char := "\x7b\"ok\":false,\"error\":\"é\"\x7d\n".toList

/-- The bytes of the answer, cut before some byte. -/
private def cutAnswer (place : Nat) : List (List UInt8) :=
  [(utf8Bytes accentedAnswer).take place, (utf8Bytes accentedAnswer).drop place]

/-- Cut before its accented character, the answer settles as in one chunk. -/
theorem answer_cut_before_character :
    (cutAnswer 21).flatten = utf8Bytes accentedAnswer ∧
    (utf8Bytes (firstLine accentedAnswer)).length ≤ maxStreamFrameBytes ∧
    ((firstLine (decodeChunks (cutAnswer 21)) = firstLine accentedAnswer ↔
        CutsAtCharacters (utf8Bytes (firstLine accentedAnswer)).length (cutAnswer 21)) ∧
      (CutsAtCharacters (utf8Bytes (firstLine accentedAnswer)).length (cutAnswer 21) →
        ∀ closing : List SocketEvent, (∀ event ∈ closing, ∀ chunk, event ≠ .data chunk) →
          requestSettlement id ⟨.null, true⟩ ((cutAnswer 21).map .data ++ closing) =
            requestSettlement id ⟨.null, true⟩
              (.data (utf8Bytes accentedAnswer) :: closing))) :=
  ⟨by decide +kernel, by decide +kernel,
    chunked_response_settles_alike (by decide +kernel) (by decide +kernel)⟩

/-- The text of the response a request resolved with. -/
private def responseText (settlement : Option (Except RequestError Json)) : Option String :=
  (settlement.bind Except.toOption).map (jsonText .compact)

/-- Cut inside that character, the request resolves with another error text. -/
theorem answer_cut_inside_character :
    (cutAnswer 22).flatten = utf8Bytes accentedAnswer ∧
    (utf8Bytes (firstLine accentedAnswer)).length ≤ maxStreamFrameBytes ∧
    responseText (requestSettlement id ⟨.null, true⟩ ((cutAnswer 22).map .data)) =
      some "\x7b\"ok\":false,\"error\":\"\uFFFD\uFFFD\"\x7d" ∧
    responseText (requestSettlement id ⟨.null, true⟩ [.data (utf8Bytes accentedAnswer)]) =
      some "\x7b\"ok\":false,\"error\":\"é\"\x7d" ∧
    requestSettlement id ⟨.null, true⟩ ((cutAnswer 22).map .data) ≠
      requestSettlement id ⟨.null, true⟩ [.data (utf8Bytes accentedAnswer)] := by
  have hcut : responseText (requestSettlement id ⟨.null, true⟩ ((cutAnswer 22).map .data)) =
      some "\x7b\"ok\":false,\"error\":\"\uFFFD\uFFFD\"\x7d" := by
    decide +kernel
  have hwhole :
      responseText (requestSettlement id ⟨.null, true⟩ [.data (utf8Bytes accentedAnswer)]) =
        some "\x7b\"ok\":false,\"error\":\"é\"\x7d" := by
    decide +kernel
  refine ⟨by decide +kernel, by decide +kernel, hcut, hwhole, fun hsame => ?_⟩
  rw [hsame, hwhole] at hcut
  exact absurd hcut (by decide)

end BuildConductor.Workers
