import BuildConductor.Base.Checks
import BuildConductor.Domain.JsonText
import BuildConductor.Workers.Backend

/-!
# Attempt log entries

The entries of an attempt log, what is removed from their texts, and their lines: the line of a
sanitised entry parses back to the entry. `src/src/storage/attempt-log-store.ts:24-333`.
-/

namespace BuildConductor.Storage

open Base Domain Security Workers

/-- `src/src/storage/attempt-log-store.ts:20-25`. -/
inductive AttemptTerminalStatus
  | succeeded | failed | aborted | cancelled | interrupted
deriving DecidableEq, Repr

/-- The name of a terminal status. -/
def AttemptTerminalStatus.name : AttemptTerminalStatus → String
  | .succeeded => "succeeded"
  | .failed => "failed"
  | .aborted => "aborted"
  | .cancelled => "cancelled"
  | .interrupted => "interrupted"

/-- `TERMINAL_STATUSES`. -/
def AttemptTerminalStatus.all : List AttemptTerminalStatus :=
  [.succeeded, .failed, .aborted, .cancelled, .interrupted]

@[simp] theorem named?_terminalStatus (status : AttemptTerminalStatus) :
    named? AttemptTerminalStatus.all AttemptTerminalStatus.name (some (.str status.name)) =
      some status :=
  named?_name (by decide) (by cases status <;> decide)

/-- `src/src/storage/attempt-log-store.ts:32-47`. -/
inductive AttemptLogEntry
  | progress (timestamp : String) (event : WorkerProgressEvent)
  | terminal (timestamp : String) (status : AttemptTerminalStatus) (message : Option String)
  | truncated (message : String)
deriving DecidableEq, Repr

/-- An entry as a document. -/
def AttemptLogEntry.toJson : AttemptLogEntry → Json
  | .progress timestamp event =>
    .obj [("kind", .str "progress"), ("timestamp", .str timestamp), ("event", event.toJson)]
  | .terminal timestamp status none =>
    .obj [("kind", .str "terminal"), ("timestamp", .str timestamp), ("status", .str status.name)]
  | .terminal timestamp status (some message) =>
    .obj [("kind", .str "terminal"), ("timestamp", .str timestamp), ("status", .str status.name),
      ("message", .str message)]
  | .truncated message => .obj [("kind", .str "truncated"), ("message", .str message)]

/-- `JSON.stringify(entry)`. -/
def AttemptLogEntry.line (entry : AttemptLogEntry) : String := jsonText .compact entry.toJson

/-! ## Sanitising -/

/-- The character is a line break, a tab or no control character. -/
def isLogCharacter (c : Char) : Bool :=
  c = '\n' || c = '\t' || !(c.toNat < 0x20 || (0x7F ≤ c.toNat && c.toNat ≤ 0x9F))

section

variable (stripVTControlCharacters : String → String)

/-- `src/src/storage/attempt-log-store.ts:104-122`. -/
def sanitizeAttemptLogText (value : String) : String :=
  String.ofList ((stripVTControlCharacters value).toList.filter isLogCharacter)

/-- `src/src/storage/attempt-log-store.ts:124-175`. -/
def sanitizeProgressEvent : WorkerProgressEvent → WorkerProgressEvent
  | .agentStarted => .agentStarted
  | .textDelta text => .textDelta (sanitizeAttemptLogText stripVTControlCharacters text)
  | .toolStarted toolName => .toolStarted (sanitizeAttemptLogText stripVTControlCharacters toolName)
  | .toolFinished toolName isError =>
    .toolFinished (sanitizeAttemptLogText stripVTControlCharacters toolName) isError
  | .retrying message => .retrying (sanitizeAttemptLogText stripVTControlCharacters message)
  | .uiBlocked requestId method =>
    .uiBlocked (sanitizeAttemptLogText stripVTControlCharacters requestId) method
  | .uiDecision requestId method policy outcome =>
    .uiDecision (sanitizeAttemptLogText stripVTControlCharacters requestId) method policy outcome
  | .uiResolved requestId method outcome =>
    .uiResolved (sanitizeAttemptLogText stripVTControlCharacters requestId) method outcome

/-! ## Parsing -/

/-- The text of a property, sanitised. -/
def readLogText (value : Option Json) : Option String :=
  match value with
  | some (.str s) => some (sanitizeAttemptLogText stripVTControlCharacters s)
  | _ => none

/-- The flag of a property. -/
def readLogFlag (value : Option Json) : Option Bool :=
  match value with
  | some (.bool b) => some b
  | _ => none

/-- The event of one type, when the document has its properties. -/
def readProgressFields (fields : List (String × Json)) (type : String) :
    Option WorkerProgressEvent :=
  let text := fun name => readLogText stripVTControlCharacters (Json.field fields name)
  let method := named? allUiMethods uiMethodName (Json.field fields "method")
  match type with
  | "agent_started" => some .agentStarted
  | "text_delta" => do pure (.textDelta (← text "text"))
  | "tool_started" => do pure (.toolStarted (← text "toolName"))
  | "tool_finished" => do
    pure (.toolFinished (← text "toolName") (← readLogFlag (Json.field fields "isError")))
  | "retrying" => do pure (.retrying (← text "message"))
  | "ui_blocked" => do pure (.uiBlocked (← text "requestId") (← method))
  | "ui_decision" => do
    pure (.uiDecision (← text "requestId") (← method)
      (← named? allBlockedPolicies blockedPolicyName (Json.field fields "policy"))
      (← named? UiDecisionOutcome.all UiDecisionOutcome.name (Json.field fields "outcome")))
  | "ui_resolved" => do
    pure (.uiResolved (← text "requestId") (← method)
      (← named? WorkerUiResolutionOutcome.all WorkerUiResolutionOutcome.name
        (Json.field fields "outcome")))
  | _ => none

/-- `src/src/storage/attempt-log-store.ts:181-276`. -/
def parseProgressEvent (value : Option Json) (context : String) :
    Except String WorkerProgressEvent :=
  match value with
  | some (.obj fields) =>
    match Json.field fields "type" with
    | some (.str type) => require (readProgressFields stripVTControlCharacters fields type)
        s!"Invalid progress event in {context}"
    | _ => .error s!"Invalid progress event in {context}"
  | _ => .error s!"Invalid progress event in {context}"

/-- `src/src/storage/attempt-log-store.ts:278-298`. -/
def parseTerminalEntry (fields : List (String × Json)) (timestamp context : String) :
    Except String AttemptLogEntry := do
  let status ← require (named? AttemptTerminalStatus.all AttemptTerminalStatus.name
    (Json.field fields "status")) s!"Corrupt attempt log record in {context}"
  match Json.field fields "message" with
  | none => pure (.terminal timestamp status none)
  | some (.str message) => pure (.terminal timestamp status
      (some (sanitizeAttemptLogText stripVTControlCharacters message)))
  | some _ => .error s!"Corrupt attempt log record in {context}"

/-- A record that is no truncation marker. -/
def parseTimedEntry (fields : List (String × Json)) (kind context : String) :
    Except String AttemptLogEntry := do
  let timestamp ← require
    (match Json.field fields "timestamp" with
      | some (.str timestamp) => if timestamp = "" then none else some timestamp
      | _ => none) s!"Corrupt attempt log record in {context}"
  let timestamp := sanitizeAttemptLogText stripVTControlCharacters timestamp
  match kind with
  | "progress" => do
    let event ← parseProgressEvent stripVTControlCharacters (Json.field fields "event") context
    pure (.progress timestamp event)
  | "terminal" => parseTerminalEntry stripVTControlCharacters fields timestamp context
  | _ => .error s!"Corrupt attempt log record in {context}"

/-- `src/src/storage/attempt-log-store.ts:300-333`. -/
def parseEntry (line context : String) : Except String AttemptLogEntry :=
  match parseJson line with
  | some (.obj fields) =>
    match Json.field fields "kind", Json.field fields "message" with
    | some (.str "truncated"), some (.str message) =>
      .ok (.truncated (sanitizeAttemptLogText stripVTControlCharacters message))
    | some (.str kind), _ => parseTimedEntry stripVTControlCharacters fields kind context
    | _, _ => .error s!"Corrupt attempt log record in {context}"
  | _ => .error s!"Corrupt attempt log record in {context}"

/-! ## Sanitised entries -/

/-- Sanitising changes nothing. -/
def Clean (value : String) : Prop := sanitizeAttemptLogText stripVTControlCharacters value = value

/-- The texts of the entry are clean and its time is not blank. -/
def AttemptLogEntry.Sanitised : AttemptLogEntry → Prop
  | .progress timestamp event => timestamp ≠ "" ∧ Clean stripVTControlCharacters timestamp ∧
      sanitizeProgressEvent stripVTControlCharacters event = event
  | .terminal timestamp _ message => timestamp ≠ "" ∧ Clean stripVTControlCharacters timestamp ∧
      ∀ text, message = some text → Clean stripVTControlCharacters text
  | .truncated message => Clean stripVTControlCharacters message

end

/-- Every escape sequence starts with the escape character or the control sequence introducer, so a
text without both has nothing to strip. -/
def StripsEscapesOnly (stripVTControlCharacters : String → String) : Prop :=
  ∀ value : String, (∀ c ∈ value.toList, c.toNat ≠ 0x1B ∧ c.toNat ≠ 0x9B) →
    stripVTControlCharacters value = value

variable {stripVTControlCharacters : String → String}

/-- A text of log characters is clean. -/
theorem clean_of_logCharacters (hstrip : StripsEscapesOnly stripVTControlCharacters)
    {value : String} (h : ∀ c ∈ value.toList, isLogCharacter c = true) :
    Clean stripVTControlCharacters value := by
  have hplain : ∀ c ∈ value.toList, c.toNat ≠ 0x1B ∧ c.toNat ≠ 0x9B := by
    intro c hc
    have hlog := h c hc
    constructor
    · intro hescape
      have hnewline : c ≠ '\n' := by rintro rfl; cases hescape
      have htab : c ≠ '\t' := by rintro rfl; cases hescape
      simp [isLogCharacter, hnewline, htab, hescape] at hlog
    · intro hescape
      have hnewline : c ≠ '\n' := by rintro rfl; cases hescape
      have htab : c ≠ '\t' := by rintro rfl; cases hescape
      simp [isLogCharacter, hnewline, htab, hescape] at hlog
  unfold Clean sanitizeAttemptLogText
  rw [hstrip value hplain, List.filter_eq_self.mpr h, String.ofList_toList]

/-- Sanitising a second time changes nothing. -/
theorem sanitizeAttemptLogText_clean (hstrip : StripsEscapesOnly stripVTControlCharacters)
    (value : String) :
    Clean stripVTControlCharacters (sanitizeAttemptLogText stripVTControlCharacters value) := by
  apply clean_of_logCharacters hstrip
  intro c hc
  rw [sanitizeAttemptLogText, String.toList_ofList, List.mem_filter] at hc
  exact hc.2

/-- A sanitised event stays as it is. -/
theorem sanitizeProgressEvent_twice (hstrip : StripsEscapesOnly stripVTControlCharacters)
    (event : WorkerProgressEvent) :
    sanitizeProgressEvent stripVTControlCharacters
        (sanitizeProgressEvent stripVTControlCharacters event) =
      sanitizeProgressEvent stripVTControlCharacters event := by
  have hclean := fun value => sanitizeAttemptLogText_clean hstrip value
  unfold Clean at hclean
  cases event <;> simp [sanitizeProgressEvent, hclean]

/-! ## Reading a line back -/

/-- The document of an event can be written. -/
theorem WorkerProgressEvent.toJson_writable (event : WorkerProgressEvent) :
    event.toJson.Writable := by
  cases event <;> simp [WorkerProgressEvent.toJson, Json.Writable, Json.WritableFields]

/-- The document of an entry can be written. -/
theorem AttemptLogEntry.toJson_writable (entry : AttemptLogEntry) : entry.toJson.Writable := by
  cases entry with
  | progress timestamp event =>
    have hevent := WorkerProgressEvent.toJson_writable event
    simp [AttemptLogEntry.toJson, Json.Writable, Json.WritableFields, hevent]
  | terminal timestamp status message =>
    cases message <;> simp [AttemptLogEntry.toJson, Json.Writable, Json.WritableFields]
  | truncated message => simp [AttemptLogEntry.toJson, Json.Writable, Json.WritableFields]

private theorem parseProgressEvent_toJson {event : WorkerProgressEvent}
    (h : sanitizeProgressEvent stripVTControlCharacters event = event) (context : String) :
    parseProgressEvent stripVTControlCharacters (some event.toJson) context = .ok event := by
  cases event <;>
    simp [sanitizeProgressEvent] at h <;>
    simp [parseProgressEvent, WorkerProgressEvent.toJson, Json.field, readProgressFields,
      readLogText, readLogFlag, List.lookup_cons, require, h]

/-- The line of a sanitised entry parses to the entry. -/
theorem parseEntry_line {entry : AttemptLogEntry}
    (h : entry.Sanitised stripVTControlCharacters) (context : String) :
    parseEntry stripVTControlCharacters entry.line context = .ok entry := by
  have hparse := parseJson_jsonText .compact entry.toJson_writable [] nofun
  rw [String.ofList_nil, String.append_empty] at hparse
  unfold parseEntry AttemptLogEntry.line
  rw [hparse]
  cases entry with
  | progress timestamp event =>
    obtain ⟨hpresent, hclean, hevent⟩ := h
    unfold Clean at hclean
    have hread := parseProgressEvent_toJson hevent context
    simp [AttemptLogEntry.toJson, Json.field, List.lookup_cons, parseTimedEntry, require, bind,
      Except.bind, pure, Except.pure, hpresent, hclean, hread]
  | terminal timestamp status message =>
    obtain ⟨hpresent, hclean, hmessage⟩ := h
    unfold Clean at hclean hmessage
    cases message with
    | none =>
      simp [AttemptLogEntry.toJson, Json.field, List.lookup_cons, parseTimedEntry, parseTerminalEntry,
        require, bind, Except.bind, pure, Except.pure, hpresent, hclean]
    | some text =>
      have htext := hmessage text rfl
      simp [AttemptLogEntry.toJson, Json.field, List.lookup_cons, parseTimedEntry, parseTerminalEntry,
        require, bind, Except.bind, pure, Except.pure, hpresent, hclean, htext]
  | truncated message =>
    unfold AttemptLogEntry.Sanitised Clean at h
    simp [AttemptLogEntry.toJson, Json.field, List.lookup_cons, h]

/-- The line of an entry holds no line break. -/
theorem lineBreak_not_mem_line (entry : AttemptLogEntry) : '\n' ∉ entry.line.toList :=
  lineBreak_not_mem_jsonText entry.toJson_writable

end BuildConductor.Storage
