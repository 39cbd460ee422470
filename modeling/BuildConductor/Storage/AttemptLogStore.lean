import BuildConductor.Base.Utf8
import BuildConductor.Storage.AttemptLogEntries

/-!
# The attempt log store

One journal of the store: its bytes, what a process remembers about it, the queue of appends, and
the ways a process can end. `src/src/storage/attempt-log-store.ts:335-623`.
-/

namespace BuildConductor.Storage

open Base Domain Workers

/-! ## Lines -/

/-- `TRUNCATION_MESSAGE`. -/
def truncationMessage : String := "Log truncated after reaching byte limit"

/-- The entry of `TRUNCATION_LINE`. -/
def truncationEntry : AttemptLogEntry := .truncated truncationMessage

/-- The bytes of `${JSON.stringify(entry)}\n`. -/
def entryBytes (entry : AttemptLogEntry) : List UInt8 := utf8Bytes (entry.line.toList ++ ['\n'])

/-- The bytes of entries, line by line. -/
def entriesBytes (entries : List AttemptLogEntry) : List UInt8 := entries.flatMap entryBytes

/-- `MINIMUM_LOG_BYTES`, the length of the truncation line. -/
def minimumLogBytes : Nat := (entryBytes truncationEntry).length

/-- `entry.kind === "truncated"`. -/
def AttemptLogEntry.isTruncated : AttemptLogEntry → Bool
  | .truncated _ => true
  | _ => false

section

variable (stripVTControlCharacters : String → String)

/-- The entry of one complete line. -/
def completeLine (context : String) (line : List Char × Nat) : Except String AttemptLogEntry :=
  if line.1 = [] then .error s!"Corrupt attempt log record in {context}:{line.2 + 1}"
  else parseEntry stripVTControlCharacters (String.ofList line.1) s!"{context}:{line.2 + 1}"

/-- `src/src/storage/attempt-log-store.ts:335-345`. -/
def completeLines (contents : List UInt8) (context : String) :
    Except String (List AttemptLogEntry) :=
  (((decodeUtf8 contents).splitOn '\n').dropLast.zipIdx).mapM
    (completeLine stripVTControlCharacters context)

/-- The contents of a journal once a torn last line is gone, and whether they hold a truncation
marker. Contents that end with a line break are kept whole.
`src/src/storage/attempt-log-store.ts:347-373`. -/
def prepareJournal (contents : List UInt8) (path : String) : List UInt8 × Except String Bool :=
  let complete := throughLast lineBreakByte contents
  (complete, (completeLines stripVTControlCharacters complete path).map
    (·.any AttemptLogEntry.isTruncated))

/-! ## Appending -/

/-- What one append does to the file: the contents it keeps and the entry whose line it writes. -/
structure PlannedAppend where
  retained : List UInt8
  entry : AttemptLogEntry
  truncates : Bool

/-- The contents a truncation marker is appended to. `src/src/storage/attempt-log-store.ts:391-406`. -/
def retainedContents (maxLogBytes : Nat) (contents : List UInt8) : List UInt8 :=
  if contents.length + minimumLogBytes > maxLogBytes then
    throughLast lineBreakByte (contents.take (maxLogBytes - minimumLogBytes))
  else contents

/-- An entry that would leave no room for the marker is replaced by it.
`src/src/storage/attempt-log-store.ts:542-556`. -/
def planAppend (maxLogBytes : Nat) (contents : List UInt8) (entry : AttemptLogEntry) :
    PlannedAppend :=
  if contents.length + (entryBytes entry).length > maxLogBytes - minimumLogBytes then
    ⟨retainedContents maxLogBytes contents, truncationEntry, true⟩
  else ⟨contents, entry, false⟩

/-- One journal: the bytes of its file, none while it does not exist, and what the store holds for
its key. `src/src/storage/attempt-log-store.ts:443-448`. -/
structure AttemptLog where
  contents : List UInt8
  initialized : Bool
  truncated : Bool
  queue : List AttemptLogEntry
  error : Option String

/-- A journal no process has written yet. -/
def AttemptLog.empty : AttemptLog := ⟨[], false, false, [], none⟩

/-- What a new process finds: the file, and an empty memory. -/
def AttemptLog.restarted (contents : List UInt8) : AttemptLog := ⟨contents, false, false, [], none⟩

variable (path : String)

/-- The journal after its initialisation, with the message of a refusal.
`src/src/storage/attempt-log-store.ts:509-522`. -/
def AttemptLog.initialize (log : AttemptLog) : AttemptLog × Option String :=
  if log.initialized then (log, none)
  else
    match prepareJournal stripVTControlCharacters log.contents path with
    | (contents, .ok marked) =>
      ({ log with contents, initialized := true, truncated := log.truncated || marked }, none)
    | (contents, .error message) => ({ log with contents }, some message)

/-! ## Recording -/

/-- What a caller records. -/
inductive Recorded
  | progress (event : WorkerProgressEvent)
  | terminal (status : AttemptTerminalStatus) (message : Option String)

/-- The entry that is queued at some time, none when its time is blank.
`src/src/storage/attempt-log-store.ts:562-623`. -/
def recordedEntry (now : String) (recorded : Recorded) : Option AttemptLogEntry :=
  let timestamp := sanitizeAttemptLogText stripVTControlCharacters now
  if timestamp = "" then none
  else
    match recorded with
    | .progress event =>
      some (.progress timestamp (sanitizeProgressEvent stripVTControlCharacters event))
    | .terminal status message => some (.terminal timestamp status
        (message.map (sanitizeAttemptLogText stripVTControlCharacters)))

/-- What became of a recorded entry. -/
inductive Fate
  | written
  /-- The marker stands in the journal instead of it. -/
  | cut
  /-- The process ended while a line was appended for it. -/
  | torn
  /-- The process ended before its append began. -/
  | dropped
  /-- Its append failed. -/
  | refused
deriving DecidableEq, Repr

/-- A journal with what became of the entries that left its queue. -/
structure LoggedRun where
  log : AttemptLog
  settled : List (AttemptLogEntry × Fate)

/-- What can happen to a journal. -/
inductive LogEvent
  | record (now : String) (recorded : Recorded)
  /-- The oldest queued append runs. -/
  | append
  /-- The process ends. `left` is how much of the line of the oldest queued append is in the file,
  none when it has not begun. -/
  | crash (left : Option Nat)

variable (maxLogBytes : Nat)

/-- The oldest queued append. `src/src/storage/attempt-log-store.ts:487-507,524-560`. -/
def LoggedRun.appendOldest (run : LoggedRun) : LoggedRun :=
  match run.log.queue with
  | [] => run
  | entry :: rest =>
    match run.log.initialize stripVTControlCharacters path with
    | (log, some message) =>
      ⟨{ log with queue := rest, error := some (log.error.getD message) },
        run.settled ++ [(entry, .refused)]⟩
    | (log, none) =>
      if log.truncated then ⟨{ log with queue := rest }, run.settled ++ [(entry, .cut)]⟩
      else
        let plan := planAppend maxLogBytes log.contents entry
        ⟨{ log with contents := plan.retained ++ entryBytes plan.entry, truncated := plan.truncates,
                    queue := rest },
          run.settled ++ [(entry, if plan.truncates then .cut else .written)]⟩

/-- The process ends between two appends. -/
def LoggedRun.dropQueue (run : LoggedRun) : LoggedRun :=
  ⟨.restarted run.log.contents,
    run.settled ++ run.log.queue.map fun entry => (entry, .dropped)⟩

/-- The process ends while the oldest queued append has written some bytes of its line. -/
def LoggedRun.tearOldest (left : Nat) (run : LoggedRun) : LoggedRun :=
  match run.log.queue with
  | [] => run.dropQueue
  | entry :: rest =>
    match run.log.initialize stripVTControlCharacters path with
    | (log, some _) => LoggedRun.dropQueue ⟨log, run.settled⟩
    | (log, none) =>
      if log.truncated then LoggedRun.dropQueue ⟨log, run.settled⟩
      else
        let plan := planAppend maxLogBytes log.contents entry
        let fate := if left < (entryBytes plan.entry).length then .torn
          else if plan.truncates then .cut else .written
        ⟨.restarted (plan.retained ++ (entryBytes plan.entry).take left),
          run.settled ++ (entry, fate) :: rest.map fun entry => (entry, .dropped)⟩

/-- An entry joins the queue. -/
def LoggedRun.enqueue (now : String) (recorded : Recorded) (run : LoggedRun) : LoggedRun :=
  match recordedEntry stripVTControlCharacters now recorded with
  | some entry => ⟨{ run.log with queue := run.log.queue ++ [entry] }, run.settled⟩
  | none => run

/-- One event. -/
def LoggedRun.step (run : LoggedRun) : LogEvent → LoggedRun
  | .record now recorded => run.enqueue stripVTControlCharacters now recorded
  | .append => run.appendOldest stripVTControlCharacters path maxLogBytes
  | .crash none => run.dropQueue
  | .crash (some left) => run.tearOldest stripVTControlCharacters path maxLogBytes left

/-- A journal after some events. -/
def runLog (events : List LogEvent) : LoggedRun :=
  events.foldl (LoggedRun.step stripVTControlCharacters path maxLogBytes) ⟨.empty, []⟩

/-- The entries some events record, in their order. -/
def recordedEntries (events : List LogEvent) : List AttemptLogEntry :=
  events.filterMap fun
    | .record now recorded => recordedEntry stripVTControlCharacters now recorded
    | _ => none

end

/-- How often a process ended. -/
def crashes (events : List LogEvent) : Nat :=
  events.countP fun
    | .crash _ => true
    | _ => false

/-- The entries whose lines were written. -/
def LoggedRun.written (run : LoggedRun) : List AttemptLogEntry :=
  (run.settled.filter fun entry => entry.2 = .written).map Prod.fst

/-- The entries of the journal. -/
def LoggedRun.journal (run : LoggedRun) (marked : Bool) : List AttemptLogEntry :=
  run.written ++ if marked then [truncationEntry] else []

end BuildConductor.Storage
