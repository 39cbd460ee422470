import BuildConductor.Base.TransitionSystem
import BuildConductor.Planning.PlanMerge

/-!
# Saving an edited plan

A candidate is validated, saved, and merged with a fresh snapshot when the save was rejected. The
session waits for an answer of the user or of the persistence at each turn; what it asks and what it
is answered makes its trace. `src/src/planning/plan-editor.ts:85-93`,
`src/src/planning/plan-editor.ts:209-309`, `src/src/planning/plan-editor.ts:344-363`.
-/

namespace BuildConductor.Planning

open Base Domain

/-! ## Asking and answering -/

/-- What the session asks of the user or of the persistence. -/
inductive EditorCall
  | save (plan : TaskPlan) (maxConcurrentWorkers expectedPlanRevision : Nat)
  | reload
  | select (title : String) (options : List String)
  | editor (title draft : String)
  | notify (message level : String)
deriving DecidableEq

/-- What the session is answered. A rejection may answer any of its questions. -/
inductive EditorAnswer
  | saved (snapshot : PlanEditorSnapshot)
  | rejected (message : String)
  | reloaded (snapshot : PlanEditorSnapshot)
  | selected (option : Option String)
  | edited (text : Option String)
deriving DecidableEq

/-- What the session waits for, or how it ended. -/
inductive Waiting
  | saving (current : PlanEditorSnapshot) (plan : TaskPlan) (maxConcurrentWorkers : Nat)
  | reloading (current : PlanEditorSnapshot) (plan : TaskPlan) (maxConcurrentWorkers : Nat)
  | choosing (fresh : PlanEditorSnapshot) (merged : Merging MergedCandidate)
      (workerConflict : String) (maxConcurrentWorkers : Nat)
  | editing (title : String) (current : PlanEditorSnapshot) (draft : String)
      (maxConcurrentWorkers : Nat)
  | returned (snapshot : PlanEditorSnapshot)
  | threw (message : String)
deriving DecidableEq

/-- `message.replace(text, "")`: what is left without the first occurrence of a text. -/
def removeFirst (text : List Char) : List Char → List Char
  | [] => []
  | c :: rest =>
    if text.isPrefixOf (c :: rest) then (c :: rest).drop text.length else c :: removeFirst text rest

/-- `src/src/planning/plan-presentation.ts:35-42`. -/
def formatValidationIssues (issues : List PlanValidationIssue) : String :=
  "\n".intercalate (issues.mapIdx fun index issue =>
    let message := String.ofList (removeFirst s!"{issue.path} ".toList issue.message.toList)
    s!"{index + 1}. [{issue.code}] {issue.path}: {message}")

/-- `src/src/planning/plan-editor.ts:85-93`. -/
def issuesFromUnknown (message : String) : List PlanValidationIssue :=
  [⟨"invalid_json", "plan", message⟩]

/-- Start to edit a document. `src/src/planning/plan-editor.ts:344-351`. -/
def editJson (title : String) (current : PlanEditorSnapshot) (value : Json)
    (maxConcurrentWorkers : Nat) : Waiting × List EditorCall :=
  let draft := jsonText .indented value ++ "\n"
  (.editing title current draft maxConcurrentWorkers, [.editor title draft])

/-- Validate a candidate, and save it or have it corrected.
`src/src/planning/plan-editor.ts:209-240`. -/
def persistCandidate (current : PlanEditorSnapshot) (candidate : Json)
    (maxConcurrentWorkers : Nat) : Waiting × List EditorCall :=
  match validateTaskPlanResult candidate with
  | .error issues =>
    let (waiting, calls) :=
      editJson "Fix invalid plan candidate" current candidate maxConcurrentWorkers
    (waiting, .notify (formatValidationIssues issues) "error" :: calls)
  | .ok plan =>
    (.saving current plan maxConcurrentWorkers,
      [.save plan maxConcurrentWorkers current.planRevision])

/-- Save what was merged, or have its conflicts resolved.
`src/src/planning/plan-editor.ts:280-307`. -/
def saveMerged (fresh : PlanEditorSnapshot) (merged : Merging MergedCandidate) :
    Waiting × List EditorCall :=
  if merged.conflicts = [] then
    let (waiting, calls) :=
      persistCandidate fresh merged.value.plan.toJson merged.value.maxConcurrentWorkers
    (waiting, .notify s!"Merged your unsaved changes with revision {fresh.planRevision}" "info" ::
      calls)
  else
    let listed := "\n".intercalate (merged.conflicts.map fun conflict => s!"- {conflict}")
    let (waiting, calls) := editJson
      (s!"Resolve conflicts against revision {fresh.planRevision}; " ++
        "the draft currently keeps your conflicting values")
      fresh merged.value.plan.toJson merged.value.maxConcurrentWorkers
    (waiting, .notify s!"Concurrent changes need review:\n{listed}" "warning" :: calls)

/-- The option that keeps the user's worker limit. -/
def ownLimitOption (maxConcurrentWorkers : Nat) : String :=
  s!"Use my worker limit ({maxConcurrentWorkers})"

/-- Merge a rejected candidate with a fresh snapshot, and have the user choose between two worker
limits. `src/src/planning/plan-editor.ts:250-279`. -/
def mergeWithFresh (current : PlanEditorSnapshot) (plan : TaskPlan) (maxConcurrentWorkers : Nat)
    (fresh : PlanEditorSnapshot) : Waiting × List EditorCall :=
  let merged := mergeConcurrentCandidate current plan maxConcurrentWorkers fresh
  match merged.conflicts.find? fun conflict => conflict.startsWith "worker limit:" with
  | none => saveMerged fresh merged
  | some workerConflict =>
    (.choosing fresh merged workerConflict maxConcurrentWorkers,
      [.select s!"Worker limit changed concurrently: {workerConflict}"
        [ownLimitOption maxConcurrentWorkers,
          s!"Use latest worker limit ({fresh.maxConcurrentWorkers})"]])

/-- Continue with the worker limit the user chose. `src/src/planning/plan-editor.ts:271-279`. -/
def chooseLimit (fresh : PlanEditorSnapshot) (merged : Merging MergedCandidate)
    (workerConflict : String) (maxConcurrentWorkers : Nat) (selected : String) :
    Waiting × List EditorCall :=
  saveMerged fresh
    ⟨⟨merged.value.plan,
        if selected = ownLimitOption maxConcurrentWorkers then maxConcurrentWorkers
        else fresh.maxConcurrentWorkers⟩,
      merged.conflicts.filter fun conflict => decide (conflict ≠ workerConflict)⟩

/-- What the session does with an answer to what it waits for. What `JSON.parse` says of a text it
does not read is not part of the repository. `src/src/planning/plan-editor.ts:209-363`. -/
def answerTo (syntaxError : String → String) :
    Waiting → EditorAnswer → Option (Waiting × List EditorCall)
  | .saving current _ _, .saved saved =>
    some (.returned saved,
      [.notify
        (if saved.planRevision = current.planRevision then "No plan changes to save"
        else s!"Saved plan revision {saved.planRevision}") "info"])
  | .saving current plan limit, .rejected message =>
    some (.reloading current plan limit,
      [.notify s!"Could not save plan revision: {message}" "error", .reload])
  | .reloading current plan limit, .reloaded fresh => some (mergeWithFresh current plan limit fresh)
  | .choosing fresh merged workerConflict limit, .selected (some selected) =>
    if selected = "" then some (.returned fresh, [])
    else some (chooseLimit fresh merged workerConflict limit selected)
  | .choosing fresh _ _ _, .selected none => some (.returned fresh, [])
  | .editing title current _ limit, .edited (some text) =>
    match parseJson text with
    | some value => some (persistCandidate current value limit)
    | none =>
      some (.editing title current text limit,
        [.notify (formatValidationIssues (issuesFromUnknown (syntaxError text))) "error",
          .editor title text])
  | .editing _ current _ _, .edited none => some (.returned current, [])
  | .reloading .., .rejected message | .choosing .., .rejected message
  | .editing .., .rejected message => some (.threw message, [])
  | _, _ => none

/-! ## Sessions -/

/-- One exchange of a session. -/
inductive TraceEntry
  | call (call : EditorCall)
  | answer (answer : EditorAnswer)
deriving DecidableEq

/-- A session with everything it asked and was answered. -/
structure EditorSession where
  waiting : Waiting
  trace : List TraceEntry
deriving DecidableEq

/-- The session of a candidate before the first answer. -/
def startSession (current : PlanEditorSnapshot) (candidate : Json) (maxConcurrentWorkers : Nat) :
    EditorSession :=
  let (waiting, calls) := persistCandidate current candidate maxConcurrentWorkers
  ⟨waiting, calls.map .call⟩

/-- All sessions, with any answers of the user and of the persistence. -/
def sessions (syntaxError : String → String) : TransitionSystem EditorSession EditorAnswer where
  initial session := ∃ current candidate maxConcurrentWorkers,
    session = startSession current candidate maxConcurrentWorkers
  step before answer after := ∃ waiting calls,
    answerTo syntaxError before.waiting answer = some (waiting, calls) ∧
    after = ⟨waiting, before.trace ++ .answer answer :: calls.map .call⟩

/-- The user edited or chose something. -/
def TraceEntry.isUserInput : TraceEntry → Bool
  | .answer (.selected (some _)) | .answer (.edited (some _)) => true
  | _ => false

/-- The same plan, worker limit and expected revision are saved again without an input of the user
in between. -/
def RepeatsSave (trace : List TraceEntry) : Prop :=
  ∃ before between after plan limit revision,
    trace = before ++ .call (.save plan limit revision) ::
      (between ++ .call (.save plan limit revision) :: after) ∧
    ∀ entry ∈ between, entry.isUserInput = false

/-- The revisions the saves of a trace expected, in their order. -/
def expectedRevisions (trace : List TraceEntry) : List Nat :=
  trace.filterMap fun entry =>
    match entry with
    | .call (.save _ _ revision) => some revision
    | _ => none

/-- What is reloaded after a rejection has a later revision than the rejected save expected. -/
def ReloadsLater (session : EditorSession) (answer : EditorAnswer) : Prop :=
  ∀ current plan limit fresh, session.waiting = .reloading current plan limit →
    answer = .reloaded fresh → current.planRevision < fresh.planRevision

end BuildConductor.Planning
