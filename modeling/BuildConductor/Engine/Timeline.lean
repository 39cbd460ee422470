import BuildConductor.Engine.Events

/-!
# The history behind a timeline

A timeline keeps a window of the events of a run and counts the ones that left it. Whatever is
appended, a timeline is the window of one history, whose events are numbered from one.
`src/src/engine/events.ts:87-108`.
-/

namespace BuildConductor.Engine

open Base Domain

/-- The timeline of a run: the retained events and the two counters. -/
structure Timeline where
  events : List WorkflowEvent
  eventSequence : Nat
  droppedEvents : Nat
deriving DecidableEq, Repr

/-- The timeline of a stored run. -/
def WorkflowRunState.timeline (run : WorkflowRunState) : Timeline :=
  ⟨run.events, run.eventSequence, run.droppedEvents⟩

namespace Timeline

/-- A timeline before anything happened. -/
def empty : Timeline := ⟨[], 0, 0⟩

/-- What `appendWorkflowEvents` does to the timeline of a run. -/
def append (timeline : Timeline) (bodies : List WorkflowEventBody) (timestamp : Timestamp) :
    Timeline :=
  if bodies = [] then timeline
  else
    let events := timeline.events ++ numberEvents timeline.eventSequence timestamp.text bodies
    let dropped := events.length - maxWorkflowEvents
    ⟨events.drop dropped, timeline.eventSequence + bodies.length, timeline.droppedEvents + dropped⟩

/-- Appends one after another. -/
def appendAll (timeline : Timeline) (batches : List (List WorkflowEventBody × Timestamp)) :
    Timeline :=
  batches.foldl (fun timeline batch => timeline.append batch.1 batch.2) timeline

theorem appendAll_cons (timeline : Timeline) (batch : List WorkflowEventBody × Timestamp)
    (batches : List (List WorkflowEventBody × Timestamp)) :
    timeline.appendAll (batch :: batches) = (timeline.append batch.1 batch.2).appendAll batches :=
  rfl

/-- Some appends to an empty timeline produce this one. -/
def Produced (timeline : Timeline) : Prop := ∃ batches, timeline = empty.appendAll batches

end Timeline

theorem timeline_appendWorkflowEvents (run : WorkflowRunState) (bodies : List WorkflowEventBody)
    (timestamp : Timestamp) :
    (appendWorkflowEvents run bodies timestamp).timeline =
      run.timeline.append bodies timestamp := by
  unfold appendWorkflowEvents Timeline.append
  by_cases hnone : bodies = []
  · rw [if_pos hnone, if_pos hnone]
  · rw [if_neg hnone, if_neg hnone]
    dsimp only [WorkflowRunState.timeline]

/-! ## Histories -/

/-- All the events of a run, numbered from one, each with its time. -/
structure IsHistory (history : List WorkflowEvent) : Prop where
  sequences : history.map WorkflowEvent.sequence = List.range' 1 history.length
  timestamps : ∀ event ∈ history, event.timestamp ≠ ""

/-- The timeline a history leaves: its last events, and the numbers of all and of the rest. -/
def windowOf (history : List WorkflowEvent) : Timeline :=
  ⟨history.drop (history.length - maxWorkflowEvents), history.length,
    history.length - maxWorkflowEvents⟩

theorem sequences_numberEvents (sequence : Nat) (timestamp : String)
    (bodies : List WorkflowEventBody) :
    (numberEvents sequence timestamp bodies).map WorkflowEvent.sequence =
      List.range' (sequence + 1) bodies.length := by
  induction bodies generalizing sequence with
  | nil => rfl
  | cons body rest ih =>
    rw [numberEvents, List.map_cons, ih, List.length_cons, List.range'_succ]

theorem timestamp_numberEvents {sequence : Nat} {timestamp : String}
    {bodies : List WorkflowEventBody} {event : WorkflowEvent}
    (h : event ∈ numberEvents sequence timestamp bodies) : event.timestamp = timestamp := by
  induction bodies generalizing sequence with
  | nil => cases h
  | cons body rest ih =>
    rw [numberEvents, List.mem_cons] at h
    rcases h with rfl | h
    · rfl
    · exact ih h

theorem isHistory_nil : IsHistory [] := ⟨rfl, nofun⟩

/-- A history grows by the events that are numbered next. -/
theorem IsHistory.append {history : List WorkflowEvent} (h : IsHistory history)
    (bodies : List WorkflowEventBody) (timestamp : Timestamp) :
    IsHistory (history ++ numberEvents history.length timestamp.text bodies) := by
  constructor
  · rw [List.map_append, h.sequences, sequences_numberEvents, List.length_append,
      length_numberEvents, Nat.add_comm history.length 1, List.range'_append_1]
  · intro event hevent
    rcases List.mem_append.mp hevent with hevent | hevent
    · exact h.timestamps event hevent
    · rw [timestamp_numberEvents hevent]
      exact timestamp.nonempty

theorem windowOf_nil : windowOf [] = Timeline.empty := by
  unfold windowOf Timeline.empty
  rw [List.drop_nil, List.length_nil, Nat.zero_sub]

/-- Appending to a window appends to its history. -/
theorem append_windowOf (history : List WorkflowEvent) (bodies : List WorkflowEventBody)
    (timestamp : Timestamp) :
    (windowOf history).append bodies timestamp =
      windowOf (history ++ numberEvents history.length timestamp.text bodies) := by
  unfold Timeline.append
  by_cases hnone : bodies = []
  · rw [if_pos hnone, hnone]
    show windowOf history = windowOf (history ++ [])
    rw [List.append_nil]
  · rw [if_neg hnone]
    unfold windowOf
    simp only [List.length_append, List.length_drop, length_numberEvents, Timeline.mk.injEq,
      true_and]
    have hdropped : history.length - maxWorkflowEvents +
        (history.length - (history.length - maxWorkflowEvents) + bodies.length - maxWorkflowEvents) =
        history.length + bodies.length - maxWorkflowEvents := by
      omega
    constructor
    · rw [← List.drop_append_of_le_length (by omega), List.drop_drop, hdropped]
    · exact hdropped

/-- The window of a history whose last event is numbered next. -/
theorem windowOf_concat (history : List WorkflowEvent) (timestamp : Timestamp)
    (body : WorkflowEventBody) :
    windowOf (history ++ [⟨history.length + 1, timestamp.text, body⟩]) =
      (windowOf history).append [body] timestamp := by
  rw [append_windowOf]
  rfl

theorem appendAll_windowOf {history : List WorkflowEvent} (h : IsHistory history)
    (batches : List (List WorkflowEventBody × Timestamp)) :
    ∃ later, IsHistory (history ++ later) ∧
      (windowOf history).appendAll batches = windowOf (history ++ later) := by
  induction batches generalizing history with
  | nil =>
    refine ⟨[], ?_, ?_⟩
    · rwa [List.append_nil]
    · rw [List.append_nil]
      rfl
  | cons batch rest ih =>
    obtain ⟨later, hlater, hwindow⟩ := ih (h.append batch.1 batch.2)
    rw [List.append_assoc] at hlater hwindow
    refine ⟨_, hlater, ?_⟩
    rw [← hwindow, ← append_windowOf, Timeline.appendAll_cons]

/-- A history splits before its last event. -/
private theorem IsHistory.of_concat {history : List WorkflowEvent} {event : WorkflowEvent}
    (h : IsHistory (history ++ [event])) :
    IsHistory history ∧ event.sequence = history.length + 1 ∧ event.timestamp ≠ "" := by
  have hsequences := h.sequences
  rw [List.map_append, List.length_append, List.length_singleton, List.range'_concat] at hsequences
  have hparts := List.append_inj' hsequences rfl
  refine ⟨⟨hparts.1, fun other hother => h.timestamps other (List.mem_append_left _ hother)⟩, ?_,
    h.timestamps event (by simp)⟩
  have hlast : event.sequence = 1 + 1 * history.length := by simpa using hparts.2
  omega

/-- Every history can be appended, one event after another. -/
theorem produced_windowOf {history : List WorkflowEvent} (h : IsHistory history) :
    (windowOf history).Produced := by
  induction history using List.reverseRecOn with
  | nil => exact ⟨[], windowOf_nil⟩
  | append_singleton history event ih =>
    obtain ⟨hhistory, hsequence, htimestamp⟩ := h.of_concat
    obtain ⟨batches, hbatches⟩ := ih hhistory
    refine ⟨batches ++ [([event.body], ⟨event.timestamp, htimestamp⟩)], ?_⟩
    have hevent : event = ⟨history.length + 1, event.timestamp, event.body⟩ := by
      cases event
      exact congrArg (fun sequence => WorkflowEvent.mk sequence _ _) hsequence
    have hconcat := windowOf_concat history ⟨event.timestamp, htimestamp⟩ event.body
    rw [← hevent] at hconcat
    rw [hconcat, hbatches]
    unfold Timeline.appendAll
    rw [List.foldl_append, List.foldl_cons, List.foldl_nil]

/-- The timelines appends produce are the windows of histories. -/
theorem produced_iff {timeline : Timeline} :
    timeline.Produced ↔ ∃ history, IsHistory history ∧ timeline = windowOf history := by
  constructor
  · rintro ⟨batches, rfl⟩
    obtain ⟨later, hlater, hwindow⟩ := appendAll_windowOf isHistory_nil batches
    rw [windowOf_nil] at hwindow
    exact ⟨later, hlater, hwindow⟩
  · rintro ⟨history, hhistory, rfl⟩
    exact produced_windowOf hhistory

/-- A timeline is produced exactly when its events have times, its sequences run from the number of
dropped events to the last one, and events were dropped only from a full window. -/
theorem produced_iff_sequences {timeline : Timeline} :
    timeline.Produced ↔
      timeline.events.map WorkflowEvent.sequence =
        List.range' (timeline.droppedEvents + 1) timeline.events.length ∧
      (∀ event ∈ timeline.events, event.timestamp ≠ "") ∧
      timeline.eventSequence = timeline.events.length + timeline.droppedEvents ∧
      timeline.events.length ≤ maxWorkflowEvents ∧
      (timeline.droppedEvents = 0 ∨ timeline.events.length = maxWorkflowEvents) := by
  rw [produced_iff]
  constructor
  · rintro ⟨history, hhistory, rfl⟩
    unfold windowOf
    simp only [List.length_drop, List.map_drop, hhistory.sequences, List.drop_range']
    refine ⟨?_, fun event hevent => hhistory.timestamps event (List.mem_of_mem_drop hevent), ?_, ?_, ?_⟩
    · rw [Nat.mul_one, Nat.add_comm]
    · omega
    · omega
    · omega
  · rintro ⟨hsequences, htimestamps, hcount, hwindow, hfull⟩
    obtain ⟨events, eventSequence, droppedEvents⟩ := timeline
    dsimp only at *
    -- What was dropped is not known any more; any events will do in its place.
    let before : List WorkflowEvent :=
      numberEvents 0 "t" (List.replicate droppedEvents (.runCancellationRequested ""))
    have hbefore : before.length = droppedEvents := by
      rw [length_numberEvents, List.length_replicate]
    refine ⟨before ++ events, ⟨?_, ?_⟩, ?_⟩
    · rw [List.map_append, sequences_numberEvents, hsequences, List.length_replicate,
        List.length_append, hbefore, Nat.zero_add, Nat.add_comm droppedEvents 1,
        List.range'_append_1]
    · intro event hevent
      rcases List.mem_append.mp hevent with hevent | hevent
      · rw [timestamp_numberEvents hevent]
        decide
      · exact htimestamps event hevent
    · have hdropped : (before ++ events).length - maxWorkflowEvents = droppedEvents := by
        rw [List.length_append, hbefore]
        omega
      unfold windowOf
      rw [hdropped, List.length_append, hbefore, List.drop_left' hbefore, hcount,
        Nat.add_comm events.length]

end BuildConductor.Engine
