import BuildConductor.Base.Effects
import BuildConductor.Base.Watermark
import BuildConductor.Engine.Timeline
import BuildConductor.Security.Capabilities

/-!
# Notifying observers

The engine hands a state it just stored to its observers: the events past the last sequence it
emitted for the run, and the state itself. States of one run may arrive late, repeated or out of
order. `src/src/engine/engine.ts:158-178`.
-/

namespace BuildConductor.Engine

open Base Domain Security

/-! ## The code -/

/-- A call of an observer. -/
inductive ObserverCall where
  | onEvent (runId : String) (event : WorkflowEvent)
  | onStateChanged (state : WorkflowRunState)

/-- The calls made so far, and the last sequence emitted for each run. -/
structure Observation where
  calls : List ObserverCall
  emittedEvents : String → Nat

/-- Nothing was emitted. -/
def Observation.empty : Observation := ⟨[], fun _ => 0⟩

/-- The observers of an engine. Whether a call throws may depend on all the calls before it. -/
structure Observers where
  onEvent : Option (List ObserverCall → WorkflowEvent → Except String Unit)
  onStateChanged : Option (List ObserverCall → WorkflowRunState → Except String Unit)

/-- Call an observer, which returns or throws. -/
def callObserver (call : ObserverCall) (answer : List ObserverCall → Except String Unit) :
    Effect Observation Unit := fun observation =>
  (answer observation.calls, { observation with calls := observation.calls ++ [call] })

/-- `this.dependencies.onEvent?.(event)`. -/
def callOnEvent (observers : Observers) (runId : String) (event : WorkflowEvent) :
    Effect Observation Unit :=
  match observers.onEvent with
  | none => pure ()
  | some onEvent => callObserver (.onEvent runId event) fun calls => onEvent calls event

/-- `this.dependencies.onStateChanged?.(state)`. -/
def callOnStateChanged (observers : Observers) (state : WorkflowRunState) :
    Effect Observation Unit :=
  match observers.onStateChanged with
  | none => pure ()
  | some onStateChanged =>
    callObserver (.onStateChanged state) fun calls => onStateChanged calls state

/-- The loop over the events of a state. -/
def emitEvents (observers : Observers) (runId : String) (emitted : Nat) :
    List WorkflowEvent → Effect Observation Unit
  | [] => pure ()
  | event :: rest => do
    if emitted < event.sequence then
      let _ ← Effect.attempt (callOnEvent observers runId event)
    emitEvents observers runId emitted rest

/-- Emit the events of a state that reaches past what was emitted, and remember its sequence first.
`src/src/engine/engine.ts:159-171`. -/
def emitNewEvents (observers : Observers) (state : WorkflowRunState) : Effect Observation Unit := do
  let emitted ← Effect.read fun observation => observation.emittedEvents state.id
  if emitted < state.eventSequence then
    Effect.change fun observation => { observation with
      emittedEvents := Function.update observation.emittedEvents state.id state.eventSequence }
    emitEvents observers state.id emitted state.events

/-- `src/src/engine/engine.ts:158-178`. -/
def notify (observers : Observers) (state : WorkflowRunState) :
    Effect Observation WorkflowRunState := do
  emitNewEvents observers state
  let _ ← Effect.attempt (callOnStateChanged observers state)
  pure state

/-- Notify of one state after another. -/
def notifyAll (observers : Observers) : List WorkflowRunState → Effect Observation Unit
  | [] => pure ()
  | state :: rest => do
    let _ ← notify observers state
    notifyAll observers rest

/-- The events of a run that some calls delivered. -/
def deliveredEvents (runId : String) (calls : List ObserverCall) : List WorkflowEvent :=
  calls.filterMap fun call =>
    match call with
    | .onEvent id event => if id = runId then some event else none
    | .onStateChanged _ => none

/-! ## What a notification does -/

/-- The calls of the event observer for the events past a sequence. -/
private def eventCalls (observers : Observers) (runId : String) (emitted : Nat)
    (events : List WorkflowEvent) : List ObserverCall :=
  if observers.onEvent.isSome then
    (events.filter fun event => decide (emitted < event.sequence)).map (.onEvent runId)
  else []

/-- The call of the state observer. -/
private def stateCalls (observers : Observers) (state : WorkflowRunState) : List ObserverCall :=
  if observers.onStateChanged.isSome then [.onStateChanged state] else []

private theorem attempt_callOnEvent (observers : Observers) (runId : String)
    (event : WorkflowEvent) (observation : Observation) :
    ∃ returned, Effect.attempt (callOnEvent observers runId event) observation =
      (.ok returned, { observation with
        calls := observation.calls ++
          if observers.onEvent.isSome then [.onEvent runId event] else [] }) := by
  unfold Effect.attempt callOnEvent
  cases honEvent : observers.onEvent with
  | none =>
    refine ⟨true, ?_⟩
    simp [pure]
  | some onEvent =>
    simp only [callObserver, Option.isSome_some, if_true]
    cases onEvent observation.calls event with
    | ok _ => exact ⟨true, rfl⟩
    | error _ => exact ⟨false, rfl⟩

private theorem attempt_callOnStateChanged (observers : Observers) (state : WorkflowRunState)
    (observation : Observation) :
    ∃ returned, Effect.attempt (callOnStateChanged observers state) observation =
      (.ok returned, { observation with
        calls := observation.calls ++ stateCalls observers state }) := by
  unfold Effect.attempt callOnStateChanged stateCalls
  cases observers.onStateChanged with
  | none =>
    refine ⟨true, ?_⟩
    simp [pure]
  | some onStateChanged =>
    simp only [callObserver, Option.isSome_some, if_true]
    cases onStateChanged observation.calls state with
    | ok _ => exact ⟨true, rfl⟩
    | error _ => exact ⟨false, rfl⟩

/-- The loop calls the observer for the events past the sequence, whether it throws or not. -/
private theorem emitEvents_eq (observers : Observers) (runId : String) (emitted : Nat)
    (events : List WorkflowEvent) (observation : Observation) :
    emitEvents observers runId emitted events observation =
      (.ok (), { observation with
        calls := observation.calls ++ eventCalls observers runId emitted events }) := by
  induction events generalizing observation with
  | nil =>
    unfold emitEvents eventCalls
    simp [pure]
  | cons event rest ih =>
    unfold emitEvents
    by_cases hpast : emitted < event.sequence
    · rw [if_pos hpast]
      obtain ⟨returned, hcall⟩ := attempt_callOnEvent observers runId event observation
      simp only [bind, hcall, ih]
      unfold eventCalls
      rw [List.filter_cons_of_pos (by simpa using hpast)]
      by_cases hsome : observers.onEvent.isSome
      · simp only [if_pos hsome, List.append_assoc, List.singleton_append, List.map_cons]
      · simp only [if_neg hsome, List.append_nil]
    · rw [if_neg hpast]
      show emitEvents observers runId emitted rest observation = _
      rw [ih]
      unfold eventCalls
      rw [List.filter_cons_of_neg (by simpa using hpast)]

/-- Whether anything is new or not, what was emitted is at least the sequence of the state. -/
private theorem emitNewEvents_eq (observers : Observers) (state : WorkflowRunState)
    (observation : Observation) :
    emitNewEvents observers state observation =
      (.ok (),
        { calls := observation.calls ++
            if observation.emittedEvents state.id < state.eventSequence then
              eventCalls observers state.id (observation.emittedEvents state.id) state.events
            else []
          emittedEvents := Function.update observation.emittedEvents state.id
            (max (observation.emittedEvents state.id) state.eventSequence) }) := by
  show (ite (observation.emittedEvents state.id < state.eventSequence) _ _ :
    Effect Observation Unit) observation = _
  by_cases hnew : observation.emittedEvents state.id < state.eventSequence
  · rw [if_pos hnew, if_pos hnew, Nat.max_eq_right (Nat.le_of_lt hnew)]
    exact emitEvents_eq ..
  · rw [if_neg hnew, if_neg hnew, Nat.max_eq_left (Nat.le_of_not_lt hnew), List.append_nil,
      Function.update_eq_self]
    rfl

/-- A notification returns its state, calls the observers and raises what was emitted. -/
theorem notify_eq (observers : Observers) (state : WorkflowRunState) (observation : Observation) :
    notify observers state observation =
      (.ok state,
        { calls := observation.calls ++
            (if observation.emittedEvents state.id < state.eventSequence then
              eventCalls observers state.id (observation.emittedEvents state.id) state.events
            else []) ++ stateCalls observers state
          emittedEvents := Function.update observation.emittedEvents state.id
            (max (observation.emittedEvents state.id) state.eventSequence) }) := by
  have hnew := emitNewEvents_eq observers state observation
  generalize hnext : (Observation.mk _ _) = next at hnew
  obtain ⟨returned, hcall⟩ := attempt_callOnStateChanged observers state next
  unfold notify
  simp only [bind, pure, hnew, hcall]
  rw [← hnext]

/-! ## Snapshots of one timeline -/

/-- All the events some appends number. -/
def historyOf (batches : List (List WorkflowEventBody × Timestamp)) : List WorkflowEvent :=
  batches.foldl (fun history batch => history ++
    numberEvents history.length batch.2.text batch.1) []

/-- A state holds the timeline some of the appends produced, the first ones in their order. -/
def SnapshotOf (batches : List (List WorkflowEventBody × Timestamp)) (state : WorkflowRunState) :
    Prop :=
  ∃ count, state.timeline = Timeline.empty.appendAll (batches.take count)

/-- The first state of a run that reaches a sequence. -/
def firstReaching (runId : String) (sequence : Nat) (states : List WorkflowRunState) :
    Option WorkflowRunState :=
  states.find? fun state => decide (state.id = runId ∧ sequence ≤ state.eventSequence)

private theorem historyOf_append (batches later : List (List WorkflowEventBody × Timestamp)) :
    ∃ events, historyOf (batches ++ later) = historyOf batches ++ events := by
  induction later using List.reverseRecOn with
  | nil => exact ⟨[], by rw [List.append_nil, List.append_nil]⟩
  | append_singleton later batch ih =>
    obtain ⟨events, hevents⟩ := ih
    have hlast : historyOf (batches ++ (later ++ [batch])) =
        historyOf (batches ++ later) ++
          numberEvents (historyOf (batches ++ later)).length batch.2.text batch.1 := by
      unfold historyOf
      rw [← List.append_assoc, List.foldl_append, List.foldl_cons, List.foldl_nil]
    refine ⟨events ++ numberEvents (historyOf (batches ++ later)).length batch.2.text batch.1, ?_⟩
    rw [hlast, hevents, List.append_assoc]

/-- Appends to an empty timeline leave the window of all their events. -/
private theorem appendAll_empty (batches : List (List WorkflowEventBody × Timestamp)) :
    Timeline.empty.appendAll batches = windowOf (historyOf batches) ∧
      IsHistory (historyOf batches) := by
  induction batches using List.reverseRecOn with
  | nil => exact ⟨windowOf_nil.symm, isHistory_nil⟩
  | append_singleton batches batch ih =>
    have hlast : historyOf (batches ++ [batch]) =
        historyOf batches ++ numberEvents (historyOf batches).length batch.2.text batch.1 := by
      unfold historyOf
      rw [List.foldl_append, List.foldl_cons, List.foldl_nil]
    have happend : Timeline.empty.appendAll (batches ++ [batch]) =
        (Timeline.empty.appendAll batches).append batch.1 batch.2 := by
      unfold Timeline.appendAll
      rw [List.foldl_append, List.foldl_cons, List.foldl_nil]
    rw [happend, ih.1, append_windowOf, hlast]
    exact ⟨rfl, ih.2.append batch.1 batch.2⟩

/-- What a snapshot holds: the last events of the first part of the history. -/
private theorem snapshotOf_window {batches : List (List WorkflowEventBody × Timestamp)}
    {state : WorkflowRunState} (h : SnapshotOf batches state) : ∃ length,
      length ≤ (historyOf batches).length ∧ state.eventSequence = length ∧
      state.droppedEvents = length - maxWorkflowEvents ∧
      state.events = ((historyOf batches).take length).drop (length - maxWorkflowEvents) := by
  obtain ⟨count, htimeline⟩ := h
  obtain ⟨later, hlater⟩ := historyOf_append (batches.take count) (batches.drop count)
  rw [List.take_append_drop] at hlater
  rw [(appendAll_empty _).1] at htimeline
  unfold WorkflowRunState.timeline windowOf at htimeline
  rw [Timeline.mk.injEq] at htimeline
  obtain ⟨hevents, hsequence, hdropped⟩ := htimeline
  refine ⟨(historyOf (batches.take count)).length, ?_, hsequence, hdropped, ?_⟩
  · rw [hlater, List.length_append]
    omega
  · rw [hevents, hlater, List.take_left]

/-- The sequence of an event is its place in the history. -/
private theorem sequence_getElem {history : List WorkflowEvent} (h : IsHistory history) {i : Nat}
    (hi : i < history.length) : history[i].sequence = i + 1 := by
  have hsequence := congrArg (fun sequences => sequences[i]?) h.sequences
  rw [List.getElem?_map, List.getElem?_eq_getElem hi, List.getElem?_range' hi, Option.map_some,
    Option.some.injEq] at hsequence
  omega

/-- A snapshot holds the events of the history past the dropped ones, up to its sequence. -/
private theorem mem_events_iff {batches : List (List WorkflowEventBody × Timestamp)}
    {state : WorkflowRunState} (h : SnapshotOf batches state) {event : WorkflowEvent} :
    event ∈ state.events ↔ event ∈ historyOf batches ∧ state.droppedEvents < event.sequence ∧
      event.sequence ≤ state.eventSequence := by
  obtain ⟨length, hlength, hsequence, hdropped, hevents⟩ := snapshotOf_window h
  have hhistory := (appendAll_empty batches).2
  rw [hsequence, hdropped, hevents]
  constructor
  · intro hmem
    obtain ⟨i, hi, rfl⟩ := List.getElem_of_mem hmem
    rw [List.length_drop, List.length_take] at hi
    rw [List.getElem_drop, List.getElem_take, sequence_getElem hhistory]
    exact ⟨List.getElem_mem _, by omega, by omega⟩
  · rintro ⟨hmem, hpast, hreached⟩
    obtain ⟨i, hi, rfl⟩ := List.getElem_of_mem hmem
    rw [sequence_getElem hhistory] at hpast hreached
    rw [List.mem_drop_iff_getElem]
    refine ⟨i - (length - maxWorkflowEvents), ?_, ?_⟩
    · rw [List.length_take]
      omega
    · have hplace : length - maxWorkflowEvents + (i - (length - maxWorkflowEvents)) = i := by
        omega
      simp only [List.getElem_take, hplace]

/-- The part of a state that deliveries depend on. -/
private def snapshot (state : WorkflowRunState) : Snapshot WorkflowEvent :=
  ⟨state.events, state.eventSequence⟩

private theorem snapshot_ordered {batches : List (List WorkflowEventBody × Timestamp)}
    {state : WorkflowRunState} (h : SnapshotOf batches state) :
    (snapshot state).Ordered WorkflowEvent.sequence := by
  refine ⟨?_, fun event hevent => ((mem_events_iff h).mp hevent).2.2⟩
  obtain ⟨length, -, -, -, hevents⟩ := snapshotOf_window h
  have hincreasing : (historyOf batches).Pairwise fun earlier later =>
      earlier.sequence < later.sequence := by
    rw [← List.pairwise_map, (appendAll_empty batches).2.sequences]
    exact List.pairwise_lt_range'
  show state.events.Pairwise _
  rw [hevents]
  exact (hincreasing.sublist (List.take_sublist _ _)).sublist (List.drop_sublist _ _)

/-! ## What the observers see -/

private theorem deliveredEvents_append (runId : String) (calls later : List ObserverCall) :
    deliveredEvents runId (calls ++ later) =
      deliveredEvents runId calls ++ deliveredEvents runId later := List.filterMap_append

private theorem deliveredEvents_stateCalls (observers : Observers) (runId : String)
    (state : WorkflowRunState) : deliveredEvents runId (stateCalls observers state) = [] := by
  unfold stateCalls
  split
  · rfl
  · rfl

private theorem deliveredEvents_eventCalls {observers : Observers}
    (hobserved : observers.onEvent.isSome) (runId id : String) (emitted : Nat)
    (events : List WorkflowEvent) :
    deliveredEvents runId (eventCalls observers id emitted events) =
      if id = runId then events.filter fun event => decide (emitted < event.sequence) else [] := by
  unfold eventCalls deliveredEvents
  rw [if_pos hobserved, List.filterMap_map]
  by_cases hid : id = runId
  · rw [if_pos hid]
    simp [hid]
  · rw [if_neg hid]
    simp [hid]

/-- Notifications deliver what the snapshots of a run deliver past the sequence emitted so far. -/
private theorem notifyAll_eq {batches : List (List WorkflowEventBody × Timestamp)}
    {observers : Observers} {runId : String} (hobserved : observers.onEvent.isSome)
    {states : List WorkflowRunState}
    (h : ∀ state ∈ states, state.id = runId → SnapshotOf batches state)
    (observation : Observation) : ∃ later,
      notifyAll observers states observation = (.ok (), later) ∧
      deliveredEvents runId later.calls = deliveredEvents runId observation.calls ++
        Snapshot.deliver WorkflowEvent.sequence (observation.emittedEvents runId)
          ((states.filter fun state => decide (state.id = runId)).map snapshot) := by
  induction states generalizing observation with
  | nil => exact ⟨observation, rfl, (List.append_nil _).symm⟩
  | cons state rest ih =>
    have hnotify := notify_eq observers state observation
    generalize hnext : (Observation.mk _ _) = next at hnotify
    obtain ⟨later, hrest, hdelivered⟩ :=
      ih (fun other hother => h other (List.mem_cons_of_mem _ hother)) next
    refine ⟨later, ?_, ?_⟩
    · unfold notifyAll
      simp only [bind, hnotify, hrest]
    · rw [hdelivered, ← hnext]
      simp only [deliveredEvents_append, deliveredEvents_stateCalls, List.append_nil,
        List.append_assoc]
      by_cases hid : state.id = runId
      · rw [List.filter_cons_of_pos (by simpa using hid), List.map_cons]
        subst hid
        rw [Snapshot.deliver_cons, Function.update_self, List.append_cancel_left_eq]
        by_cases hnew : observation.emittedEvents state.id < state.eventSequence
        · rw [if_pos hnew, deliveredEvents_eventCalls hobserved, if_pos rfl]
          rfl
        · have hstale := Snapshot.past_eq_nil (snapshot_ordered (h state List.mem_cons_self rfl))
            (Nat.le_of_not_lt hnew)
          rw [if_neg hnew, hstale]
          rfl
      · rw [List.filter_cons_of_neg (by simpa using hid), Function.update_of_ne (Ne.symm hid)]
        rw [List.append_cancel_left_eq]
        split
        · rw [deliveredEvents_eventCalls hobserved, if_neg hid, List.nil_append]
        · rfl

private theorem firstReaching_snapshots (runId : String) (sequence : Nat)
    (states : List WorkflowRunState) :
    Snapshot.firstReaching sequence
        ((states.filter fun state => decide (state.id = runId)).map snapshot) =
      (firstReaching runId sequence states).map snapshot := by
  unfold Snapshot.firstReaching firstReaching
  rw [List.find?_map, List.find?_filter]
  congr 2
  funext state
  rw [Bool.decide_and, Bool.decide_and, Bool.decide_eq_true, Bool.decide_eq_true]
  rfl

/-- Whatever snapshots of a growing timeline the engine notifies of, in whatever order and between
those of other runs, an event observer gets the same events of the run, throwing or not. Their
sequences increase, and they are the events of the timeline that the first snapshot to reach them
has not dropped. -/
theorem observers_see_each_event_once {batches : List (List WorkflowEventBody × Timestamp)}
    {runId : String} {states : List WorkflowRunState}
    (h : ∀ state ∈ states, state.id = runId → SnapshotOf batches state) :
    ∃ delivered : List WorkflowEvent,
      (∀ observers : Observers, observers.onEvent.isSome → ∃ seen,
        notifyAll observers states .empty = (.ok (), seen) ∧
        deliveredEvents runId seen.calls = delivered) ∧
      delivered.Pairwise (fun earlier later => earlier.sequence < later.sequence) ∧
      ∀ event, event ∈ delivered ↔ event ∈ historyOf batches ∧
        ∃ first, firstReaching runId event.sequence states = some first ∧
          first.droppedEvents < event.sequence := by
  have hordered : ∀ other ∈ (states.filter fun state => decide (state.id = runId)).map snapshot,
      other.Ordered WorkflowEvent.sequence := by
    intro other hother
    obtain ⟨state, hstate, rfl⟩ := List.mem_map.mp hother
    rw [List.mem_filter, decide_eq_true_eq] at hstate
    exact snapshot_ordered (h state hstate.1 hstate.2)
  refine ⟨_, ?_, @Snapshot.deliver_increasing _ _ 0 _ hordered, ?_⟩
  · intro observers hobserved
    obtain ⟨seen, hseen, hdelivered⟩ := notifyAll_eq hobserved h .empty
    exact ⟨seen, hseen, hdelivered⟩
  · intro event
    rw [Snapshot.mem_deliver_iff hordered, firstReaching_snapshots]
    have hfirst : ∀ first, firstReaching runId event.sequence states = some first →
        event.sequence ≤ first.eventSequence ∧ SnapshotOf batches first := by
      intro first hfound
      have hreaches := List.find?_some hfound
      rw [decide_eq_true_eq] at hreaches
      exact ⟨hreaches.2, h first (List.mem_of_find?_eq_some hfound) hreaches.1⟩
    constructor
    · rintro ⟨-, reaching, hreaching, hmem⟩
      obtain ⟨first, hfound, rfl⟩ := Option.map_eq_some_iff.mp hreaching
      obtain ⟨-, hsnapshot⟩ := hfirst first hfound
      obtain ⟨hhistory, hretained, -⟩ := (mem_events_iff hsnapshot).mp hmem
      exact ⟨hhistory, first, hfound, hretained⟩
    · rintro ⟨hhistory, first, hfound, hretained⟩
      obtain ⟨hreached, hsnapshot⟩ := hfirst first hfound
      refine ⟨by omega, snapshot first, ?_, (mem_events_iff hsnapshot).mpr ⟨hhistory, hretained, hreached⟩⟩
      rw [hfound]
      rfl

/-- A run that only keeps a timeline. -/
private def timelineRun (timeline : Timeline) : WorkflowRunState :=
  { id := "run"
    state := .running
    plan := ⟨"plan", [], []⟩
    repositoryRoot := "/repo"
    baseBranch := "main"
    baseCommit := "base"
    integrationBranch := "conductor/run"
    integrationHead := "base"
    capabilityProfiles := defaultCapabilityProfiles
    authority := none
    steps := .ofList []
    attempts := []
    events := timeline.events
    eventSequence := timeline.eventSequence
    droppedEvents := timeline.droppedEvents
    maxConcurrentWorkers := 1
    error := none
    createdAt := "0"
    updatedAt := "0" }

private theorem firstRequestTime : "1" ≠ "" := by decide

private theorem secondRequestTime : "2" ≠ "" := by decide

/-- Two cancellation requests, one after the other. -/
private def twoRequests : List (List WorkflowEventBody × Timestamp) :=
  [([.runCancellationRequested "first"], ⟨"1", firstRequestTime⟩),
    ([.runCancellationRequested "second"], ⟨"2", secondRequestTime⟩)]

/-- The second snapshot arrives before the first and delivers both events. -/
theorem late_snapshot_delivers_nothing : ∃ delivered : List WorkflowEvent,
    (∀ observers : Observers, observers.onEvent.isSome → ∃ seen,
      notifyAll observers
        [timelineRun (Timeline.empty.appendAll (twoRequests.take 2)),
          timelineRun (Timeline.empty.appendAll (twoRequests.take 1))] .empty = (.ok (), seen) ∧
      deliveredEvents "run" seen.calls = delivered) ∧
    delivered.Pairwise (fun earlier later => earlier.sequence < later.sequence) ∧
    ∀ event, event ∈ delivered ↔ event ∈ historyOf twoRequests ∧
      ∃ first, firstReaching "run" event.sequence
        [timelineRun (Timeline.empty.appendAll (twoRequests.take 2)),
          timelineRun (Timeline.empty.appendAll (twoRequests.take 1))] = some first ∧
        first.droppedEvents < event.sequence := by
  apply observers_see_each_event_once
  intro state hstate _
  rcases List.mem_cons.mp hstate with rfl | hstate
  · exact ⟨2, rfl⟩
  · rw [List.mem_singleton] at hstate
    exact ⟨1, hstate ▸ rfl⟩

end BuildConductor.Engine
