import BuildConductor.Workers.ServerStream

/-!
# What a stream shows over its runs

Whatever happens to a prompt execution, in whatever order, its trace follows the protocol and shows
what its state holds. Each operation is a move that keeps both; a run is made of moves.
`src/src/workers/server-backend.ts:554-925`.
-/

namespace BuildConductor.Workers

open Base Domain Storage

/-- Whether an event loses the connection. -/
def StreamEvent.disconnects : StreamEvent → Bool
  | .error _ | .ended _ => true
  | _ => false

namespace StreamState

variable {s t u : StreamState}

/-- The trace follows the protocol, and shows what the state holds. -/
structure Faithful (s : StreamState) : Prop where
  follows : streamProtocol.Follows s.trace
  seen : streamProtocol.observe s.trace = s.view

/-- The start and the completion are settled. -/
def Settled (s : StreamState) : Prop := s.start ≠ none ∧ s.completion ≠ none

/-- What is known of the connection and of the signal. -/
def connection (s : StreamState) : Bool × Option (Option String) × Bool :=
  (s.disconnectHandled, s.statusAsked, s.listening)

/-- A step that only adds to the trace, keeps it faithful, and takes nothing settled back. -/
structure Shows (s t : StreamState) : Prop where
  faithful : s.Faithful → t.Faithful
  grows : s.trace <+: t.trace
  start : s.start ≠ none → t.start ≠ none
  completion : s.completion ≠ none → t.completion ≠ none

/-- A step that shows, keeps what is known of the connection, and stops listening to the signal only
when all is settled. -/
structure Moves (s t : StreamState) : Prop extends Shows s t where
  connection : t.connection = s.connection ∨
    t.disconnectHandled = s.disconnectHandled ∧ t.statusAsked = s.statusAsked ∧ t.Settled

theorem Shows.refl (s : StreamState) : Shows s s := ⟨id, List.prefix_refl _, id, id⟩

theorem Shows.trans (h : Shows s t) (h' : Shows t u) : Shows s u :=
  ⟨h'.faithful ∘ h.faithful, h.grows.trans h'.grows, h'.start ∘ h.start, h'.completion ∘ h.completion⟩

/-- A step nobody sees. -/
theorem Shows.quiet (htrace : t.trace = s.trace) (hview : t.view = s.view) : Shows s t := by
  have hstart : t.start = s.start := congrArg Observation.start hview
  have hcompletion : t.completion = s.completion := congrArg Observation.completion hview
  constructor
  · intro h
    constructor
    · rw [htrace]
      exact h.follows
    · rw [htrace, hview]
      exact h.seen
  · rw [htrace]
  · rw [hstart]
    exact id
  · rw [hcompletion]
    exact id

/-- A step that is seen once, as the protocol allows. -/
theorem Shows.entry (entry : StreamEntry) (htrace : t.trace = s.trace ++ [entry])
    (hallowed : streamProtocol.allows s.view entry) (hview : streamProtocol.next s.view entry = t.view) :
    Shows s t := by
  have hstart : t.start = (streamProtocol.next s.view entry).start := by rw [hview]; rfl
  have hcompletion : t.completion = (streamProtocol.next s.view entry).completion := by
    rw [hview]; rfl
  constructor
  · intro h
    constructor
    · rw [htrace, Monitor.follows_concat_iff, h.seen]
      exact ⟨h.follows, hallowed⟩
    · rw [htrace, Monitor.observe_concat, h.seen]
      exact hview
  · rw [htrace]
    exact List.prefix_append _ _
  · rw [hstart]
    cases entry <;> first | exact id | exact fun _ => Option.some_ne_none _
  · rw [hcompletion]
    cases entry <;> first | exact id | exact fun _ => Option.some_ne_none _

theorem Shows.settled (h : Shows s t) (hs : s.Settled) : t.Settled :=
  ⟨h.start hs.1, h.completion hs.2⟩

namespace Moves

theorem refl (s : StreamState) : Moves s s := ⟨Shows.refl s, Or.inl rfl⟩

theorem lost (h : Moves s t) :
    t.disconnectHandled = s.disconnectHandled ∧ t.statusAsked = s.statusAsked := by
  rcases h.connection with hsame | hsettled
  · exact ⟨congrArg Prod.fst hsame, congrArg (fun known => known.2.1) hsame⟩
  · exact ⟨hsettled.1, hsettled.2.1⟩

theorem trans (h : Moves s t) (h' : Moves t u) : Moves s u := by
  refine ⟨h.toShows.trans h'.toShows, ?_⟩
  rcases h'.connection with hsame | hsettled
  · rw [hsame]
    rcases h.connection with hfirst | hfirst
    · exact Or.inl hfirst
    · have hlost := h'.lost
      rw [hlost.1, hlost.2]
      exact Or.inr ⟨hfirst.1, hfirst.2.1, h'.settled hfirst.2.2⟩
  · rw [hsettled.1, hsettled.2.1, h.lost.1, h.lost.2]
    exact Or.inr ⟨rfl, rfl, hsettled.2.2⟩

theorem quiet (htrace : t.trace = s.trace) (hview : t.view = s.view)
    (hconnection : t.connection = s.connection) : Moves s t :=
  ⟨Shows.quiet htrace hview, Or.inl hconnection⟩

theorem entry (entry : StreamEntry) (htrace : t.trace = s.trace ++ [entry])
    (hallowed : streamProtocol.allows s.view entry) (hview : streamProtocol.next s.view entry = t.view)
    (hconnection : t.connection = s.connection) : Moves s t :=
  ⟨Shows.entry entry htrace hallowed hview, Or.inl hconnection⟩

/-- A fold of moves is a move. -/
theorem foldl {α : Type} {f : StreamState → α → StreamState} (h : ∀ s x, Moves s (f s x))
    (items : List α) (s : StreamState) : Moves s (items.foldl f s) := by
  induction items generalizing s with
  | nil => exact refl s
  | cons item items ih => exact (h s item).trans (ih _)

theorem ite {p : Prop} [Decidable p] (h : p → Moves s t) (h' : ¬p → Moves s u) :
    Moves s (if p then t else u) := by
  by_cases hp : p
  · rw [if_pos hp]
    exact h hp
  · rw [if_neg hp]
    exact h' hp

theorem attempting {α : Type} {result : Except String α} {next : α → StreamState}
    (herror : ∀ error, Moves s (s.failStart error)) (h : ∀ value, Moves s (next value)) :
    Moves s (s.attempting result next) := by
  cases result with
  | error error => exact herror error
  | ok value => exact h value

end Moves

/-! ## Requests are resolved -/

private theorem find_some {serial : Nat} {pending : PendingUiRequest} (h : s.find serial = some pending) :
    pending ∈ s.pending ∧ pending.serial = serial :=
  ⟨List.mem_of_find?_eq_some h, by simpa using List.find?_some h⟩

private theorem find_view {serial : Nat} {pending : PendingUiRequest}
    (h : s.find serial = some pending) : (serial, pending.request) ∈ s.view.pending := by
  obtain ⟨hmem, rfl⟩ := find_some h
  exact List.mem_map_of_mem (f := fun pending => (pending.serial, pending.request)) hmem

theorem resolve_pending (serial : Nat) (outcome : WorkerUiResolutionOutcome) (s : StreamState) :
    (s.resolve serial outcome).pending = s.pending.filter fun other => other.serial ≠ serial := by
  unfold resolve
  cases h : s.find serial with
  | some pending => rfl
  | none =>
    symm
    rw [List.filter_eq_self]
    intro other hother
    have hnone := List.find?_eq_none.mp h other hother
    simpa using hnone

@[simp] theorem resolve_completion (serial : Nat) (outcome : WorkerUiResolutionOutcome)
    (s : StreamState) : (s.resolve serial outcome).completion = s.completion := by
  unfold resolve
  split <;> rfl

@[simp] theorem resolve_start (serial : Nat) (outcome : WorkerUiResolutionOutcome)
    (s : StreamState) : (s.resolve serial outcome).start = s.start := by
  unfold resolve
  split <;> rfl

theorem moves_resolve (serial : Nat) (outcome : WorkerUiResolutionOutcome) (s : StreamState) :
    Moves s (s.resolve serial outcome) := by
  unfold resolve
  cases h : s.find serial with
  | none => exact Moves.refl s
  | some pending =>
    apply Moves.entry (.resolved serial pending.request outcome) rfl (find_view h)
    · show Observation.mk _ _ _ _ = Observation.mk _ _ _ _
      congr 1
      show List.filter _ (List.map _ s.pending) = _
      rw [List.filter_map]
      rfl
    · rfl

private theorem foldl_resolve_pending (outcome : WorkerUiResolutionOutcome)
    (open' : List PendingUiRequest) (s : StreamState) (h : s.pending ⊆ open') :
    (open'.foldl (fun s pending => s.resolve pending.serial outcome) s).pending = [] := by
  induction open' generalizing s with
  | nil => exact List.subset_nil.mp h
  | cons pending rest ih =>
    apply ih
    rw [resolve_pending]
    intro other hother
    rw [List.mem_filter] at hother
    rcases List.mem_cons.mp (h hother.1) with rfl | hrest
    · simp at hother
    · exact hrest

@[simp] theorem invalidate_pending (outcome : WorkerUiResolutionOutcome) (s : StreamState) :
    (s.invalidate outcome).pending = [] :=
  foldl_resolve_pending outcome s.pending s (List.Subset.refl _)

/-- What resolving leaves as it is, closing all requests leaves as it is. -/
private theorem invalidate_keeps {α : Type} {f : StreamState → α} (outcome : WorkerUiResolutionOutcome)
    (h : ∀ (s : StreamState) serial, f (s.resolve serial outcome) = f s) (s : StreamState) :
    f (s.invalidate outcome) = f s := by
  have hfold : ∀ (entries : List PendingUiRequest) (s : StreamState),
      f (entries.foldl (fun s pending => s.resolve pending.serial outcome) s) = f s := by
    intro entries
    induction entries with
    | nil => exact fun _ => rfl
    | cons pending rest ih => exact fun s => (ih _).trans (h s _)
  exact hfold s.pending s

@[simp] theorem invalidate_completion (outcome : WorkerUiResolutionOutcome) (s : StreamState) :
    (s.invalidate outcome).completion = s.completion :=
  invalidate_keeps outcome (fun s serial => resolve_completion serial outcome s) s

@[simp] theorem invalidate_start (outcome : WorkerUiResolutionOutcome) (s : StreamState) :
    (s.invalidate outcome).start = s.start :=
  invalidate_keeps outcome (fun s serial => resolve_start serial outcome s) s

theorem moves_invalidate (outcome : WorkerUiResolutionOutcome) (s : StreamState) :
    Moves s (s.invalidate outcome) :=
  Moves.foldl (fun s (pending : PendingUiRequest) => moves_resolve pending.serial outcome s)
    s.pending s

/-! ## The start and the completion settle -/

theorem moves_settle (result : WorkerExecutionResult) (outcome : WorkerUiResolutionOutcome)
    (h : s.completion = none) : Moves s (s.settle result outcome) := by
  apply (moves_invalidate outcome s).trans
  apply Moves.entry (.settled result) rfl
  · have hpending : (s.invalidate outcome).view.pending = [] := by
      show List.map _ (s.invalidate outcome).pending = []
      rw [invalidate_pending, List.map_nil]
    exact ⟨(invalidate_completion outcome s).trans h, hpending⟩
  · rfl
  · rfl

theorem moves_destroy (h : s.Settled) : Moves s s.destroy :=
  ⟨Shows.quiet rfl rfl, Or.inr ⟨rfl, rfl, h⟩⟩

theorem moves_finishCompletion (result : WorkerExecutionResult) (s : StreamState) :
    Moves s (s.finishCompletion result) := by
  unfold finishCompletion
  apply Moves.ite
  · exact fun _ => Moves.refl s
  · intro hopen
    rw [Bool.not_eq_true, Option.isSome_eq_false_iff, Option.isNone_iff_eq_none] at hopen
    apply Moves.ite
    · intro hstarted
      refine (moves_settle result _ hopen).trans (moves_destroy ⟨?_, nofun⟩)
      rw [Option.isSome_iff_ne_none, ← invalidate_start _ s] at hstarted
      exact hstarted
    · exact fun _ => moves_settle result _ hopen

theorem completion_finishCompletion (result : WorkerExecutionResult) (s : StreamState) :
    (s.finishCompletion result).completion ≠ none := by
  unfold finishCompletion
  by_cases hsettled : s.completion.isSome
  · rw [if_pos hsettled]
    exact Option.isSome_iff_ne_none.mp hsettled
  · rw [if_neg hsettled]
    dsimp only
    split <;> exact Option.some_ne_none _

theorem settled_finishCompletion (result : WorkerExecutionResult) (h : s.start ≠ none) :
    (s.finishCompletion result).Settled :=
  ⟨(moves_finishCompletion result s).start h, completion_finishCompletion result s⟩

/-- The requests are closed before the start fails, and the completion with them. -/
private theorem closed_spec (error : String) (s : StreamState) {closed : StreamState}
    (h : closed = if s.completion.isSome then s.invalidate .streamClosed
      else s.settle (.failed (.str error)) .streamClosed) :
    Moves s closed ∧ closed.start = s.start ∧ closed.completion ≠ none := by
  by_cases hsettled : s.completion.isSome
  · rw [if_pos hsettled] at h
    rw [h, invalidate_start, invalidate_completion]
    exact ⟨moves_invalidate _ s, rfl, Option.isSome_iff_ne_none.mp hsettled⟩
  · rw [if_neg hsettled] at h
    rw [Bool.not_eq_true, Option.isSome_eq_false_iff, Option.isNone_iff_eq_none] at hsettled
    rw [h]
    exact ⟨moves_settle _ _ hsettled, invalidate_start _ s, nofun⟩

theorem moves_failStart (error : String) (s : StreamState) : Moves s (s.failStart error) := by
  unfold failStart
  apply Moves.ite
  · exact fun _ => moves_finishCompletion _ s
  · intro hopen
    rw [Bool.not_eq_true, Option.isSome_eq_false_iff, Option.isNone_iff_eq_none] at hopen
    obtain ⟨hmoves, hstart, hsettled⟩ := closed_spec error s rfl
    apply hmoves.trans
    refine Moves.trans ?_ (moves_destroy ⟨nofun, hsettled⟩)
    apply Moves.entry (.started (.error error)) rfl
    · exact ⟨hstart.trans hopen, fun hnone => absurd hnone hsettled⟩
    · rfl
    · rfl

theorem moves_handleAbort (error : String) (s : StreamState) : Moves s (s.handleAbort error) := by
  unfold handleAbort
  apply Moves.ite
  · exact fun _ => moves_finishCompletion _ s
  · exact fun _ => (moves_invalidate _ s).trans (moves_failStart _ _)

/-- A start that fails leaves nothing unsettled. -/
theorem settled_failStart (error : String) (s : StreamState) : (s.failStart error).Settled := by
  unfold failStart
  by_cases hstarted : s.start.isSome
  · rw [if_pos hstarted]
    exact settled_finishCompletion _ (Option.isSome_iff_ne_none.mp hstarted)
  · rw [if_neg hstarted]
    exact ⟨nofun, (closed_spec error s rfl).2.2⟩

theorem settled_handleAbort (error : String) (s : StreamState) : (s.handleAbort error).Settled := by
  unfold handleAbort
  by_cases hstarted : s.start.isSome
  · rw [if_pos hstarted]
    exact settled_finishCompletion _ (Option.isSome_iff_ne_none.mp hstarted)
  · rw [if_neg hstarted]
    exact settled_failStart _ _

/-! ## Requests are answered -/

/-- Changing what is being written changes nothing others see. -/
private theorem view_responding (s : StreamState) (serial : Nat)
    (responding : Option WorkerUiResolutionOutcome) (trace : List StreamEntry) :
    StreamState.view { s with
      pending := s.pending.map fun other =>
        if other.serial = serial then { other with responding := responding } else other
      trace := trace } = s.view := by
  unfold view
  congr 1
  rw [List.map_map]
  apply List.map_congr_left
  intro other _
  by_cases h : other.serial = serial <;> simp [h]

theorem moves_respondToUiRequest (serial : Nat) (response : WorkerUiResponse) (s : StreamState) :
    Moves s (s.respondToUiRequest serial response) := by
  unfold respondToUiRequest
  split
  · exact Moves.refl s
  · next pending hfind =>
    split
    · next command outcome _ _ =>
      apply Moves.ite
      · exact fun _ => Moves.refl s
      · intro hopen
        push Not at hopen
        apply Moves.entry (.answered serial command) rfl
        · constructor
          · exact List.mem_map_of_mem (f := Prod.fst) (find_view hfind)
          · simpa [view] using hopen.1
        · exact (view_responding s serial (some outcome) _).symm
        · rfl
    · exact Moves.refl s

theorem moves_writeSettled (serial : Nat) (error : Option String) (s : StreamState) :
    Moves s (s.writeSettled serial error) := by
  unfold writeSettled
  split
  · exact Moves.refl s
  · split
    · exact moves_resolve _ _ s
    · exact Moves.quiet rfl (view_responding s serial none _) rfl

theorem moves_requestTimeout (serial : Nat) (s : StreamState) : Moves s (s.requestTimeout serial) := by
  unfold requestTimeout
  split
  · exact Moves.refl s
  · exact moves_resolve _ _ s

theorem moves_handlerFailed (serial : Nat) (message : String) (s : StreamState) :
    Moves s (s.handlerFailed serial message) := by
  unfold handlerFailed
  split
  · exact Moves.refl s
  · exact moves_failStart _ s

theorem moves_callHandler (serial : Nat) (handling : UiHandling) (s : StreamState) :
    Moves s (s.callHandler serial handling) := by
  unfold callHandler
  have hanswered := Moves.foldl (fun s response => moves_respondToUiRequest serial response s)
    handling.responses s
  split
  · exact hanswered
  · exact hanswered.trans (moves_failStart _ _)

theorem moves_registerUiRequest (options : StreamOptions) (request : WorkerUiRequest)
    (s : StreamState) : Moves s (s.registerUiRequest options request) := by
  unfold registerUiRequest
  apply Moves.ite
  · exact fun _ => moves_failStart _ s
  · intro hfresh
    have hregistered : Moves s { s with
        pending := s.pending ++ [⟨s.announced, request, none⟩]
        announced := s.announced + 1
        trace := s.trace ++ [.announced s.announced request] } := by
      apply Moves.entry (.announced s.announced request) rfl
      · refine ⟨rfl, ?_⟩
        intro entry hentry
        change entry ∈ s.pending.map _ at hentry
        rw [List.mem_map] at hentry
        obtain ⟨pending, hpending, rfl⟩ := hentry
        rw [List.any_eq_true] at hfresh
        intro hid
        exact hfresh ⟨pending, hpending, by simpa using hid⟩
      · show Observation.mk _ _ _ _ = Observation.mk _ _ _ _
        congr 1
        show _ = List.map _ (s.pending ++ [_])
        rw [List.map_append]
        rfl
      · rfl
    split
    · exact hregistered
    · exact hregistered.trans (moves_callHandler _ _ _)

/-! ## Messages -/

theorem moves_acceptPrompt (s : StreamState) : Moves s s.acceptPrompt := by
  unfold acceptPrompt
  apply Moves.ite
  · exact fun _ => Moves.refl s
  · intro hopen
    rw [Bool.not_eq_true, Option.isSome_eq_false_iff, Option.isNone_iff_eq_none] at hopen
    have haccepted : Moves s { s with start := some (.ok ()), trace := s.trace ++ [.started (.ok ())] } :=
      Moves.entry (.started (.ok ())) rfl ⟨hopen, fun _ => rfl⟩ rfl rfl
    apply Moves.ite
    · exact fun hsettled => haccepted.trans (moves_destroy ⟨nofun, Option.isSome_iff_ne_none.mp hsettled⟩)
    · exact fun _ => haccepted

theorem moves_settleAgent (s : StreamState) : Moves s s.settleAgent := by
  unfold settleAgent
  split
  · exact moves_finishCompletion _ s
  · exact moves_finishCompletion _ s

theorem moves_trackAgent (message : Json) (type : Option Json) (s : StreamState) :
    Moves s (s.trackAgent message type) := by
  unfold trackAgent
  split
  · apply Moves.attempting (fun error => moves_failStart error s)
    intro failure
    have hfailed : Moves s { s with agentRunFailure := failure } := Moves.quiet rfl rfl rfl
    apply hfailed.trans
    apply Moves.attempting (fun error => moves_failStart error _)
    exact fun output => Moves.quiet rfl rfl rfl
  · apply Moves.ite
    · exact fun _ => Moves.quiet rfl rfl rfl
    · intro _
      apply Moves.attempting (fun error => moves_failStart error s)
      exact fun failure => Moves.quiet rfl rfl rfl
  · exact moves_settleAgent s
  · exact Moves.refl s

theorem moves_handleMessage (options : StreamOptions) (message : Json) (s : StreamState) :
    Moves s (s.handleMessage options message) := by
  have hfail : ∀ error, Moves s (s.failStart error) := fun error => moves_failStart error s
  unfold handleMessage
  apply Moves.attempting hfail
  intro type
  apply Moves.ite
  · intro _
    apply Moves.ite
    · exact fun _ => Moves.entry .prompted rfl trivial rfl rfl
    · exact fun _ => hfail _
  · intro _
    apply Moves.ite
    · intro _
      apply Moves.ite
      · exact fun _ => moves_acceptPrompt s
      · exact fun _ => hfail _
    · intro _
      apply Moves.ite
      · exact fun _ => hfail _
      · intro _
        apply Moves.attempting hfail
        intro request
        cases request with
        | some request => exact moves_registerUiRequest options request s
        | none =>
          apply Moves.attempting hfail
          intro event
          cases event with
          | none => exact moves_trackAgent message type s
          | some event =>
            have hreported : Moves s { s with trace := s.trace ++ [.progressed event] } :=
              Moves.entry (.progressed event) rfl trivial rfl rfl
            exact hreported.trans (moves_trackAgent message type _)

/-! ## Frames -/

theorem moves_handleFrame (options : StreamOptions) (frame : List Char) (s : StreamState) :
    Moves s (s.handleFrame options frame) := by
  unfold handleFrame
  split
  · exact moves_failStart _ s
  · exact moves_handleMessage options _ s

theorem moves_processLines (options : StreamOptions) (lines : List (List Char)) (rest : List Char)
    (s : StreamState) : Moves s (ServerStream.processLines options lines rest s).state := by
  induction lines generalizing s with
  | nil =>
    apply Moves.ite
    · exact fun _ => moves_failStart _ s
    · exact fun _ => Moves.refl s
  | cons line lines ih =>
    unfold ServerStream.processLines
    by_cases hempty : withoutReturn line = []
    · simp only [if_pos hempty]
      exact ih s
    · simp only [if_neg hempty]
      by_cases hlong : maxStreamFrameBytes < (utf8Bytes (withoutReturn line)).length
      · simp only [if_pos hlong]
        exact moves_failStart _ s
      · simp only [if_neg hlong]
        exact (moves_handleFrame options _ s).trans (ih _)

/-! ### Connections that are lost -/

/-- A lost connection is settled, or the worker's status is being asked for. -/
def Attended (s : StreamState) : Prop := s.completion ≠ none ∨ s.statusAsked ≠ none

/-- A lost connection is attended, and a signal is listened to until all is settled. -/
structure Watched (s : StreamState) : Prop where
  attended : s.disconnectHandled = true → s.start ≠ none ∧ s.Attended
  heard : s.listening = false → s.Settled

theorem Moves.attended (h : Moves s t) (hs : s.Attended) : t.Attended := by
  rcases hs with hsettled | hasked
  · exact Or.inl (h.completion hsettled)
  · rw [← h.lost.2] at hasked
    exact Or.inr hasked

theorem Moves.watched (h : Moves s t) (hs : s.Watched) : t.Watched := by
  constructor
  · rw [h.lost.1]
    intro hlost
    have hattended := hs.attended hlost
    exact ⟨h.start hattended.1, h.attended hattended.2⟩
  · intro hdeaf
    rcases h.connection with hsame | hsettled
    · have hlistening : t.listening = s.listening := congrArg (fun known => known.2.2) hsame
      rw [hlistening] at hdeaf
      exact h.settled (hs.heard hdeaf)
    · exact hsettled.2.2

/-- What a step does that concerns the connection. -/
structure Keeps (s t : StreamState) : Prop extends Shows s t where
  attended : s.Attended → t.Attended
  watched : s.Watched → t.Watched

theorem Moves.keeps (h : Moves s t) : Keeps s t := ⟨h.toShows, h.attended, h.watched⟩

theorem Keeps.trans (h : Keeps s t) (h' : Keeps t u) : Keeps s u :=
  ⟨h.toShows.trans h'.toShows, h'.attended ∘ h.attended, h'.watched ∘ h.watched⟩

/-- A connection is lost once, and is attended then. -/
private theorem handleDisconnect_spec (socketError : Option String) (s : StreamState) :
    Shows s (s.handleDisconnect socketError) ∧
    (s.disconnectHandled = true ∧ s.handleDisconnect socketError = s ∨
      ((s.handleDisconnect socketError).start ≠ none ∧ (s.handleDisconnect socketError).Attended) ∧
        ((s.handleDisconnect socketError).listening = s.listening ∨
          (s.handleDisconnect socketError).Settled)) := by
  have hnoted : Shows s { s with disconnectHandled := true } := Shows.quiet rfl rfl
  unfold handleDisconnect
  by_cases hhandled : s.disconnectHandled
  · rw [if_pos hhandled]
    exact ⟨Shows.refl s, Or.inl ⟨hhandled, rfl⟩⟩
  · rw [if_neg hhandled]
    by_cases hopen : s.start.isNone
    · rw [if_pos hopen]
      have hsettled := settled_failStart
        (socketError.getD "Official server stream closed before prompt acceptance")
        { s with disconnectHandled := true }
      exact ⟨hnoted.trans (moves_failStart _ _).toShows,
        Or.inr ⟨⟨hsettled.1, Or.inl hsettled.2⟩, Or.inr hsettled⟩⟩
    · rw [if_neg hopen]
      have hstarted : s.start ≠ none := by simpa using hopen
      by_cases hsettled : s.completion.isSome
      · rw [if_pos hsettled]
        rw [Option.isSome_iff_ne_none] at hsettled
        exact ⟨hnoted, Or.inr ⟨⟨hstarted, Or.inl hsettled⟩, Or.inl rfl⟩⟩
      · rw [if_neg hsettled]
        exact ⟨Shows.quiet rfl rfl, Or.inr ⟨⟨hstarted, Or.inr nofun⟩, Or.inl rfl⟩⟩

theorem keeps_handleDisconnect (socketError : Option String) (s : StreamState) :
    Keeps s (s.handleDisconnect socketError) := by
  obtain ⟨hshows, ⟨-, hsame⟩ | ⟨hattended, hheard⟩⟩ := handleDisconnect_spec socketError s
  · rw [hsame]
    exact (Moves.refl s).keeps
  · refine ⟨hshows, fun _ => hattended.2, fun hs => ⟨fun _ => hattended, ?_⟩⟩
    intro hdeaf
    rcases hheard with hlistening | hsettled
    · exact hshows.settled (hs.heard (hlistening ▸ hdeaf))
    · exact hsettled

/-- A connection that is lost is attended. -/
theorem attended_handleDisconnect (socketError : Option String) (hs : s.Watched) :
    (s.handleDisconnect socketError).start ≠ none ∧ (s.handleDisconnect socketError).Attended := by
  obtain ⟨-, ⟨hhandled, hsame⟩ | ⟨hattended, -⟩⟩ := handleDisconnect_spec socketError s
  · rw [hsame]
    exact hs.attended hhandled
  · exact hattended

theorem keeps_statusAnswered (workerId : String) (answer : Except String WorkerStatus)
    (s : StreamState) : Keeps s (s.statusAnswered workerId answer) := by
  unfold statusAnswered
  split
  · exact (Moves.refl s).keeps
  · next socketError hasked =>
    have hanswered : Shows s { s with statusAsked := none } := Shows.quiet rfl rfl
    have hmoves := moves_finishCompletion
      (.failed (.str (socketError.getD (disconnectError workerId answer)))) { s with statusAsked := none }
    have hsettled := completion_finishCompletion
      (.failed (.str (socketError.getD (disconnectError workerId answer)))) { s with statusAsked := none }
    refine ⟨hanswered.trans hmoves.toShows, fun _ => Or.inl hsettled, fun hs => ⟨?_, ?_⟩⟩
    · rw [hmoves.lost.1]
      exact fun hlost => ⟨hmoves.start (hs.attended hlost).1, Or.inl hsettled⟩
    · intro hdeaf
      rcases hmoves.connection with hsame | hdone
      · have hlistening := congrArg (fun known : Bool × Option (Option String) × Bool => known.2.2) hsame
        exact hmoves.settled (hs.heard (hlistening.symm.trans hdeaf))
      · exact hdone.2.2

/-- An answer settles what is attended. -/
theorem completion_statusAnswered (workerId : String) (answer : Except String WorkerStatus)
    (hs : s.Attended) : (s.statusAnswered workerId answer).completion ≠ none := by
  unfold statusAnswered
  split
  · next hasked =>
    rcases hs with hsettled | hattended
    · exact hsettled
    · exact absurd hasked hattended
  · exact completion_finishCompletion _ _

end StreamState

/-! ## Runs -/

namespace ServerStream

open StreamState

variable {stream : ServerStream}

theorem moves_processChunk (options : StreamOptions) (chunk : List Char) (stream : ServerStream) :
    Moves stream.state (stream.processChunk options chunk).state :=
  moves_processLines options _ _ stream.state

/-- Whatever happens to a stream keeps all of this. -/
theorem keeps_receive (options : StreamOptions) (stream : ServerStream) (event : StreamEvent) :
    Keeps stream.state (stream.receive options event).state := by
  cases event with
  | connect =>
    have hmoves : Moves stream.state (stream.receive options .connect).state :=
      Moves.entry .subscribed rfl trivial rfl rfl
    exact hmoves.keeps
  | data chunk => exact (moves_processChunk options chunk stream).keeps
  | error message => exact keeps_handleDisconnect _ stream.state
  | ended chunk =>
    exact (moves_processChunk options chunk stream).keeps.trans (keeps_handleDisconnect _ _)
  | startTimeout =>
    by_cases hstarted : stream.state.start.isSome
    · simp only [receive, if_pos hstarted]
      exact (Moves.refl stream.state).keeps
    · simp only [receive, if_neg hstarted]
      exact (moves_failStart _ stream.state).keeps
  | abort message =>
    by_cases hlistening : stream.state.listening
    · have hheard : Shows stream.state { stream.state with listening := false } := Shows.quiet rfl rfl
      have hmoves := moves_handleAbort message { stream.state with listening := false }
      have hsettled := settled_handleAbort message { stream.state with listening := false }
      simp only [receive, if_pos hlistening]
      exact ⟨hheard.trans hmoves.toShows, fun _ => Or.inl hsettled.2,
        fun _ => ⟨fun _ => ⟨hsettled.1, Or.inl hsettled.2⟩, fun _ => hsettled⟩⟩
    · simp only [receive, if_neg hlistening]
      exact (Moves.refl stream.state).keeps
  | statusAnswered answer => exact keeps_statusAnswered _ answer stream.state
  | respond serial response => exact (moves_respondToUiRequest serial response stream.state).keeps
  | writeSettled serial error => exact (moves_writeSettled serial error stream.state).keeps
  | requestTimeout serial => exact (moves_requestTimeout serial stream.state).keeps
  | handlerFailed serial message => exact (moves_handlerFailed serial message stream.state).keeps
  | unwritable =>
    have hmoves : Moves stream.state (stream.receive options .unwritable).state :=
      Moves.quiet rfl rfl rfl
    exact hmoves.keeps

theorem keeps_events (options : StreamOptions) (events : List StreamEvent) (stream : ServerStream) :
    Keeps stream.state (events.foldl (receive options) stream).state := by
  induction events generalizing stream with
  | nil => exact (Moves.refl stream.state).keeps
  | cons event rest ih => exact (keeps_receive options stream event).trans (ih _)

theorem run_append (options : StreamOptions) (aborted : Option String) (events later : List StreamEvent) :
    run options aborted (events ++ later) = later.foldl (receive options) (run options aborted events) :=
  List.foldl_append

theorem faithful_openStream (aborted : Option String) : (openStream aborted).state.Faithful := by
  have hopened : ∀ listening, Faithful { StreamState.opened with listening := listening } :=
    fun listening => ⟨Monitor.follows_nil _, rfl⟩
  cases aborted with
  | none => exact hopened true
  | some message => exact (moves_handleAbort message _).faithful (hopened false)

theorem watched_openStream (aborted : Option String) : (openStream aborted).state.Watched := by
  cases aborted with
  | none => exact ⟨nofun, nofun⟩
  | some message =>
    have hsettled := settled_handleAbort message { StreamState.opened with listening := false }
    exact ⟨fun _ => ⟨hsettled.1, Or.inl hsettled.2⟩, fun _ => hsettled⟩

theorem watched_run (options : StreamOptions) (aborted : Option String) (events : List StreamEvent) :
    (run options aborted events).state.Watched :=
  (keeps_events options events _).watched (watched_openStream aborted)

/-- However data, responses, timers, aborts and disconnects interleave, a stream keeps the protocol,
its state is what the trace shows, and what was shown stays shown. -/
theorem stream_disciplined (options : StreamOptions) (aborted : Option String)
    (events later : List StreamEvent) :
    Disciplined (run options aborted events).state.trace ∧
    Observes (run options aborted events).state.trace (run options aborted events).state.view ∧
    (run options aborted events).state.trace <+: (run options aborted (events ++ later)).state.trace := by
  have hfaithful : (run options aborted events).state.Faithful :=
    (keeps_events options events _).faithful (faithful_openStream aborted)
  refine ⟨disciplined_of_follows hfaithful.follows, ?_, ?_⟩
  · rw [← hfaithful.seen]
    exact observes_of_follows hfaithful.follows
  · rw [run_append]
    exact (keeps_events options later _).grows

/-- A lost connection is attended from then on. -/
theorem attended_of_disconnects (options : StreamOptions) {event : StreamEvent}
    (hevent : event.disconnects) (hs : stream.state.Watched) :
    (stream.receive options event).state.start ≠ none ∧
      (stream.receive options event).state.Attended := by
  cases event with
  | error message => exact attended_handleDisconnect _ hs
  | ended chunk =>
    exact attended_handleDisconnect _ ((moves_processChunk options chunk stream).watched hs)
  | _ => cases hevent

/-- No prompt hangs: its start is settled once its timer ran out or its connection is lost, its
completion once the status of the worker was answered behind that, and an abort settles both. -/
theorem stream_settles (options : StreamOptions) (aborted : Option String)
    (before after : List StreamEvent) (event : StreamEvent) :
    let state := (run options aborted (before ++ event :: after)).state
    (event = .startTimeout ∨ event.disconnects → state.start ≠ none) ∧
    (∀ answer, event = .statusAnswered answer → (∃ earlier ∈ before, earlier.disconnects) →
      state.completion ≠ none) ∧
    (∀ message, event = .abort message ∨ aborted = some message → state.Settled) := by
  intro state
  have hstate : state = (after.foldl (receive options)
      ((run options aborted before).receive options event)).state :=
    congrArg ServerStream.state (run_append options aborted before _)
  have hkeeps : Keeps ((run options aborted before).receive options event).state state := by
    rw [hstate]
    exact keeps_events options after _
  have hwatched := watched_run options aborted before
  refine ⟨?_, ?_, ?_⟩
  · rintro (rfl | hlost)
    · apply hkeeps.start
      by_cases hstarted : (run options aborted before).state.start.isSome
      · simp only [receive, if_pos hstarted]
        exact Option.isSome_iff_ne_none.mp hstarted
      · simp only [receive, if_neg hstarted]
        exact (settled_failStart _ _).1
    · exact hkeeps.start (attended_of_disconnects options hlost hwatched).1
  · rintro answer rfl ⟨earlier, hearlier, hlost⟩
    apply hkeeps.completion
    apply completion_statusAnswered
    obtain ⟨front, back, rfl⟩ := List.append_of_mem hearlier
    rw [run_append]
    apply (keeps_events options back _).attended
    exact (attended_of_disconnects options hlost (watched_run options aborted front)).2
  · rintro message (rfl | rfl)
    · apply hkeeps.settled
      by_cases hlistening : (run options aborted before).state.listening
      · simp only [receive, if_pos hlistening]
        exact settled_handleAbort _ _
      · simp only [receive, if_neg hlistening]
        exact hwatched.heard (by simpa using hlistening)
    · apply (keeps_events options (before ++ event :: after) _).settled
      exact settled_handleAbort message _

/-! ## Chunks -/

/-- A text whose lines are within the limit of a frame. -/
def FitsFrames : List Char → Prop :=
  AllRecords '\n' fun line => (utf8Bytes line).length ≤ maxStreamFrameBytes

private theorem fits_start (start rest : List Char)
    (h : (utf8Bytes (start ++ rest)).length ≤ maxStreamFrameBytes) :
    (utf8Bytes start).length ≤ maxStreamFrameBytes := by
  rw [utf8Bytes_append, List.length_append] at h
  omega

private theorem utf8Bytes_withoutReturn (line : List Char) :
    (utf8Bytes (withoutReturn line)).length ≤ (utf8Bytes line).length := by
  unfold withoutReturn
  split
  · next hlast =>
    have hline := List.dropLast_append_getLast? '\r' hlast
    calc (utf8Bytes line.dropLast).length
        ≤ (utf8Bytes (line.dropLast ++ ['\r'])).length := by
          rw [utf8Bytes_append, List.length_append]
          omega
      _ = (utf8Bytes line).length := by rw [hline]
  · exact Nat.le_refl _

/-- Lines within the limit are handled one behind the other. -/
private theorem processLines_append (options : StreamOptions) {lines : List (List Char)}
    (hlines : ∀ line ∈ lines, (utf8Bytes line).length ≤ maxStreamFrameBytes)
    (later : List (List Char)) (rest : List Char) (state : StreamState) :
    processLines options (lines ++ later) rest state =
      processLines options later rest (processLines options lines [] state).state := by
  induction lines generalizing state with
  | nil => rfl
  | cons line lines ih =>
    have hlater := ih fun other hother => hlines other (List.mem_cons_of_mem _ hother)
    have hline := hlines line List.mem_cons_self
    have hframe := utf8Bytes_withoutReturn line
    rw [List.cons_append]
    by_cases hempty : withoutReturn line = []
    · simp only [processLines, if_pos hempty]
      exact hlater state
    · have hfits : ¬maxStreamFrameBytes < (utf8Bytes (withoutReturn line)).length := by omega
      simp only [processLines, if_neg hempty, if_neg hfits]
      exact hlater _

private theorem processLines_fits (options : StreamOptions) {lines : List (List Char)}
    (hlines : ∀ line ∈ lines, (utf8Bytes line).length ≤ maxStreamFrameBytes) {rest : List Char}
    (hrest : (utf8Bytes rest).length ≤ maxStreamFrameBytes) (state : StreamState) :
    processLines options lines rest state = ⟨rest, (processLines options lines [] state).state⟩ := by
  have happend := processLines_append options hlines [] rest state
  rw [List.append_nil] at happend
  rw [happend]
  have hfits : ¬maxStreamFrameBytes < (utf8Bytes rest).length := by omega
  simp only [processLines, if_neg hfits]

/-- Two chunks are received as one, when their lines are within the limit. -/
theorem processChunk_append (options : StreamOptions) (stream : ServerStream) {chunk later : List Char}
    (h : FitsFrames (stream.buffer ++ (chunk ++ later))) :
    (stream.processChunk options chunk).processChunk options later =
      stream.processChunk options (chunk ++ later) := by
  rw [← List.append_assoc] at h
  obtain ⟨⟨hlines, hrest⟩, -⟩ := AllRecords.of_append fits_start h
  have hfirst : stream.processChunk options chunk = ⟨_, _⟩ :=
    processLines_fits options hlines hrest stream.state
  have hboth : stream.processChunk options (chunk ++ later) =
      processLines options (splitLines '\n' (stream.buffer ++ chunk ++ later)).1
        (splitLines '\n' (stream.buffer ++ chunk ++ later)).2 stream.state := by
    rw [List.append_assoc]
    rfl
  rw [hfirst, hboth, splitLines_append '\n' (stream.buffer ++ chunk) later,
    processLines_append options hlines]
  rfl

/-- Chunks are received as one, when their lines are within the limit. -/
private theorem foldl_processChunk (options : StreamOptions) (chunks : List (List Char))
    (stream : ServerStream) (chunk : List Char)
    (h : FitsFrames (stream.buffer ++ (chunk ++ chunks.flatten))) :
    chunks.foldl (fun stream chunk => stream.processChunk options chunk)
        (stream.processChunk options chunk) =
      stream.processChunk options (chunk ++ chunks.flatten) := by
  induction chunks generalizing chunk with
  | nil => rw [List.flatten_nil, List.append_nil, List.foldl_nil]
  | cons next chunks ih =>
    rw [List.flatten_cons, ← List.append_assoc chunk] at h
    have hfirst : FitsFrames (stream.buffer ++ (chunk ++ next)) := by
      rw [← List.append_assoc stream.buffer] at h
      exact (AllRecords.of_append fits_start h).1
    rw [List.foldl_cons, processChunk_append options stream hfirst, ih (chunk ++ next) h,
      List.flatten_cons, List.append_assoc]

/-- How a text is cut into chunks does not matter to a run, when its lines are within the limit. -/
theorem chunks_joined (options : StreamOptions) (aborted : Option String)
    (before after : List StreamEvent) (chunk : List Char) (chunks : List (List Char))
    (h : FitsFrames ((run options aborted before).buffer ++ (chunk :: chunks).flatten)) :
    run options aborted (before ++ (chunk :: chunks).map .data ++ after) =
      run options aborted (before ++ .data (chunk :: chunks).flatten :: after) := by
  rw [run_append, run_append, run_append, List.foldl_cons]
  congr 1
  rw [List.foldl_map]
  exact foldl_processChunk options chunks _ chunk h

/-- A line that arrives in two chunks. -/
theorem chunks_joined_greeting :
    run ⟨"worker", "/tmp/pi.sock", none, fun _ => ""⟩ none
        ([.connect] ++ ["\x7b\"type\":".toList, "\"agent_start\"\x7d\n".toList].map .data ++ []) =
      run ⟨"worker", "/tmp/pi.sock", none, fun _ => ""⟩ none
        ([.connect] ++ [.data "\x7b\"type\":\"agent_start\"\x7d\n".toList]) :=
  chunks_joined ⟨"worker", "/tmp/pi.sock", none, fun _ => ""⟩ none [.connect] []
    "\x7b\"type\":".toList ["\"agent_start\"\x7d\n".toList] ⟨by decide +kernel, by decide +kernel⟩

end ServerStream

end BuildConductor.Workers
