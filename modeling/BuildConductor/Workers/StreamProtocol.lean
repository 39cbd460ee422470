import BuildConductor.Base.Monitor
import BuildConductor.Workers.StreamMessages

/-!
# The protocol of a worker's stream

What a prompt execution does that others can see: it announces requests, writes responses, resolves
requests, and settles its start and its completion. The monitor states the protocol; what follows it
answers only open requests and settles once. `src/src/workers/server-backend.ts:554-925`.
-/

namespace BuildConductor.Workers

open Base Domain

/-- `src/src/workers/backend.ts:79-82`. An error is the value that was reported. -/
inductive WorkerExecutionResult
  | succeeded (output : Option String)
  | failed (error : Json)
  | aborted (error : String)

/-- What a stream does that can be seen from outside. Requests are told apart by the order they were
announced in, as the source tells them apart by identity. -/
inductive StreamEntry
  | subscribed
  | prompted
  | progressed (event : WorkerProgressEvent)
  | announced (serial : Nat) (request : WorkerUiRequest)
  | answered (serial : Nat) (command : Json)
  | resolved (serial : Nat) (request : WorkerUiRequest) (outcome : WorkerUiResolutionOutcome)
  | settled (result : WorkerExecutionResult)
  | started (outcome : Except String Unit)

/-- The serial number an entry announces. -/
def StreamEntry.announcedSerial : StreamEntry → Option Nat
  | announced serial _ => some serial
  | _ => none

/-- The serial number an entry resolves. -/
def StreamEntry.resolvedSerial : StreamEntry → Option Nat
  | resolved serial _ _ => some serial
  | _ => none

/-- What the observer knows: the open requests, how many were announced, and what is settled. -/
structure Observation where
  pending : List (Nat × WorkerUiRequest)
  announced : Nat
  completion : Option WorkerExecutionResult
  start : Option (Except String Unit)

/-- The protocol. -/
def streamProtocol : Monitor Observation StreamEntry where
  start := ⟨[], 0, none, none⟩
  allows seen
    | .subscribed | .prompted | .progressed _ => True
    | .announced serial request =>
      serial = seen.announced ∧ ∀ entry ∈ seen.pending, entry.2.id ≠ request.id
    | .answered serial _ => serial ∈ seen.pending.map Prod.fst ∧ seen.completion = none
    | .resolved serial request _ => (serial, request) ∈ seen.pending
    | .settled _ => seen.completion = none ∧ seen.pending = []
    | .started outcome =>
      seen.start = none ∧ (seen.completion = none → outcome = .ok ())
  next seen
    | .subscribed | .prompted | .progressed _ | .answered _ _ => seen
    | .announced serial request =>
      { seen with pending := seen.pending ++ [(serial, request)], announced := seen.announced + 1 }
    | .resolved serial _ _ =>
      { seen with pending := seen.pending.filter fun entry => entry.1 ≠ serial }
    | .settled result => { seen with completion := some result }
    | .started outcome => { seen with start := some outcome }

/-! ## What the protocol means -/

/-- A trace a caller can rely on. -/
structure Disciplined (trace : List StreamEntry) : Prop where
  /-- Requests are numbered as they are announced. -/
  announced : ∃ count, trace.filterMap StreamEntry.announcedSerial = List.range count
  /-- No request is resolved twice. -/
  resolvedOnce : (trace.filterMap StreamEntry.resolvedSerial).Nodup
  /-- A request is resolved behind its announcement. -/
  resolved : ∀ before serial request outcome after,
    trace = before ++ .resolved serial request outcome :: after → .announced serial request ∈ before
  /-- A response is written only to a request that is open, while the execution is. -/
  answered : ∀ before serial command after, trace = before ++ .answered serial command :: after →
    serial ∈ before.filterMap StreamEntry.announcedSerial ∧
      serial ∉ before.filterMap StreamEntry.resolvedSerial ∧ ∀ result, .settled result ∉ before
  /-- An execution settles once, and resolves every request before it does. -/
  settled : ∀ before result after, trace = before ++ .settled result :: after →
    (∀ other, .settled other ∉ before) ∧
      ∀ serial ∈ before.filterMap StreamEntry.announcedSerial,
        serial ∈ before.filterMap StreamEntry.resolvedSerial
  /-- A start settles once, and is refused only behind a settled execution. -/
  started : ∀ before outcome after, trace = before ++ .started outcome :: after →
    (∀ other, .started other ∉ before) ∧
      (outcome ≠ .ok () → ∃ result, .settled result ∈ before)

/-- What is observed of a trace, read off the trace. -/
structure Observes (trace : List StreamEntry) (seen : Observation) : Prop where
  announced : trace.filterMap StreamEntry.announcedSerial = List.range seen.announced
  accounted : (trace.filterMap StreamEntry.resolvedSerial ++ seen.pending.map Prod.fst).Perm
    (List.range seen.announced)
  pending : ∀ entry ∈ seen.pending, .announced entry.1 entry.2 ∈ trace
  completion : ∀ result, .settled result ∈ trace ↔ seen.completion = some result
  start : ∀ outcome, .started outcome ∈ trace ↔ seen.start = some outcome

section Protocol

variable {trace : List StreamEntry}

/-- A key of a list is taken out by filtering. -/
private theorem map_fst_filter_perm {entries : List (Nat × WorkerUiRequest)} {serial : Nat}
    {request : WorkerUiRequest} (hnodup : (entries.map Prod.fst).Nodup)
    (hmem : (serial, request) ∈ entries) :
    (entries.map Prod.fst).Perm
      (serial :: (entries.filter fun entry => entry.1 ≠ serial).map Prod.fst) := by
  have hfilter : (entries.filter fun entry => entry.1 ≠ serial).map Prod.fst =
      (entries.map Prod.fst).erase serial := by
    rw [hnodup.erase_eq_filter, List.filter_map]
    congr 1
    apply List.filter_congr
    intro entry _
    by_cases hserial : entry.1 = serial <;> simp [hserial]
  rw [hfilter]
  exact List.perm_cons_erase (List.mem_map_of_mem hmem)

private theorem filterMap_concat_none {f : StreamEntry → Option Nat} {entry : StreamEntry}
    (h : f entry = none) : (trace ++ [entry]).filterMap f = trace.filterMap f := by
  rw [List.filterMap_append, List.filterMap_cons_none h, List.filterMap_nil, List.append_nil]

/-- What follows the protocol is observed as it is. -/
theorem observes_of_follows (h : streamProtocol.Follows trace) :
    Observes trace (streamProtocol.observe trace) := by
  apply h.induction
  · exact ⟨rfl, .nil, nofun, fun _ => ⟨nofun, nofun⟩, fun _ => ⟨nofun, nofun⟩⟩
  · intro trace entry _ hseen hallowed
    rw [Monitor.observe_concat]
    generalize streamProtocol.observe trace = seen at hseen hallowed ⊢
    have hnodup : (trace.filterMap StreamEntry.resolvedSerial ++ seen.pending.map Prod.fst).Nodup :=
      hseen.accounted.nodup_iff.mpr List.nodup_range
    cases entry with
    | announced serial request =>
      obtain ⟨rfl, -⟩ := hallowed
      refine ⟨?_, ?_, ?_, ?_, ?_⟩
      · rw [List.filterMap_append, hseen.announced]
        exact List.range_succ.symm
      · rw [filterMap_concat_none rfl]
        show (_ ++ ((seen.pending ++ [_]).map Prod.fst)).Perm (List.range (seen.announced + 1))
        rw [List.map_append, ← List.append_assoc, List.range_succ]
        exact hseen.accounted.append_right _
      · intro entry hentry
        change entry ∈ seen.pending ++ [_] at hentry
        rw [List.mem_append] at hentry ⊢
        rcases hentry with hbefore | hlast
        · exact Or.inl (hseen.pending entry hbefore)
        · rw [List.mem_singleton.mp hlast]
          exact Or.inr (List.mem_singleton_self _)
      · intro result
        simp [hseen.completion, streamProtocol]
      · intro outcome
        simp [hseen.start, streamProtocol]
    | resolved serial request outcome =>
      refine ⟨?_, ?_, ?_, ?_, ?_⟩
      · exact (filterMap_concat_none rfl).trans hseen.announced
      · rw [List.filterMap_append]
        show (trace.filterMap StreamEntry.resolvedSerial ++ [serial] ++ _).Perm _
        rw [List.append_assoc]
        refine List.Perm.trans ?_ hseen.accounted
        apply List.Perm.append_left
        exact (map_fst_filter_perm (List.nodup_append.mp hnodup).2.1 hallowed).symm
      · intro entry hentry
        rw [List.mem_append]
        exact Or.inl (hseen.pending entry (List.mem_of_mem_filter hentry))
      · intro result
        simp [hseen.completion, streamProtocol]
      · intro outcome
        simp [hseen.start, streamProtocol]
    | settled result =>
      refine ⟨?_, ?_, ?_, ?_, ?_⟩
      · exact (filterMap_concat_none rfl).trans hseen.announced
      · rw [filterMap_concat_none rfl]
        exact hseen.accounted
      · exact fun entry hentry => List.mem_append_left _ (hseen.pending entry hentry)
      · intro other
        simp [hseen.completion, streamProtocol, hallowed.1, eq_comm]
      · intro outcome
        simp [hseen.start, streamProtocol]
    | started outcome =>
      refine ⟨?_, ?_, ?_, ?_, ?_⟩
      · exact (filterMap_concat_none rfl).trans hseen.announced
      · rw [filterMap_concat_none rfl]
        exact hseen.accounted
      · exact fun entry hentry => List.mem_append_left _ (hseen.pending entry hentry)
      · intro result
        simp [hseen.completion, streamProtocol]
      · intro other
        simp [hseen.start, streamProtocol, hallowed.1, eq_comm]
    | _ =>
      refine ⟨?_, ?_, ?_, ?_, ?_⟩
      · exact (filterMap_concat_none rfl).trans hseen.announced
      · rw [filterMap_concat_none rfl]
        exact hseen.accounted
      · exact fun entry hentry => List.mem_append_left _ (hseen.pending entry hentry)
      · intro result
        simp [hseen.completion, streamProtocol]
      · intro outcome
        simp [hseen.start, streamProtocol]

/-- What follows the protocol is disciplined. -/
theorem disciplined_of_follows (h : streamProtocol.Follows trace) : Disciplined trace := by
  have hwhole := observes_of_follows h
  have hbefore : ∀ {before entry after}, trace = before ++ entry :: after →
      Observes before (streamProtocol.observe before) := by
    intro before entry after heq
    rw [heq] at h
    exact observes_of_follows h.of_append
  have hnodup : ∀ {before seen}, Observes before seen →
      (before.filterMap StreamEntry.resolvedSerial ++ seen.pending.map Prod.fst).Nodup :=
    fun hseen => hseen.accounted.nodup_iff.mpr List.nodup_range
  refine ⟨⟨_, hwhole.announced⟩, (List.nodup_append.mp (hnodup hwhole)).1, ?_, ?_, ?_, ?_⟩
  · intro before serial request outcome after heq
    exact (hbefore heq).pending _ (h _ _ _ heq)
  · intro before serial command after heq
    have hseen := hbefore heq
    obtain ⟨hopen, hrunning⟩ := h _ _ _ heq
    refine ⟨?_, ?_, ?_⟩
    · rw [hseen.announced, ← hseen.accounted.mem_iff]
      exact List.mem_append_right _ hopen
    · intro hresolved
      exact (List.nodup_append.mp (hnodup hseen)).2.2 serial hresolved serial hopen rfl
    · intro result hsettled
      rw [hseen.completion, hrunning] at hsettled
      cases hsettled
  · intro before result after heq
    have hseen := hbefore heq
    obtain ⟨hrunning, hclosed⟩ := h _ _ _ heq
    constructor
    · intro other hsettled
      rw [hseen.completion, hrunning] at hsettled
      cases hsettled
    · intro serial hserial
      rw [hseen.announced, ← hseen.accounted.mem_iff, hclosed, List.map_nil, List.append_nil] at hserial
      exact hserial
  · intro before outcome after heq
    have hseen := hbefore heq
    obtain ⟨hpending, hrefused⟩ := h _ _ _ heq
    constructor
    · intro other hstarted
      rw [hseen.start, hpending] at hstarted
      cases hstarted
    · intro hfailed
      cases hcompletion : (streamProtocol.observe before).completion with
      | none => exact absurd (hrefused hcompletion) hfailed
      | some result => exact ⟨result, (hseen.completion result).mpr hcompletion⟩

end Protocol

end BuildConductor.Workers
