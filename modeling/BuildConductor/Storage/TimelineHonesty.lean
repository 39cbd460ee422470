import BuildConductor.Storage.EventDocuments

/-!
# Which stored timelines are honest

What the check of a stored timeline establishes, and what it leaves open: kinds found in the
prototype of a plain object, values that only read as the text of an allowed one, gaps that the
count of dropped events hides, and a count of dropped events without a full window. An accepted
timeline without these is one that appends produce.
`src/src/storage/workflow-state-store.ts:138-263`, `src/src/engine/events.ts:87-108`.
-/

namespace BuildConductor.Storage

open Base Domain Engine

/-! ## Increasing sequences -/

/-- The last of an increasing list is at least as far from its first as the list is long. -/
private theorem first_add_length_le {first : Nat} {rest : List Nat}
    (h : (first :: rest).Pairwise (· < ·)) : first + rest.length ≤ rest.getLastD first := by
  induction rest generalizing first with
  | nil => exact Nat.le_refl first
  | cons next rest ih =>
    rw [List.pairwise_cons] at h
    have hnext := ih h.2
    have hlt := h.1 next List.mem_cons_self
    rw [List.getLastD_cons, List.length_cons]
    omega

/-- An increasing list that ends no later than it must has no gaps. -/
private theorem eq_range'_of_last {first : Nat} {rest : List Nat}
    (h : (first :: rest).Pairwise (· < ·)) (hlast : rest.getLastD first = first + rest.length) :
    first :: rest = List.range' first (rest.length + 1) := by
  induction rest generalizing first with
  | nil => rfl
  | cons next rest ih =>
    rw [List.pairwise_cons] at h
    have hbound := first_add_length_le h.2
    have hlt := h.1 next List.mem_cons_self
    rw [List.getLastD_cons, List.length_cons] at hlast
    have hnext : next = first + 1 := by omega
    subst hnext
    have hrest := ih h.2 (by omega)
    rw [List.length_cons, List.range'_succ, ← hrest]

/-! ## Accepted events -/

private theorem isString_iff {value : Option Json} :
    isString value = true ↔ ∃ s, value = some (.str s) := by
  unfold isString
  split
  · next s => exact ⟨fun _ => ⟨s, rfl⟩, fun _ => rfl⟩
  · next hother => exact ⟨nofun, fun ⟨s, hs⟩ => absurd hs (hother s)⟩

private theorem isNonEmptyString_iff {value : Option Json} :
    isNonEmptyString value = true ↔ ∃ s, s ≠ "" ∧ value = some (.str s) := by
  unfold isNonEmptyString
  split
  · next s =>
    rw [decide_eq_true_eq]
    constructor
    · exact fun hs => ⟨s, hs, rfl⟩
    · rintro ⟨t, ht, heq⟩
      cases heq
      exact ht
  · next hother => exact ⟨nofun, fun ⟨s, _, hs⟩ => absurd hs (hother s)⟩

private theorem optionalString_iff {value : Option Json} :
    (value.isNone ∨ isString value) ↔ ∃ s : Option String, value = s.map Json.str := by
  rw [isString_iff, Option.isNone_iff_eq_none]
  constructor
  · rintro (rfl | ⟨s, rfl⟩)
    · exact ⟨none, rfl⟩
    · exact ⟨some s, rfl⟩
  · rintro ⟨s, rfl⟩
    cases s with
    | none => exact Or.inl rfl
    | some s => exact Or.inr ⟨s, rfl⟩

private theorem isStringArray_iff {value : Option Json} :
    isStringArray value = true ↔ ∃ xs, value = some (Json.strings xs) := by
  unfold isStringArray
  split
  · next items =>
    rw [List.all_eq_true]
    constructor
    · intro hall
      induction items with
      | nil => exact ⟨[], rfl⟩
      | cons item rest ih =>
        obtain ⟨xs, hxs⟩ := ih fun other hother => hall other (List.mem_cons_of_mem _ hother)
        obtain ⟨s, hs⟩ := isString_iff.mp (hall item List.mem_cons_self)
        cases hxs
        cases hs
        exact ⟨s :: xs, rfl⟩
    · rintro ⟨xs, hxs⟩ item hitem
      cases hxs
      obtain ⟨s, -, rfl⟩ := List.mem_map.mp hitem
      rfl
  · next hother => exact ⟨nofun, fun ⟨xs, hxs⟩ => absurd hxs (hother _)⟩

private theorem safeInteger?_eq_some_iff {value : Option Json} {n : Int} :
    safeInteger? value = some n ↔ value = some (.number n) ∧ n.natAbs ≤ maxSafeInteger := by
  rcases value with _ | (_ | _ | m | _ | _ | _ | _)
  case some.number =>
    unfold safeInteger?
    dsimp only
    by_cases hsafe : m.natAbs ≤ maxSafeInteger
    · rw [if_pos hsafe, Option.some.injEq, Option.some.injEq, Json.number.injEq]
      exact ⟨fun heq => ⟨heq, heq ▸ hsafe⟩, fun heq => heq.1⟩
    · rw [if_neg hsafe, Option.some.injEq, Json.number.injEq]
      exact ⟨nofun, fun heq => absurd (heq.1 ▸ heq.2) hsafe⟩
  all_goals simp [safeInteger?]

private theorem readPositiveInteger_ok_iff {value : Option Json} {path : String} {n : Nat} :
    readPositiveInteger value path = .ok n ↔
      value = some (.number n) ∧ 1 ≤ n ∧ n ≤ maxSafeInteger := by
  unfold readPositiveInteger
  cases hread : safeInteger? value with
  | none =>
    refine ⟨nofun, fun ⟨hvalue, _, hsafe⟩ => ?_⟩
    rw [safeInteger?_eq_some_iff.mpr ⟨hvalue, by omega⟩] at hread
    cases hread
  | some m =>
    obtain ⟨hvalue, hsafe⟩ := safeInteger?_eq_some_iff.mp hread
    rw [hvalue, Option.some.injEq, Json.number.injEq]
    dsimp only
    by_cases hpositive : 1 ≤ m
    · rw [if_pos hpositive, Except.ok.injEq]
      omega
    · rw [if_neg hpositive]
      refine ⟨nofun, fun ⟨heq, _⟩ => ?_⟩
      omega

private theorem readCountingInteger_ok_iff {value : Option Json} {path : String} {n : Nat} :
    readCountingInteger value path = .ok n ↔ value = some (.number n) ∧ n ≤ maxSafeInteger := by
  unfold readCountingInteger
  cases hread : safeInteger? value with
  | none =>
    refine ⟨nofun, fun ⟨hvalue, hsafe⟩ => ?_⟩
    rw [safeInteger?_eq_some_iff.mpr ⟨hvalue, by omega⟩] at hread
    cases hread
  | some m =>
    obtain ⟨hvalue, hsafe⟩ := safeInteger?_eq_some_iff.mp hread
    rw [hvalue, Option.some.injEq, Json.number.injEq]
    dsimp only
    by_cases hcounting : 0 ≤ m
    · rw [if_pos hcounting, Except.ok.injEq]
      omega
    · rw [if_neg hcounting]
      refine ⟨nofun, fun ⟨heq, _⟩ => ?_⟩
      omega

/-- What the check of one event establishes of its fields. -/
structure AcceptedFields (fields : List (String × Json)) (shape : EventShape) (sequence : Nat) :
    Prop where
  number : Json.field fields "sequence" = some (.number sequence)
  positive : 1 ≤ sequence
  timestamp : ∃ s, s ≠ "" ∧ Json.field fields "at" = some (.str s)
  text : ∀ name ∈ shape.text, ∃ s, Json.field fields name = some (.str s)
  optionalText : ∀ name ∈ shape.optionalText, ∃ s : Option String,
    Json.field fields name = s.map Json.str
  integers : ∀ name ∈ shape.integers, ∃ n : Nat, Json.field fields name = some (.number n)
  enums : ∀ entry ∈ shape.enums, textOfProperty (Json.field fields entry.1) ∈ entry.2
  textArrays : ∀ name ∈ shape.textArrays, ∃ xs, Json.field fields name = some (Json.strings xs)
  known : ∀ key ∈ fields.map Prod.fst, key ∈ shape.known

theorem validateEventDocument_ok {value : Json} {path : String} {sequence : Nat}
    (h : validateEventDocument value path = .ok sequence) : ∃ fields shape, value = .obj fields ∧
      shapeOf (textOfProperty (Json.field fields "kind")) = some shape ∧
      AcceptedFields fields shape sequence := by
  unfold validateEventDocument at h
  split at h
  · next fields =>
    simp only [bind_ok_iff, exists_unit_iff, require_ok_iff, ensure_ok_iff, forM_ok_iff,
      readPositiveInteger_ok_iff, readCountingInteger_ok_iff, isNonEmptyString_iff, isString_iff,
      isStringArray_iff] at h
    obtain ⟨shape, hshape, number, ⟨hnumber, hpositive, -⟩, htimestamp, htext, hoptional, hintegers,
      henums, harrays, hknown, hpure⟩ := h
    cases hpure
    refine ⟨fields, shape, rfl, hshape, hnumber, hpositive, htimestamp, htext, ?_, ?_, henums, harrays, ?_⟩
    · intro name hname
      rw [← optionalString_iff, isString_iff]
      exact hoptional name hname
    · intro name hname
      obtain ⟨n, ⟨hn, -⟩, -⟩ := hintegers name hname
      exact ⟨n, hn⟩
    · intro key hkey
      by_contra hunknown
      have hmem : key ∈ (fields.map Prod.fst).filter (· ∉ shape.known) :=
        List.mem_filter.mpr ⟨hkey, by simpa using hunknown⟩
      rw [hknown] at hmem
      cases hmem
  · cases h

/-! ## Events of declared kinds -/

/-- Properties that are listed once, agree with the fields of an object and are all it has. -/
private theorem field_eq_definedFields {fields : List (String × Json)}
    {properties : List (String × Option Json)} (hnodup : (properties.map Prod.fst).Nodup)
    (hvalues : ∀ entry ∈ properties, Json.field fields entry.1 = entry.2)
    (hknown : ∀ key ∈ fields.map Prod.fst, key ∈ properties.map Prod.fst) (name : String) :
    Json.field fields name = Json.field (Json.definedFields properties) name := by
  rw [Json.field_definedFields hnodup]
  by_cases hname : name ∈ properties.map Prod.fst
  · obtain ⟨entry, hentry, rfl⟩ := List.mem_map.mp hname
    have hlookup : properties.lookup entry.1 = some entry.2 := by
      clear hvalues hknown hname
      induction properties with
      | nil => cases hentry
      | cons first rest ih =>
        rw [List.map_cons, List.nodup_cons] at hnodup
        rcases List.mem_cons.mp hentry with rfl | hrest
        · exact List.lookup_cons_self
        · have hne : entry.1 ≠ first.1 := fun heq =>
            hnodup.1 (heq ▸ List.mem_map_of_mem hrest)
          rw [List.lookup_cons, beq_eq_false_iff_ne.mpr hne]
          exact ih hnodup.2 hrest
    rw [hvalues entry hentry, hlookup]
    rfl
  · have habsent : name ∉ fields.map Prod.fst := fun hmem => hname (hknown name hmem)
    have hfields : Json.field fields name = none := by
      unfold Json.field
      rw [List.lookup_eq_none_iff]
      intro entry hentry
      rw [bne_iff_ne]
      exact fun heq => habsent (heq ▸ List.mem_map_of_mem hentry)
    have hlookup : properties.lookup name = none := by
      rw [List.lookup_eq_none_iff]
      intro entry hentry
      rw [bne_iff_ne]
      exact fun heq => hname (heq ▸ List.mem_map_of_mem hentry)
    rw [hfields, hlookup]
    rfl

/-- A string field that reads as one of some names is one of them. -/
private theorem exists_named {α : Type} {fields : List (String × Json)} {field : String}
    {all : List α} {name : α → String} (hstring : isString (Json.field fields field) = true)
    (hallowed : textOfProperty (Json.field fields field) ∈ all.map name) :
    ∃ a ∈ all, Json.field fields field = some (.str (name a)) := by
  obtain ⟨s, hs⟩ := isString_iff.mp hstring
  rw [hs] at hallowed ⊢
  obtain ⟨a, ha, heq⟩ := List.mem_map.mp hallowed
  refine ⟨a, ha, ?_⟩
  rw [heq]
  rfl

/-- The fields of a declared kind spell an event. -/
private theorem exists_body {fields : List (String × Json)} {kind : String} {shape : EventShape}
    {sequence : Nat} (hshape : eventShapes.lookup kind = some shape)
    (hkind : Json.field fields "kind" = some (.str kind))
    (henums : ∀ entry ∈ shape.enums, isString (Json.field fields entry.1) = true)
    (h : AcceptedFields fields shape sequence) : ∃ event, event.sequence = sequence ∧
      event.timestamp ≠ "" ∧ Spells (.obj fields) event := by
  obtain ⟨timestamp, hne, htimestamp⟩ := h.timestamp
  -- One event for each kind: its properties are listed once, agree, and are all that is known.
  have hspells : ∀ body, (((eventProperties ⟨sequence, timestamp, body⟩)).map Prod.fst).Nodup →
      (∀ entry ∈ (eventProperties ⟨sequence, timestamp, body⟩).drop 3,
        Json.field fields entry.1 = entry.2) →
      (eventProperties ⟨sequence, timestamp, body⟩)[2]? = some ("kind", some (.str kind)) →
      (∀ key ∈ shape.known, key ∈ (eventProperties ⟨sequence, timestamp, body⟩).map Prod.fst) →
      ∃ event, event.sequence = sequence ∧ event.timestamp ≠ "" ∧ Spells (.obj fields) event := by
    intro body hnodup hvalues hthird hknown
    refine ⟨⟨sequence, timestamp, body⟩, rfl, hne, fields, rfl,
      field_eq_definedFields hnodup ?_ fun key hkey => hknown key (h.known key hkey)⟩
    intro entry hentry
    rw [← List.take_append_drop 3 (eventProperties _), List.mem_append] at hentry
    rcases hentry with hfirst | hrest
    · have htake : (eventProperties ⟨sequence, timestamp, body⟩).take 3 =
          [("sequence", some (.number sequence)), ("at", some (.str timestamp)),
            ("kind", some (.str kind))] := by
        rw [List.take_add_one, hthird]
        rfl
      rw [htake] at hfirst
      simp only [List.mem_cons, List.not_mem_nil, or_false] at hfirst
      rcases hfirst with rfl | rfl | rfl
      · exact h.number
      · exact htimestamp
      · exact hkind
    · exact hvalues entry hrest
  have hmem : (kind, shape) ∈ eventShapes := by
    clear hspells h henums hkind
    revert hshape
    generalize eventShapes = shapes
    induction shapes with
    | nil => nofun
    | cons first rest ih =>
      intro hshape
      rw [List.lookup_cons] at hshape
      by_cases heq : kind = first.1
      · rw [beq_iff_eq.mpr heq] at hshape
        cases hshape
        rw [heq]
        exact List.mem_cons_self
      · rw [beq_eq_false_iff_ne.mpr heq] at hshape
        exact List.mem_cons_of_mem _ (ih hshape)
  have htext := h.text
  have hoptional := h.optionalText
  have hintegers := h.integers
  have harrays := h.textArrays
  have hallowed := h.enums
  unfold eventShapes at hmem
  simp only [List.mem_cons, List.not_mem_nil, or_false, Prod.mk.injEq] at hmem
  rcases hmem with ⟨rfl, rfl⟩ | ⟨rfl, rfl⟩ | ⟨rfl, rfl⟩ | ⟨rfl, rfl⟩ | ⟨rfl, rfl⟩ | ⟨rfl, rfl⟩ |
    ⟨rfl, rfl⟩ | ⟨rfl, rfl⟩ | ⟨rfl, rfl⟩ | ⟨rfl, rfl⟩ | ⟨rfl, rfl⟩
  · obtain ⟨stepId, hstepId⟩ := htext "stepId" (by simp)
    obtain ⟨attemptId, hattemptId⟩ := htext "attemptId" (by simp)
    obtain ⟨attemptNumber, hattemptNumber⟩ := hintegers "attemptNumber" (by simp)
    have hentry := List.mem_singleton_self ("workspaceRequirement", workspaceRequirements.map (·.name))
    obtain ⟨workspaceRequirement, -, hworkspaceRequirement⟩ := exists_named (henums _ hentry) (hallowed _ hentry)
    apply hspells (.stepLaunched stepId attemptId attemptNumber workspaceRequirement)
    · simp [eventProperties]
    · simp [eventProperties, hstepId, hattemptId, hattemptNumber, hworkspaceRequirement]
    · rfl
    · simp [EventShape.known, eventProperties]
  · obtain ⟨stepId, hstepId⟩ := htext "stepId" (by simp)
    obtain ⟨attemptId, hattemptId⟩ := htext "attemptId" (by simp)
    obtain ⟨summary, hsummary⟩ := hoptional "summary" (by simp)
    apply hspells (.stepSucceeded stepId attemptId summary)
    · simp [eventProperties]
    · simp [eventProperties, hstepId, hattemptId, hsummary]
    · rfl
    · simp [EventShape.known, eventProperties]
  · obtain ⟨stepId, hstepId⟩ := htext "stepId" (by simp)
    obtain ⟨attemptId, hattemptId⟩ := htext "attemptId" (by simp)
    obtain ⟨error, herror⟩ := htext "error" (by simp)
    have hentry := List.mem_singleton_self ("failureClass", failureClasses.map failureClassName)
    obtain ⟨failureClass, -, hfailureClass⟩ := exists_named (henums _ hentry) (hallowed _ hentry)
    obtain ⟨reason, hreason⟩ := htext "reason" (by simp)
    apply hspells (.stepFailed stepId attemptId error failureClass reason)
    · simp [eventProperties]
    · simp [eventProperties, hstepId, hattemptId, herror, hfailureClass, hreason]
    · rfl
    · simp [EventShape.known, eventProperties]
  · obtain ⟨stepId, hstepId⟩ := htext "stepId" (by simp)
    obtain ⟨attemptId, hattemptId⟩ := htext "attemptId" (by simp)
    obtain ⟨nextAttemptNumber, hnextAttemptNumber⟩ := hintegers "nextAttemptNumber" (by simp)
    obtain ⟨reason, hreason⟩ := htext "reason" (by simp)
    apply hspells (.stepRetryScheduled stepId attemptId nextAttemptNumber reason)
    · simp [eventProperties]
    · simp [eventProperties, hstepId, hattemptId, hnextAttemptNumber, hreason]
    · rfl
    · simp [EventShape.known, eventProperties]
  · obtain ⟨stepId, hstepId⟩ := htext "stepId" (by simp)
    obtain ⟨attemptId, hattemptId⟩ := hoptional "attemptId" (by simp)
    obtain ⟨error, herror⟩ := hoptional "error" (by simp)
    apply hspells (.stepCancelled stepId attemptId error)
    · simp [eventProperties]
    · simp [eventProperties, hstepId, hattemptId, herror]
    · rfl
    · simp [EventShape.known, eventProperties]
  · obtain ⟨stepId, hstepId⟩ := htext "stepId" (by simp)
    obtain ⟨blockedBy, hblockedBy⟩ := harrays "blockedBy" (by simp)
    apply hspells (.stepBlocked stepId blockedBy)
    · simp [eventProperties]
    · simp [eventProperties, hstepId, hblockedBy]
    · rfl
    · simp [EventShape.known, eventProperties]
  · obtain ⟨stepId, hstepId⟩ := htext "stepId" (by simp)
    obtain ⟨proposedBy, hproposedBy⟩ := htext "proposedBy" (by simp)
    obtain ⟨reason, hreason⟩ := htext "reason" (by simp)
    apply hspells (.stepAdmitted stepId proposedBy reason)
    · simp [eventProperties]
    · simp [eventProperties, hstepId, hproposedBy, hreason]
    · rfl
    · simp [EventShape.known, eventProperties]
  · obtain ⟨stepId, hstepId⟩ := htext "stepId" (by simp)
    obtain ⟨attemptId, hattemptId⟩ := htext "attemptId" (by simp)
    obtain ⟨artifactId, hartifactId⟩ := htext "artifactId" (by simp)
    obtain ⟨output, houtput⟩ := htext "output" (by simp)
    have hentry := List.mem_singleton_self ("artifactKind", ArtifactKind.all.map (·.name))
    obtain ⟨artifactKind, -, hartifactKind⟩ := exists_named (henums _ hentry) (hallowed _ hentry)
    obtain ⟨sizeBytes, hsizeBytes⟩ := hintegers "sizeBytes" (by simp)
    apply hspells (.artifactPublished stepId attemptId artifactId output artifactKind sizeBytes)
    · simp [eventProperties]
    · simp [eventProperties, hstepId, hattemptId, hartifactId, houtput, hartifactKind, hsizeBytes]
    · rfl
    · simp [EventShape.known, eventProperties]
  · obtain ⟨stepId, hstepId⟩ := htext "stepId" (by simp)
    obtain ⟨commit, hcommit⟩ := hoptional "commit" (by simp)
    obtain ⟨integrationHead, hintegrationHead⟩ := htext "integrationHead" (by simp)
    apply hspells (.stepIntegrated stepId commit integrationHead)
    · simp [eventProperties]
    · simp [eventProperties, hstepId, hcommit, hintegrationHead]
    · rfl
    · simp [EventShape.known, eventProperties]
  · obtain ⟨reason, hreason⟩ := htext "reason" (by simp)
    apply hspells (.runCancellationRequested reason)
    · simp [eventProperties]
    · simp [eventProperties, hreason]
    · rfl
    · simp [EventShape.known, eventProperties]
  · have hentry := List.mem_singleton_self ("state", lifecycleStates.map (·.name))
    obtain ⟨state, -, hstate⟩ := exists_named (henums _ hentry) (hallowed _ hentry)
    obtain ⟨error, herror⟩ := hoptional "error" (by simp)
    apply hspells (.runSettled state error)
    · simp [eventProperties]
    · simp [eventProperties, hstate, herror]
    · rfl
    · simp [EventShape.known, eventProperties]

/-- A document of an event has the kind of the event. -/
private theorem namesItsKind_of_spells {value : Json} {event : WorkflowEvent}
    (h : Spells value event) : NamesItsKind value := by
  obtain ⟨fields, rfl, hfields⟩ := h
  obtain ⟨sequence, timestamp, body⟩ := event
  cases body <;>
    exact ⟨fields, _, _, rfl, by rw [hfields]; rfl, rfl, by simp [hfields]; try rfl⟩

/-- A document of an event has its sequence. -/
private theorem sequence_of_spells {value : Json} {event : WorkflowEvent} (h : Spells value event) :
    ∃ fields, value = .obj fields ∧
      Json.field fields "sequence" = some (.number event.sequence) := by
  obtain ⟨fields, rfl, hfields⟩ := h
  refine ⟨fields, rfl, ?_⟩
  rw [hfields]
  rfl

/-- An accepted document whose kind is named spells an event. -/
private theorem exists_event {value : Json} {path : String} {sequence : Nat}
    (h : validateEventDocument value path = .ok sequence) (hkind : NamesItsKind value) :
    ∃ event, event.sequence = sequence ∧ event.timestamp ≠ "" ∧ Spells value event := by
  obtain ⟨fields, shape, rfl, hshape, haccepted⟩ := validateEventDocument_ok h
  obtain ⟨fields', kind, declared, hfields, hname, hlookup, henums⟩ := hkind
  cases hfields
  rw [hname] at hshape
  change shapeOf kind = some shape at hshape
  unfold shapeOf at hshape
  rw [hlookup] at hshape
  cases hshape
  exact exists_body hlookup hname henums haccepted

/-! ## Timelines -/

/-- What the loop over the events establishes. -/
private theorem validateEventDocuments_ok {index previous last : Nat} {events : List Json}
    (h : validateEventDocuments index previous events = .ok last) : ∃ sequences,
      List.Forall₂ (fun value sequence => ∃ path, validateEventDocument value path = .ok sequence)
        events sequences ∧
      (previous :: sequences).Pairwise (· < ·) ∧ last = sequences.getLastD previous := by
  induction events generalizing index previous with
  | nil =>
    cases h
    exact ⟨[], .nil, List.pairwise_singleton _ _, rfl⟩
  | cons event rest ih =>
    simp only [validateEventDocuments, bind_ok_iff, exists_unit_iff, ensure_ok_iff] at h
    obtain ⟨sequence, hevent, hlt, hrest⟩ := h
    obtain ⟨sequences, hsequences, hincreasing, hlast⟩ := ih hrest
    refine ⟨sequence :: sequences, .cons ⟨_, hevent⟩ hsequences, ?_, by rw [List.getLastD_cons, hlast]⟩
    rw [List.pairwise_cons]
    refine ⟨?_, hincreasing⟩
    intro later hlater
    rcases List.mem_cons.mp hlater with rfl | hlater
    · exact hlt
    · exact Nat.lt_trans hlt ((List.pairwise_cons.mp hincreasing).1 later hlater)

/-- What the check of a timeline establishes. -/
structure AcceptedTimeline (run : List (String × Json)) (events : List Json)
    (sequences : List Nat) (eventSequence droppedEvents : Nat) : Prop where
  retained : Json.field run "events" = some (.arr events)
  highest : Json.field run "eventSequence" = some (.number eventSequence)
  dropped : Json.field run "droppedEvents" = some (.number droppedEvents)
  window : events.length ≤ maxWorkflowEvents
  checked : List.Forall₂ (fun value sequence => ∃ path,
    validateEventDocument value path = .ok sequence) events sequences
  increasing : (0 :: sequences).Pairwise (· < ·)
  count : eventSequence = events.length + droppedEvents
  last : events.length = 0 ∨ sequences.getLastD 0 = eventSequence

theorem validateStoredEventsDocument_ok {run : List (String × Json)}
    (h : validateStoredEventsDocument run = .ok ()) :
    ∃ events sequences eventSequence droppedEvents,
      AcceptedTimeline run events sequences eventSequence droppedEvents := by
  unfold validateStoredEventsDocument at h
  generalize hfield : Json.field run "events" = value at h
  split at h
  · next events =>
    simp only [bind_ok_iff, exists_unit_iff, ensure_ok_iff, readCountingInteger_ok_iff] at h
    obtain ⟨hwindow, eventSequence, ⟨hsequence, -⟩, droppedEvents, ⟨hdropped, -⟩, last, hloop, hcount,
      hlast⟩ := h
    obtain ⟨sequences, hchecked, hincreasing, rfl⟩ := validateEventDocuments_ok hloop
    exact ⟨events, sequences, eventSequence, droppedEvents, hfield, hsequence, hdropped, hwindow,
      hchecked, hincreasing, hcount, hlast⟩
  · cases h

/-- Every event names its kind. -/
def EventsNameKinds (run : List (String × Json)) : Prop :=
  ∀ events, Json.field run "events" = some (.arr events) → ∀ value ∈ events, NamesItsKind value

/-- The first retained event is the one after the dropped ones. -/
def StartsAfterDropped (run : List (String × Json)) : Prop :=
  ∀ first rest (droppedEvents : Nat), Json.field run "events" = some (.arr (first :: rest)) →
    Json.field run "droppedEvents" = some (.number droppedEvents) →
    ∃ fields, first = .obj fields ∧
      Json.field fields "sequence" = some (.number ((droppedEvents + 1 : Nat)))

/-- Events are counted as dropped only when the window is full. -/
def DropsFromFullWindow (run : List (String × Json)) : Prop :=
  ∀ events (droppedEvents : Nat), Json.field run "events" = some (.arr events) →
    Json.field run "droppedEvents" = some (.number droppedEvents) →
    droppedEvents = 0 ∨ events.length = maxWorkflowEvents

/-- The sequences of an accepted timeline that starts after its dropped events have no gap. -/
private theorem AcceptedTimeline.contiguous {run : List (String × Json)} {events : List Json}
    {sequences : List Nat} {eventSequence droppedEvents : Nat}
    (h : AcceptedTimeline run events sequences eventSequence droppedEvents)
    (hstart : StartsAfterDropped run) :
    sequences = List.range' (droppedEvents + 1) events.length := by
  have hlength := h.checked.length_eq
  cases sequences with
  | nil =>
    rw [List.length_nil] at hlength
    rw [hlength]
    rfl
  | cons first rest =>
    have hchecked := h.checked
    cases hchecked with
    | cons hfirst hrest =>
      next value others =>
      obtain ⟨path, hpath⟩ := hfirst
      obtain ⟨fields, hvalue, hsequence⟩ := hstart value others droppedEvents h.retained h.dropped
      obtain ⟨fields', shape, hvalue', -, haccepted⟩ := validateEventDocument_ok hpath
      have hfields : fields' = fields := by
        rw [hvalue] at hvalue'
        injection hvalue' with heq
        exact heq.symm
      subst hfields
      have hnumber : first = droppedEvents + 1 := by
        have hsame := haccepted.number
        rw [hsequence, Option.some.injEq, Json.number.injEq] at hsame
        omega
      have hlast := h.last.resolve_left (by simp)
      have hcount := h.count
      rw [List.getLastD_cons] at hlast
      rw [List.length_cons] at hlength hcount
      rw [List.length_cons] at hlength
      rw [List.length_cons, hlength, ← hnumber]
      exact eq_range'_of_last (List.pairwise_cons.mp h.increasing).2 (by omega)

/-- The events the accepted documents spell. -/
private theorem exists_events {events : List Json} {sequences : List Nat}
    (h : List.Forall₂ (fun value sequence => ∃ path,
      validateEventDocument value path = .ok sequence) events sequences)
    (hkinds : ∀ value ∈ events, NamesItsKind value) : ∃ spelled : List WorkflowEvent,
      List.Forall₂ Spells events spelled ∧ spelled.map WorkflowEvent.sequence = sequences ∧
      ∀ event ∈ spelled, event.timestamp ≠ "" := by
  induction h with
  | nil => exact ⟨[], .nil, rfl, nofun⟩
  | cons hfirst _ ih =>
    obtain ⟨path, hpath⟩ := hfirst
    obtain ⟨event, hsequence, htimestamp, hspells⟩ :=
      exists_event hpath (hkinds _ List.mem_cons_self)
    obtain ⟨spelled, hrest, hsequences, htimestamps⟩ := ih fun value hvalue =>
      hkinds value (List.mem_cons_of_mem _ hvalue)
    refine ⟨event :: spelled, .cons hspells hrest, ?_, ?_⟩
    · rw [List.map_cons, hsequence, hsequences]
    · intro other hother
      rcases List.mem_cons.mp hother with rfl | hother
      · exact htimestamp
      · exact htimestamps other hother

/-- An accepted timeline is one that appends to an empty one produce exactly when its events name
their kinds, it starts after the dropped events, and events were dropped from a full window only. -/
theorem accepted_timeline_honest_iff {run : List (String × Json)}
    (h : validateStoredEventsDocument run = .ok ()) :
    HonestTimeline run ↔
      EventsNameKinds run ∧ StartsAfterDropped run ∧ DropsFromFullWindow run := by
  obtain ⟨events, sequences, eventSequence, droppedEvents, haccepted⟩ :=
    validateStoredEventsDocument_ok h
  constructor
  · rintro ⟨timeline, events', hproduced, hevents, hspells, -, hdropped⟩
    obtain ⟨hsequences, -, -, -, hfull⟩ := produced_iff_sequences.mp hproduced
    refine ⟨?_, ?_, ?_⟩
    · intro others hothers value hvalue
      rw [hevents] at hothers
      cases hothers
      obtain ⟨hlength, hget⟩ := List.forall₂_iff_get.mp hspells
      obtain ⟨i, hi, rfl⟩ := List.getElem_of_mem hvalue
      exact namesItsKind_of_spells (hget i hi (hlength ▸ hi))
    · intro first rest dropped hothers hnumber
      rw [hevents] at hothers
      cases hothers
      rw [hdropped, Option.some.injEq, Json.number.injEq] at hnumber
      obtain ⟨spelled, eventSequence', droppedEvents'⟩ := timeline
      dsimp only at *
      cases hspells with
      | cons hfirst hrest =>
        next event others =>
        obtain ⟨fields, hfields, hsequence⟩ := sequence_of_spells hfirst
        rw [List.map_cons, List.length_cons, List.range'_succ, List.cons.injEq] at hsequences
        have hevent : event.sequence = dropped + 1 := by omega
        exact ⟨fields, hfields, hevent ▸ hsequence⟩
    · intro others dropped hothers hnumber
      rw [hevents] at hothers
      cases hothers
      rw [hdropped, Option.some.injEq, Json.number.injEq] at hnumber
      rw [hspells.length_eq]
      omega
  · rintro ⟨hkinds, hstart, hfull⟩
    obtain ⟨spelled, hspelled, hsequences, htimestamps⟩ :=
      exists_events haccepted.checked (hkinds events haccepted.retained)
    refine ⟨⟨spelled, eventSequence, droppedEvents⟩, events, ?_, haccepted.retained, hspelled,
      haccepted.highest, haccepted.dropped⟩
    have hlength := hspelled.length_eq
    rw [produced_iff_sequences]
    dsimp only
    rw [hsequences, ← hlength]
    exact ⟨haccepted.contiguous hstart, htimestamps, haccepted.count, haccepted.window,
      hfull events droppedEvents haccepted.retained haccepted.dropped⟩

/-- A stored cancellation request. -/
private def cancellationDocument (sequence : Nat) : Json :=
  .obj [("sequence", .number sequence), ("at", .str "t"),
    ("kind", .str "run_cancellation_requested"), ("reason", .str "stop")]

/-- A stored timeline of some events. -/
private def timelineDocument (events : List Json) (eventSequence droppedEvents : Nat) :
    List (String × Json) :=
  [("events", .arr events), ("eventSequence", .number eventSequence),
    ("droppedEvents", .number droppedEvents)]

/-- The timeline of one request is accepted, and honest under the condition. -/
theorem one_request_timeline_honest :
    validateStoredEventsDocument (timelineDocument [cancellationDocument 1] 1 0) = .ok () ∧
      (HonestTimeline (timelineDocument [cancellationDocument 1] 1 0) ↔
        EventsNameKinds (timelineDocument [cancellationDocument 1] 1 0) ∧
        StartsAfterDropped (timelineDocument [cancellationDocument 1] 1 0) ∧
        DropsFromFullWindow (timelineDocument [cancellationDocument 1] 1 0)) :=
  ⟨by decide +kernel, accepted_timeline_honest_iff (by decide +kernel)⟩

/-- A timeline with a gap in the middle is accepted: one event is counted as dropped, and the
missing number makes up for it. So is an event whose kind every object inherits. -/
theorem gap_and_inherited_kind_accepted :
    (validateStoredEventsDocument
        (timelineDocument [cancellationDocument 1, cancellationDocument 3] 3 1) = .ok () ∧
      ¬ HonestTimeline (timelineDocument [cancellationDocument 1, cancellationDocument 3] 3 1)) ∧
    (validateStoredEventsDocument (timelineDocument
        [.obj [("sequence", .number 1), ("at", .str "t"), ("kind", .str "toString")]] 1 0) =
        .ok () ∧
      ¬ HonestTimeline (timelineDocument
        [.obj [("sequence", .number 1), ("at", .str "t"), ("kind", .str "toString")]] 1 0)) := by
  refine ⟨⟨by decide +kernel, ?_⟩, ⟨by decide +kernel, ?_⟩⟩
  · rintro ⟨timeline, events, hproduced, hevents, hspells, -, hdropped⟩
    have hfull := (produced_iff_sequences.mp hproduced).2.2.2.2
    have hcount : timeline.droppedEvents = 1 := by
      have hnumber : some (Json.number 1) = some (.number timeline.droppedEvents) := hdropped
      rw [Option.some.injEq, Json.number.injEq] at hnumber
      omega
    cases hevents
    rw [← hspells.length_eq, hcount] at hfull
    exact absurd hfull (by decide)
  · rintro ⟨timeline, events, -, hevents, hspells, -, -⟩
    cases hevents
    generalize timeline.events = spelled at hspells
    cases hspells with
    | cons hfirst _ =>
      obtain ⟨fields, kind, shape, hfields, hkind, hshape, -⟩ := namesItsKind_of_spells hfirst
      cases hfields
      cases hkind
      have hundeclared : eventShapes.lookup "toString" = none := by decide +kernel
      cases hundeclared.symm.trans hshape

end BuildConductor.Storage
