import BuildConductor.Engine.Reconciliation
import BuildConductor.Engine.Transactions
import BuildConductor.Storage.Acceptance

/-!
# Parts of a run a write leaves accepted

Each group of conditions on a stored run looks at a few of its fields. These lemmas carry a
group across a write that leaves those fields alone, rewrites step states, or appends to
the timeline. Supports `src/src/storage/workflow-state-store.ts:229-522`.
-/

namespace BuildConductor.Storage

open Base Domain Security Engine

/-! ## The timeline -/

private theorem map_sequence_numberEvents (sequence : Nat) (timestamp : String)
    (bodies : List WorkflowEventBody) :
    (numberEvents sequence timestamp bodies).map (·.sequence) =
      List.range' (sequence + 1) bodies.length := by
  induction bodies generalizing sequence with
  | nil => rfl
  | cons body rest ih => rw [numberEvents, List.map_cons, ih, List.length_cons, List.range'_succ]

private theorem mem_numberEvents {sequence : Nat} {timestamp : String}
    {bodies : List WorkflowEventBody} {event : WorkflowEvent}
    (h : event ∈ numberEvents sequence timestamp bodies) :
    sequence < event.sequence ∧ event.sequence ≤ sequence + bodies.length ∧
      event.timestamp = timestamp ∧ event.body ∈ bodies := by
  have hsequence : event.sequence ∈ List.range' (sequence + 1) bodies.length := by
    rw [← map_sequence_numberEvents sequence timestamp bodies]
    exact List.mem_map_of_mem h
  rw [List.mem_range'_1] at hsequence
  refine ⟨by omega, by omega, ?_⟩
  induction bodies generalizing sequence with
  | nil => cases h
  | cons body rest ih =>
    rw [numberEvents, List.mem_cons] at h
    rcases h with rfl | h
    · exact ⟨rfl, List.mem_cons_self ..⟩
    · have hrest : event.sequence ∈ List.range' (sequence + 1 + 1) rest.length := by
        rw [← map_sequence_numberEvents (sequence + 1) timestamp rest]
        exact List.mem_map_of_mem h
      rw [List.mem_range'_1] at hrest
      obtain ⟨htimestamp, hbody⟩ := ih h (by omega)
      exact ⟨htimestamp, List.mem_cons_of_mem _ hbody⟩

/-- Every retained entry was assigned a sequence the run counted. -/
theorem EventsAccepted.sequence_le {run : WorkflowRunState} (h : EventsAccepted run)
    {event : WorkflowEvent} (hevent : event ∈ run.events) : event.sequence ≤ run.eventSequence := by
  rcases h.last with hnil | hlast
  · rw [hnil] at hevent
    cases hevent
  · rw [← hlast]
    obtain ⟨i, hi, rfl⟩ := List.mem_iff_getElem.mp hevent
    have hne : run.events.map (·.sequence) ≠ [] := by
      intro hnil
      rw [List.map_eq_nil_iff] at hnil
      rw [hnil] at hi
      cases hi
    rw [List.getLastD_eq_getLast?, List.getLast?_eq_getElem?, List.getElem?_eq_getElem (by
      simp only [List.length_map]; omega), Option.getD_some, List.getElem_map]
    by_cases hlt : i < (run.events.map (·.sequence)).length - 1
    · have hpair := List.pairwise_iff_getElem.mp h.increasing i
        ((run.events.map (·.sequence)).length - 1) (by simpa using hi)
        (by simp only [List.length_map] at *; omega) hlt
      rw [List.getElem_map, List.getElem_map] at hpair
      omega
    · simp only [List.length_map] at *
      have heq : i = run.events.length - 1 := by omega
      simp [heq]

/-- A timeline stays accepted when the entries appended to it carry safe integers and the
counter stays safe. -/
theorem EventsAccepted.append {run : WorkflowRunState} {bodies : List WorkflowEventBody}
    {now : Timestamp} (h : EventsAccepted run)
    (hsafe : run.eventSequence + bodies.length ≤ maxSafeInteger)
    (hintegers : ∀ body ∈ bodies, ∀ field ∈ WorkflowEventBody.integers body,
      field.2 ≤ maxSafeInteger) : EventsAccepted (appendWorkflowEvents run bodies now) := by
  unfold appendWorkflowEvents
  split
  · exact h
  · next hne =>
    have hlength : 0 < bodies.length := List.length_pos_iff.mpr hne
    have hcount := h.count
    have hwindow := h.window
    have heach : ∀ event ∈ run.events ++ numberEvents run.eventSequence now.text bodies,
        EventAccepted event := by
      intro event hevent
      rcases List.mem_append.mp hevent with hold | hnew
      · exact h.events event hold
      · obtain ⟨hlt, hle, htimestamp, hbody⟩ := mem_numberEvents hnew
        exact ⟨by omega, by omega, by rw [htimestamp]; exact now.nonempty,
          hintegers event.body hbody⟩
    have hincreasing : ((run.events ++ numberEvents run.eventSequence now.text bodies).map
        (·.sequence)).Pairwise (· < ·) := by
      rw [List.map_append, List.pairwise_append]
      refine ⟨h.increasing, ?_, ?_⟩
      · rw [map_sequence_numberEvents]
        exact List.pairwise_lt_range'
      · intro old hold new hnew
        obtain ⟨event, hevent, rfl⟩ := List.mem_map.mp hold
        obtain ⟨added, hadded, rfl⟩ := List.mem_map.mp hnew
        have hle := h.sequence_le hevent
        have hlt := (mem_numberEvents hadded).1
        omega
    refine ⟨?_, hsafe, ?_, ?_, ?_, ?_, ?_⟩
    · simp only [List.length_drop]
      omega
    · simp only [List.length_append, length_numberEvents]
      omega
    · intro event hevent
      dsimp only at hevent
      exact heach event (List.mem_of_mem_drop hevent)
    · rw [List.map_drop]
      exact List.Pairwise.drop hincreasing
    · simp only [List.length_drop, List.length_append, length_numberEvents]
      omega
    · right
      rw [List.map_drop, List.map_append, map_sequence_numberEvents, List.getLastD_eq_getLast?,
        List.getLast?_drop, if_neg, List.getLast?_append, List.getLast?_range', if_neg]
      · simp only [Option.some_or, Option.getD_some]
        omega
      · omega
      · simp only [List.length_append, List.length_map, List.length_range', length_numberEvents,
          maxWorkflowEvents]
        omega

/-! ## The other groups -/

/-- An accepted run holds a record for exactly the steps of its plan. -/
theorem StepsAccepted.record {run : WorkflowRunState} {plan : WorkflowPlan}
    (h : StepsAccepted run plan) (hwf : WellFormedSteps plan.steps) {stepId : String}
    {record : WorkflowStepRecord} (hrecord : run.steps.get? stepId = some record) :
    record.definition ∈ plan.steps ∧ record.definition.id = stepId ∧
      definitionOf plan stepId = some record.definition ∧
      StepAccepted run.capabilityProfiles record.definition record := by
  have hids : (plan.steps.map fun step => step.id).Nodup := by
    have hnodup := hwf.graph.nodup_ids
    rwa [Node.ids, List.map_map] at hnodup
  have hsubset : (plan.steps.map fun step => step.id) ⊆ run.steps.keys := by
    intro id hid
    obtain ⟨definition, hdefinition, rfl⟩ := List.mem_map.mp hid
    obtain ⟨found, hfound, -⟩ := h.records definition hdefinition
    rw [OrderedRecord.mem_keys_iff, hfound]
    rfl
  have hperm : (plan.steps.map fun step => step.id).Perm run.steps.keys := by
    apply (hids.subperm hsubset).perm_of_length_le
    rw [h.count, List.length_map]
  have hmem : stepId ∈ plan.steps.map fun step => step.id := by
    rw [hperm.mem_iff, OrderedRecord.mem_keys_iff, hrecord]
    rfl
  obtain ⟨definition, hdefinition, hid⟩ := List.mem_map.mp hmem
  obtain ⟨found, hfound, haccepted⟩ := h.records definition hdefinition
  rw [hid, hrecord, Option.some.injEq] at hfound
  subst hfound
  rw [haccepted.definition_eq]
  refine ⟨hdefinition, hid, ?_, haccepted⟩
  rw [← hid]
  exact definitionOf_eq hids hdefinition

/-- The timeline conditions look at the timeline only. -/
theorem EventsAccepted.congr {run next : WorkflowRunState} (h : EventsAccepted run)
    (hevents : next.events = run.events) (hsequence : next.eventSequence = run.eventSequence)
    (hdropped : next.droppedEvents = run.droppedEvents) : EventsAccepted next := by
  obtain ⟨hwindow, hsafe, hdroppedSafe, heach, hincreasing, hcount, hlast⟩ := h
  rw [← hevents] at hwindow heach hincreasing
  rw [← hsequence] at hsafe
  rw [← hdropped] at hdroppedSafe
  rw [← hevents, ← hsequence, ← hdropped] at hcount
  rw [← hevents, ← hsequence] at hlast
  exact ⟨hwindow, hsafe, hdroppedSafe, heach, hincreasing, hcount, hlast⟩
/-- The fields of a run that no write but an admission changes, and an admission only the plan. -/
structure SameHeader (run next : WorkflowRunState) : Prop where
  id : next.id = run.id
  repositoryRoot : next.repositoryRoot = run.repositoryRoot
  baseBranch : next.baseBranch = run.baseBranch
  baseCommit : next.baseCommit = run.baseCommit
  integrationBranch : next.integrationBranch = run.integrationBranch
  capabilityProfiles : next.capabilityProfiles = run.capabilityProfiles
  authority : next.authority = run.authority
  maxConcurrentWorkers : next.maxConcurrentWorkers = run.maxConcurrentWorkers
  createdAt : next.createdAt = run.createdAt

theorem SameHeader.refl (run : WorkflowRunState) : SameHeader run run :=
  ⟨rfl, rfl, rfl, rfl, rfl, rfl, rfl, rfl, rfl⟩

theorem SameHeader.trans {first second third : WorkflowRunState} (h : SameHeader first second)
    (h' : SameHeader second third) : SameHeader first third :=
  ⟨h'.id.trans h.id, h'.repositoryRoot.trans h.repositoryRoot, h'.baseBranch.trans h.baseBranch,
    h'.baseCommit.trans h.baseCommit, h'.integrationBranch.trans h.integrationBranch,
    h'.capabilityProfiles.trans h.capabilityProfiles, h'.authority.trans h.authority,
    h'.maxConcurrentWorkers.trans h.maxConcurrentWorkers, h'.createdAt.trans h.createdAt⟩

/-- Appending to the timeline keeps the header. -/
theorem SameHeader.append {run next : WorkflowRunState} (h : SameHeader run next)
    (bodies : List WorkflowEventBody) (now : Timestamp) :
    SameHeader run (appendWorkflowEvents next bodies now) := by
  apply h.trans
  constructor <;> simp

/-- A run whose header did not change is accepted when the rest of it is. -/
theorem RunAccepted.of_parts {sha256Hex : String → String} {run next : WorkflowRunState}
    {plan : WorkflowPlan} (h : RunAccepted sha256Hex run plan) (hheader : SameHeader run next)
    (hplan : next.plan = run.plan) (hhead : next.integrationHead ≠ "") (hupdated : next.updatedAt ≠ "")
    (hsteps : StepsAccepted next plan) (hattempts : AttemptsAccepted next plan)
    (hintegration : IntegrationAccepted next plan) (hevents : EventsAccepted next) :
    RunAccepted sha256Hex next plan where
  header :=
    { id_ne := by rw [hheader.id]; exact h.header.id_ne
      id_safe := by rw [hheader.id]; exact h.header.id_safe
      repositoryRoot := by rw [hheader.repositoryRoot]; exact h.header.repositoryRoot
      baseBranch := by rw [hheader.baseBranch]; exact h.header.baseBranch
      baseCommit := by rw [hheader.baseCommit]; exact h.header.baseCommit
      integrationBranch := by rw [hheader.integrationBranch]; exact h.header.integrationBranch
      integrationHead := hhead
      createdAt := by rw [hheader.createdAt]; exact h.header.createdAt
      updatedAt := hupdated }
  reads := by rw [hplan]; exact h.reads
  profiles := by rw [hheader.capabilityProfiles]; exact h.profiles
  authority := by
    have hauthority := h.authority
    unfold validateRunAuthority at hauthority ⊢
    rw [hheader.authority, hheader.repositoryRoot, hheader.capabilityProfiles]
    exact hauthority
  workers_pos := by rw [hheader.maxConcurrentWorkers]; exact h.workers_pos
  workers_le := by rw [hheader.maxConcurrentWorkers]; exact h.workers_le
  steps := hsteps
  attempts := hattempts
  integration := hintegration
  events := hevents

/-- Rewritten states keep the step records accepted when every integrated step stays succeeded. -/
theorem StepsAccepted.of_states {run next : WorkflowRunState} {plan : WorkflowPlan}
    (h : StepsAccepted run plan) (hheader : SameHeader run next)
    (hsame : SameButStates run.steps next.steps)
    (hkept : ∀ stepId record, next.steps.get? stepId = some record →
      record.integratedCommit ≠ none → record.state = .succeeded) : StepsAccepted next plan := by
  rw [sameButStates_iff] at hsame
  constructor
  · rw [hsame.1]
    exact h.count
  · intro definition hdefinition
    obtain ⟨record, hrecord, haccepted⟩ := h.records definition hdefinition
    obtain ⟨state, hstate⟩ := hsame.2 _ _ hrecord
    refine ⟨_, hstate, ?_⟩
    rw [hheader.capabilityProfiles]
    obtain ⟨hdef, hnodup, hne, hconflict, -, hauthorized⟩ := haccepted
    refine ⟨hdef, hnodup, hne, hconflict, ?_, hauthorized⟩
    by_cases hcommit : record.integratedCommit = none
    · exact Or.inl hcommit
    · exact Or.inr (hkept _ _ hstate hcommit)

private theorem flatMap_attemptIds_of_sameButStates
    {before after : OrderedRecord String WorkflowStepRecord} (h : SameButStates before after) :
    after.values.flatMap (·.attemptIds) = before.values.flatMap (·.attemptIds) := by
  obtain ⟨states, rfl⟩ := h
  simp [withStates, OrderedRecord.values, OrderedRecord.mapValues, List.flatMap_map]

/-- Rewritten states leave the conditions on the attempts alone. -/
theorem AttemptsAccepted.of_states {run next : WorkflowRunState} {plan : WorkflowPlan}
    (h : AttemptsAccepted run plan) (hheader : SameHeader run next)
    (hattempts : next.attempts = run.attempts)
    (hsame : SameButStates run.steps next.steps) : AttemptsAccepted next plan := by
  have hactive : activeAttempts next = activeAttempts run := by
    rw [activeAttempts, hattempts, activeAttempts]
  constructor
  · rw [hattempts, hheader.capabilityProfiles]
    exact h.each
  · rw [hattempts]
    exact h.compatible
  · rw [hattempts]
    intro stepId record hrecord attemptId hid
    obtain ⟨states, hstates⟩ := hsame
    rw [hstates, get?_withStates, Option.map_eq_some_iff] at hrecord
    obtain ⟨before, hbefore, rfl⟩ := hrecord
    exact h.references stepId before hbefore attemptId hid
  · rw [flatMap_attemptIds_of_sameButStates hsame, hattempts]
    exact h.referenced
  · rw [hactive, hheader.capabilityProfiles, hheader.maxConcurrentWorkers]
    exact h.slots

/-- Rewritten states leave the integration records alone. -/
theorem commitsAlong_of_states {run next : WorkflowRunState} {plan : WorkflowPlan}
    (hprofiles : next.capabilityProfiles = run.capabilityProfiles)
    (hsame : SameButStates run.steps next.steps) (ids : List String) :
    commitsAlong next plan ids = commitsAlong run plan ids := by
  obtain ⟨states, hstates⟩ := hsame
  unfold commitsAlong
  congr 1
  funext stepId
  rw [mutatingCommit, mutatingCommit, hprofiles, hstates, get?_withStates]
  cases definitionOf plan stepId with
  | none => rfl
  | some definition =>
    cases run.steps.get? stepId with
    | none => rfl
    | some record => rfl

/-- Rewritten states keep the integration accepted when a completed run has finished. -/
theorem IntegrationAccepted.of_states {run next : WorkflowRunState} {plan : WorkflowPlan}
    (h : IntegrationAccepted run plan) (hheader : SameHeader run next)
    (hhead : next.integrationHead = run.integrationHead)
    (hsame : SameButStates run.steps next.steps)
    (hcompleted : next.state = .completed → ∀ stepId record,
      next.steps.get? stepId = some record → CompletedRecord next plan stepId record) :
    IntegrationAccepted next plan where
  integrated := by
    rw [commitsAlong_of_states hheader.capabilityProfiles hsame, hheader.baseCommit, hhead]
    exact h.integrated
  branch := by
    rw [hheader.capabilityProfiles, hheader.baseBranch, hheader.integrationBranch]
    exact h.branch
  completed := hcompleted

end BuildConductor.Storage
