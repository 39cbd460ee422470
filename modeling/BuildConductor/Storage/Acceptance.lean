import BuildConductor.Storage.WorkflowStateStore

/-!
# What the store accepts

The store's check as a proposition: one named condition for each test, so that a
transaction is shown to keep a run storable condition by condition.
-/

namespace BuildConductor.Storage

open Base Domain Security Engine

/-! ## Evidence -/

/-- The shape of stored evidence. -/
structure EvidenceAccepted (evidence : TaskValidationEvidence) : Prop where
  startedAt : evidence.startedAt ≠ ""
  finishedAt : evidence.finishedAt ≠ ""
  files : ∀ file ∈ evidence.changedFiles,
    file.path ≠ "" ∧ file.status ≠ "" ∧ file.previousPath ≠ some ""
  boundaries : ∀ check ∈ evidence.checks, ∀ boundary, check.executionBoundary = some boundary →
    (boundary.sandbox = .nono ↔ boundary.network = .blocked)

private theorem forall_mem_zipIdx {α : Type} {xs : List α} {p : α → Prop} :
    (∀ e ∈ xs.zipIdx, p e.1) ↔ ∀ x ∈ xs, p x := by
  constructor
  · intro h x hx
    obtain ⟨i, hi, rfl⟩ := List.mem_iff_getElem.mp hx
    exact h (xs[i], i) (List.mem_zipIdx_iff_getElem?.mpr (List.getElem?_eq_getElem hi))
  · intro h e he
    exact h e.1 (List.fst_mem_of_mem_zipIdx he)

/-- Evidence is accepted at any path exactly when it has the stored shape. -/
theorem validateStoredEvidence_ok_iff {evidence : TaskValidationEvidence} {path : String} :
    validateStoredEvidence evidence path = .ok () ↔ EvidenceAccepted evidence := by
  simp only [validateStoredEvidence, seq_ok_iff, assertString, assertOptionalString, ensure_ok_iff,
    forM_ok_iff]
  constructor
  · rintro ⟨hstarted, hfinished, hfiles, hchecks⟩
    refine ⟨hstarted, hfinished, ?_, ?_⟩
    · exact forall_mem_zipIdx.mp fun e he => hfiles e he
    · refine forall_mem_zipIdx.mp ?_
      intro e he boundary hboundary
      have hchecked := hchecks e he
      rw [hboundary] at hchecked
      simpa [validateExecutionBoundary] using hchecked
  · rintro ⟨hstarted, hfinished, hfiles, hchecks⟩
    refine ⟨hstarted, hfinished, ?_, ?_⟩
    · exact fun e he => hfiles e.1 (List.fst_mem_of_mem_zipIdx he)
    · intro e he
      have hchecked := hchecks e.1 (List.fst_mem_of_mem_zipIdx he)
      split
      · rfl
      · next boundary hboundary =>
        simpa [validateExecutionBoundary] using hchecked boundary hboundary

/-! ## Events -/

/-- A timeline entry the store accepts. -/
structure EventAccepted (event : WorkflowEvent) : Prop where
  sequence_pos : 1 ≤ event.sequence
  sequence_safe : event.sequence ≤ maxSafeInteger
  timestamp : event.timestamp ≠ ""
  integers : ∀ field ∈ WorkflowEventBody.integers event.body, field.2 ≤ maxSafeInteger

/-- The conditions on the retained window and its counters. -/
structure EventsAccepted (run : WorkflowRunState) : Prop where
  window : run.events.length ≤ maxWorkflowEvents
  sequence_safe : run.eventSequence ≤ maxSafeInteger
  dropped_safe : run.droppedEvents ≤ maxSafeInteger
  events : ∀ event ∈ run.events, EventAccepted event
  increasing : (run.events.map (·.sequence)).Pairwise (· < ·)
  count : run.eventSequence = run.events.length + run.droppedEvents
  last : run.events = [] ∨ (run.events.map (·.sequence)).getLastD 0 = run.eventSequence

private theorem validateEvent_ok_iff {event : WorkflowEvent} {path : String} :
    validateEvent event path = .ok () ↔ EventAccepted event := by
  simp only [validateEvent, assertPositiveInteger, assertString, assertCountingInteger, seq_ok_iff,
    ensure_ok_iff, forM_ok_iff]
  constructor
  · rintro ⟨⟨hpos, hsafe⟩, htimestamp, hintegers⟩
    exact ⟨hpos, hsafe, htimestamp, hintegers⟩
  · rintro ⟨hpos, hsafe, htimestamp, hintegers⟩
    exact ⟨⟨hpos, hsafe⟩, htimestamp, hintegers⟩

private theorem validateTimeline_ok_iff {index previous last : Nat} {events : List WorkflowEvent} :
    validateTimeline index previous events = .ok last ↔
      (∀ event ∈ events, EventAccepted event) ∧
      (previous :: events.map (·.sequence)).Pairwise (· < ·) ∧
      last = (events.map (·.sequence)).getLastD previous := by
  induction events generalizing index previous with
  | nil => simp [validateTimeline, pure, Except.pure, eq_comm]
  | cons event rest ih =>
    simp only [validateTimeline, seq_ok_iff, validateEvent_ok_iff, ensure_ok_iff, ih,
      List.forall_mem_cons, List.map_cons, List.getLastD_cons]
    constructor
    · rintro ⟨hevent, hlt, hrest, hchain, hlast⟩
      refine ⟨⟨hevent, hrest⟩, ?_, hlast⟩
      rw [List.pairwise_cons]
      refine ⟨?_, hchain⟩
      intro x hx
      rcases List.mem_cons.mp hx with rfl | hx
      · exact hlt
      · exact Nat.lt_trans hlt ((List.pairwise_cons.mp hchain).1 x hx)
    · rintro ⟨⟨hevent, hrest⟩, hchain, hlast⟩
      rw [List.pairwise_cons] at hchain
      exact ⟨hevent, hchain.1 _ (List.mem_cons_self ..), hrest, hchain.2, hlast⟩

/-- The timeline check is the conditions on the window and its counters. -/
theorem validateStoredEvents_ok_iff {run : WorkflowRunState} :
    validateStoredEvents run = .ok () ↔ EventsAccepted run := by
  simp only [validateStoredEvents, assertCountingInteger, bind_ok_iff, exists_unit_iff,
    ensure_ok_iff, validateTimeline_ok_iff]
  constructor
  · rintro ⟨hwindow, hsequence, hdropped, last, ⟨hevents, hchain, rfl⟩, hcount, hlast⟩
    exact ⟨hwindow, hsequence, hdropped, hevents, (List.pairwise_cons.mp hchain).2, hcount, hlast⟩
  · rintro ⟨hwindow, hsequence, hdropped, hevents, hincreasing, hcount, hlast⟩
    refine ⟨hwindow, hsequence, hdropped, _, ⟨hevents, ?_, rfl⟩, hcount, hlast⟩
    rw [List.pairwise_cons]
    refine ⟨?_, hincreasing⟩
    intro x hx
    obtain ⟨event, hevent, rfl⟩ := List.mem_map.mp hx
    exact (hevents event hevent).sequence_pos

/-! ## Steps -/

/-- A step record the store accepts for its definition. -/
structure StepAccepted (profiles : RunCapabilityProfiles) (definition : StepDefinition)
    (record : WorkflowStepRecord) : Prop where
  definition_eq : record.definition = definition
  nodup_attemptIds : record.attemptIds.Nodup
  commit_ne : record.integratedCommit ≠ some ""
  no_conflict : record.integratedCommit = none ∨ record.integrationError = none
  succeeded : record.integratedCommit = none ∨ record.state = .succeeded
  authorized : record.integratedCommit = none ∨ stepRequiresIntegration profiles definition = true

/-- The conditions on the step records of a run. -/
structure StepsAccepted (run : WorkflowRunState) (plan : WorkflowPlan) : Prop where
  count : run.steps.keys.length = plan.steps.length
  records : ∀ definition ∈ plan.steps, ∃ record, run.steps.get? definition.id = some record ∧
    StepAccepted run.capabilityProfiles definition record

private theorem validateStoredStep_ok_iff {run : WorkflowRunState} {definition : StepDefinition} :
    validateStoredStep run definition = .ok () ↔
      ∃ record, run.steps.get? definition.id = some record ∧
        StepAccepted run.capabilityProfiles definition record := by
  simp only [validateStoredStep, bind_ok_iff, require_ok_iff, exists_unit_iff, ensure_ok_iff,
    assertOptionalString]
  constructor
  · rintro ⟨record, hrecord, hdefinition, hnodup, hne, hconflict, hsucceeded, hauthorized⟩
    exact ⟨record, hrecord, hdefinition, hnodup, hne, hconflict, hsucceeded, hauthorized⟩
  · rintro ⟨record, hrecord, hdefinition, hnodup, hne, hconflict, hsucceeded, hauthorized⟩
    exact ⟨record, hrecord, hdefinition, hnodup, hne, hconflict, hsucceeded, hauthorized⟩

/-- The step check is the conditions on the records. -/
theorem validateStoredSteps_ok_iff {run : WorkflowRunState} {plan : WorkflowPlan} :
    validateStoredSteps run plan = .ok () ↔ StepsAccepted run plan := by
  simp only [validateStoredSteps, seq_ok_iff, ensure_ok_iff, forM_ok_iff, validateStoredStep_ok_iff]
  constructor
  · rintro ⟨hcount, hrecords⟩
    exact ⟨hcount, hrecords⟩
  · rintro ⟨hcount, hrecords⟩
    exact ⟨hcount, hrecords⟩

/-! ## Attempts -/

/-- The definition a plan holds for a step id. -/
def definitionOf (plan : WorkflowPlan) (stepId : String) : Option StepDefinition :=
  plan.steps.find? fun step => step.id = stepId

/-- A plan of distinct ids holds each of its steps under its id. -/
theorem definitionOf_eq {plan : WorkflowPlan} {definition : StepDefinition}
    (hids : (plan.steps.map fun step => step.id).Nodup) (h : definition ∈ plan.steps) :
    definitionOf plan definition.id = some definition := by
  cases hfind : definitionOf plan definition.id with
  | none =>
    have hnone := List.find?_eq_none.mp hfind definition h
    simp at hnone
  | some other =>
    have hother : other ∈ plan.steps := List.mem_of_find?_eq_some hfind
    have hotherId : other.id = definition.id := by simpa using List.find?_some hfind
    rw [Option.some.injEq]
    exact List.inj_on_of_nodup_map hids hother h hotherId

/-- An attempt the store accepts on its own, for the step definition it belongs to. -/
structure AttemptAccepted (profiles : RunCapabilityProfiles) (plan : WorkflowPlan)
    (attempt : WorkflowStepAttempt) : Prop where
  id_ne : attempt.id ≠ ""
  stepId_ne : attempt.stepId ≠ ""
  baseCommit_ne : attempt.baseCommit ≠ ""
  startedAt_ne : attempt.startedAt ≠ ""
  branch_ne : attempt.branch ≠ some ""
  finishedAt_ne : attempt.finishedAt ≠ some ""
  commit_ne : attempt.commit ≠ some ""
  workerId_ne : attempt.workerId ≠ some ""
  number_pos : 1 ≤ attempt.number
  number_safe : attempt.number ≤ maxSafeInteger
  requirement : ∃ definition, definitionOf plan attempt.stepId = some definition ∧
    attempt.workspaceRequirement = stepWorkspaceRequirement profiles definition
  workspacePath : attempt.workspacePath = "" ↔ attempt.workspaceRequirement = .none
  branch : attempt.branch.isSome ↔ attempt.workspaceRequirement = .mutable
  commit : attempt.commit = none ∨ attempt.workspaceRequirement = .mutable
  evidence : ∀ evidence, attempt.evidence = some evidence →
    EvidenceAccepted evidence ∧ attempt.commit ≠ none
  finished : attempt.state ≠ .succeeded ∨ attempt.finishedAt ≠ none

/-- Two attempts of one run that may stand together. -/
structure AttemptsCompatible (earlier later : WorkflowStepAttempt) : Prop where
  id_ne : earlier.id ≠ later.id
  number_ne : ¬ (earlier.stepId = later.stepId ∧ earlier.number = later.number)
  one_active : later.state.isActive → earlier.state.isActive → earlier.stepId ≠ later.stepId

private theorem validateAttemptEvidence_ok_iff {attempt : WorkflowStepAttempt} {path : String} :
    validateAttemptEvidence attempt path = .ok () ↔
      ∀ evidence, attempt.evidence = some evidence →
        EvidenceAccepted evidence ∧ attempt.commit ≠ none := by
  unfold validateAttemptEvidence
  cases h : attempt.evidence with
  | none => simp [pure, Except.pure]
  | some evidence => simp [seq_ok_iff, validateStoredEvidence_ok_iff]

private theorem validateStoredAttempt_ok_iff {profiles : RunCapabilityProfiles}
    {plan : WorkflowPlan} {before : List WorkflowStepAttempt} {attempt : WorkflowStepAttempt} :
    validateStoredAttempt profiles plan before attempt = .ok () ↔
      AttemptAccepted profiles plan attempt ∧
        ∀ earlier ∈ before, AttemptsCompatible earlier attempt := by
  simp only [validateStoredAttempt, assertString, assertOptionalString, assertPositiveInteger,
    bind_ok_iff, exists_unit_iff, require_ok_iff, ensure_ok_iff, validateAttemptEvidence_ok_iff]
  constructor
  · rintro ⟨hid, hstep, hbase, hstarted, hbranch, hfinished, hcommit, hworker, definition, hdef,
      ⟨hpos, hsafe⟩, hreq, hpath, hbranchIff, hcommitReq, hev, hsucc, hfresh, hnumber, hactive⟩
    refine ⟨⟨hid, hstep, hbase, hstarted, hbranch, hfinished, hcommit, hworker, hpos, hsafe,
      ⟨definition, hdef, hreq⟩, hpath, hbranchIff, hcommitReq, hev, ?_⟩, ?_⟩
    · exact hsucc.imp_right And.left
    · intro earlier hearlier
      refine ⟨fun h => hfresh (List.mem_map.mpr ⟨earlier, hearlier, h⟩), hnumber earlier hearlier, ?_⟩
      intro hlater hact
      rcases hactive with h | h
      · rw [h] at hlater
        cases hlater
      · exact h earlier hearlier hact
  · rintro ⟨⟨hid, hstep, hbase, hstarted, hbranch, hfinished, hcommit, hworker, hpos, hsafe,
      ⟨definition, hdef, hreq⟩, hpath, hbranchIff, hcommitReq, hev, hsucc⟩, hbefore⟩
    refine ⟨hid, hstep, hbase, hstarted, hbranch, hfinished, hcommit, hworker, definition, hdef,
      ⟨hpos, hsafe⟩, hreq, hpath, hbranchIff, hcommitReq, hev, ?_, ?_, ?_, ?_⟩
    · exact hsucc.imp_right fun h => ⟨h, hfinished⟩
    · intro hmem
      obtain ⟨earlier, hearlier, heq⟩ := List.mem_map.mp hmem
      exact (hbefore earlier hearlier).id_ne heq
    · exact fun earlier hearlier => (hbefore earlier hearlier).number_ne
    · cases hstate : attempt.state.isActive with
      | false => exact Or.inl rfl
      | true => exact Or.inr fun earlier hearlier => (hbefore earlier hearlier).one_active hstate

/-- The conditions on the attempts of a run. -/
structure AttemptsAccepted (run : WorkflowRunState) (plan : WorkflowPlan) : Prop where
  each : ∀ attempt ∈ run.attempts, AttemptAccepted run.capabilityProfiles plan attempt
  compatible : run.attempts.Pairwise AttemptsCompatible
  references : ∀ stepId record, run.steps.get? stepId = some record →
    ∀ attemptId ∈ record.attemptIds,
      (run.attempts.find? fun attempt => attempt.id = attemptId).map (·.stepId) = some stepId
  referenced : (run.steps.values.flatMap (·.attemptIds)).eraseDups.length = run.attempts.length
  slots : ((activeAttempts run).filter fun attempt =>
    match definitionOf plan attempt.stepId with
    | none => false
    | some definition => stepConsumesWorkerSlot run.capabilityProfiles definition).length ≤
      run.maxConcurrentWorkers

/-- The attempt check is the conditions on the attempts. -/
theorem validateStoredAttempts_ok_iff {run : WorkflowRunState} {plan : WorkflowPlan} :
    validateStoredAttempts run plan = .ok () ↔ AttemptsAccepted run plan := by
  have hlist : ∀ attempts : List WorkflowStepAttempt,
      (∀ pre attempt post, attempts = pre ++ attempt :: post →
        AttemptAccepted run.capabilityProfiles plan attempt ∧
          ∀ earlier ∈ pre, AttemptsCompatible earlier attempt) ↔
      (∀ attempt ∈ attempts, AttemptAccepted run.capabilityProfiles plan attempt) ∧
        attempts.Pairwise AttemptsCompatible := by
    intro attempts
    constructor
    · intro h
      constructor
      · intro attempt hmem
        obtain ⟨pre, post, hsplit⟩ := List.append_of_mem hmem
        exact (h pre attempt post hsplit).1
      · rw [List.pairwise_iff_getElem]
        intro i j hi hj hij
        have hsplit : attempts = attempts.take j ++ attempts[j] :: attempts.drop (j + 1) := by
          rw [← List.drop_eq_getElem_cons hj, List.take_append_drop]
        apply (h _ _ _ hsplit).2
        rw [List.mem_take_iff_getElem]
        exact ⟨i, by omega, rfl⟩
    · rintro ⟨heach, hpair⟩ pre attempt post rfl
      refine ⟨heach attempt (by simp), ?_⟩
      rw [List.pairwise_append] at hpair
      exact fun earlier hearlier => hpair.2.2 earlier hearlier attempt (by simp)
  simp only [validateStoredAttempts, seq_ok_iff, forEachAfter_ok_iff, List.nil_append,
    validateStoredAttempt_ok_iff, hlist, forM_ok_iff, validateAttemptReference, ensure_ok_iff]
  constructor
  · rintro ⟨⟨heach, hpair⟩, hrefs, hreferenced, hslots⟩
    refine ⟨heach, hpair, ?_, hreferenced, hslots⟩
    intro stepId record hrecord attemptId hid
    exact hrefs (stepId, record) ((run.steps.mem_entries_iff stepId record).mpr hrecord) attemptId hid
  · rintro ⟨heach, hpair, hrefs, hreferenced, hslots⟩
    refine ⟨⟨heach, hpair⟩, ?_, hreferenced, hslots⟩
    rintro ⟨stepId, record⟩ hentry attemptId hid
    exact hrefs stepId record ((run.steps.mem_entries_iff stepId record).mp hentry) attemptId hid

/-! ## Integration -/

/-- The integration record of a step that may commit, none for any other step. -/
def mutatingCommit (run : WorkflowRunState) (plan : WorkflowPlan) (stepId : String) :
    Option (Option String) :=
  match definitionOf plan stepId, run.steps.get? stepId with
  | some definition, some record =>
    if stepRequiresIntegration run.capabilityProfiles definition then some record.integratedCommit
    else none
  | _, _ => none

/-- The integration records of the mutating steps among some ids, in their order. -/
def commitsAlong (run : WorkflowRunState) (plan : WorkflowPlan) (ids : List String) :
    List (Option String) :=
  ids.filterMap (mutatingCommit run plan)

/-- The integrated commits come first, and the head is the last of them. -/
def IntegratedPrefix (commits : List (Option String)) (base head : String) : Prop :=
  ∃ (done : List String) (waiting : Nat),
    commits = done.map some ++ List.replicate waiting none ∧ head = done.getLastD base

private theorem validateIntegratedPrefix_cons {run : WorkflowRunState} {plan : WorkflowPlan}
    {expectedHead head stepId : String} {sawUnintegrated : Bool} {ids : List String} :
    validateIntegratedPrefix run plan expectedHead sawUnintegrated (stepId :: ids) = .ok head ↔
      match mutatingCommit run plan stepId with
      | none => validateIntegratedPrefix run plan expectedHead sawUnintegrated ids = .ok head
      | some none => validateIntegratedPrefix run plan expectedHead true ids = .ok head
      | some (some commit) => sawUnintegrated = false ∧
          validateIntegratedPrefix run plan commit sawUnintegrated ids = .ok head := by
  have hdefinition : (plan.steps.find? fun step => step.id = stepId) = definitionOf plan stepId := rfl
  rw [validateIntegratedPrefix, mutatingCommit, hdefinition]
  cases definitionOf plan stepId with
  | none => rfl
  | some definition =>
    cases run.steps.get? stepId with
    | none => rfl
    | some record =>
      by_cases hmutable : stepRequiresIntegration run.capabilityProfiles definition = true
      · cases hcommit : record.integratedCommit with
        | none => simp [hmutable, hcommit]
        | some commit => simp [hmutable, hcommit, bind_ok_iff]
      · simp [hmutable]

private theorem commitsAlong_cons {run : WorkflowRunState} {plan : WorkflowPlan} {stepId : String}
    {ids : List String} :
    commitsAlong run plan (stepId :: ids) =
      (mutatingCommit run plan stepId).toList ++ commitsAlong run plan ids := by
  rw [commitsAlong, List.filterMap_cons]
  cases mutatingCommit run plan stepId <;> rfl

/-- The commits along an order are those along its parts. -/
theorem commitsAlong_append {run : WorkflowRunState} {plan : WorkflowPlan} (pre post : List String) :
    commitsAlong run plan (pre ++ post) = commitsAlong run plan pre ++ commitsAlong run plan post :=
  List.filterMap_append

private theorem validateIntegratedPrefix_after {run : WorkflowRunState} {plan : WorkflowPlan}
    {expectedHead head : String} {ids : List String} :
    validateIntegratedPrefix run plan expectedHead true ids = .ok head ↔
      (∀ commit ∈ commitsAlong run plan ids, commit = none) ∧ head = expectedHead := by
  induction ids with
  | nil =>
    rw [validateIntegratedPrefix]
    simp [commitsAlong, pure, Except.pure, eq_comm (a := head)]
  | cons stepId rest ih =>
    rw [validateIntegratedPrefix_cons, commitsAlong_cons]
    cases hcommit : mutatingCommit run plan stepId with
    | none => simpa using ih
    | some commit =>
      cases commit with
      | none => simpa using ih
      | some commit => simp

private theorem validateIntegratedPrefix_ok_iff {run : WorkflowRunState} {plan : WorkflowPlan}
    {expectedHead head : String} {ids : List String} :
    validateIntegratedPrefix run plan expectedHead false ids = .ok head ↔
      IntegratedPrefix (commitsAlong run plan ids) expectedHead head := by
  induction ids generalizing expectedHead with
  | nil =>
    rw [validateIntegratedPrefix]
    constructor
    · intro h
      cases h
      exact ⟨[], 0, rfl, rfl⟩
    · rintro ⟨done, waiting, hsplit, rfl⟩
      have hdone : done = [] := by
        cases done with
        | nil => rfl
        | cons _ _ => cases hsplit
      rw [hdone]
      rfl
  | cons stepId rest ih =>
    rw [validateIntegratedPrefix_cons, commitsAlong_cons]
    cases hcommit : mutatingCommit run plan stepId with
    | none => simpa using ih
    | some commit =>
      cases commit with
      | none =>
        simp only [validateIntegratedPrefix_after, Option.toList_some, List.singleton_append]
        constructor
        · rintro ⟨hnone, rfl⟩
          refine ⟨[], (commitsAlong run plan rest).length + 1, ?_, rfl⟩
          rw [List.replicate_succ, List.map_nil, List.nil_append,
            List.eq_replicate_iff.mpr ⟨rfl, hnone⟩, List.length_replicate]
        · rintro ⟨done, waiting, hsplit, rfl⟩
          cases done with
          | cons _ _ => cases hsplit
          | nil =>
            refine ⟨?_, rfl⟩
            intro commit hmem
            have hall : commit ∈ List.replicate waiting (none : Option String) := by
              rw [List.map_nil, List.nil_append] at hsplit
              rw [← hsplit]
              exact List.mem_cons_of_mem _ hmem
            exact List.eq_of_mem_replicate hall
      | some commit =>
        simp only [ih, true_and, Option.toList_some, List.singleton_append]
        constructor
        · rintro ⟨done, waiting, hsplit, rfl⟩
          exact ⟨commit :: done, waiting, by rw [hsplit]; rfl, by cases done <;> rfl⟩
        · rintro ⟨done, waiting, hsplit, rfl⟩
          cases done with
          | nil =>
            cases waiting with
            | zero => cases hsplit
            | succ n => cases hsplit
          | cons first done =>
            rw [List.map_cons, List.cons_append, List.cons.injEq] at hsplit
            cases hsplit.1
            exact ⟨done, waiting, hsplit.2, by cases done <;> rfl⟩

/-- A step record a completed run may hold. -/
def CompletedRecord (run : WorkflowRunState) (plan : WorkflowPlan) (stepId : String)
    (record : WorkflowStepRecord) : Prop :=
  record.state = .succeeded ∧ ∀ definition, definitionOf plan stepId = some definition →
    stepRequiresIntegration run.capabilityProfiles definition = false ∨
      record.integratedCommit ≠ none

/-- The conditions on the integration record of a run. -/
structure IntegrationAccepted (run : WorkflowRunState) (plan : WorkflowPlan) : Prop where
  integrated : IntegratedPrefix (commitsAlong run plan (topologicalStepIds plan)) run.baseCommit
    run.integrationHead
  branch : (plan.steps.any (stepRequiresIntegration run.capabilityProfiles)) = false ∨
    run.integrationBranch ≠ run.baseBranch
  completed : run.state = .completed → ∀ stepId record, run.steps.get? stepId = some record →
    CompletedRecord run plan stepId record

private theorem validateCompletedStep_ok_iff {run : WorkflowRunState} {plan : WorkflowPlan}
    {stepId : String} {record : WorkflowStepRecord} :
    validateCompletedStep run plan stepId record = .ok () ↔
      CompletedRecord run plan stepId record := by
  have hdefinition : (plan.steps.find? fun step => step.id = stepId) = definitionOf plan stepId := rfl
  rw [validateCompletedStep, seq_ok_iff, ensure_ok_iff, CompletedRecord, hdefinition]
  cases definitionOf plan stepId with
  | none => simp [pure, Except.pure]
  | some definition => simp

/-- The integration check is the conditions on the integration record. -/
theorem validateStoredIntegration_ok_iff {run : WorkflowRunState} {plan : WorkflowPlan} :
    validateStoredIntegration run plan = .ok () ↔ IntegrationAccepted run plan := by
  simp only [validateStoredIntegration, bind_ok_iff, exists_unit_iff, ensure_ok_iff,
    validateIntegratedPrefix_ok_iff]
  constructor
  · rintro ⟨_, hbeginning, rfl, hbranch, hdone⟩
    refine ⟨hbeginning, hbranch, ?_⟩
    intro hstate stepId record hrecord
    rw [if_pos hstate, forM_ok_iff] at hdone
    rw [← validateCompletedStep_ok_iff]
    exact hdone (stepId, record) ((run.steps.mem_entries_iff stepId record).mpr hrecord)
  · rintro ⟨hbeginning, hbranch, hdone⟩
    refine ⟨_, hbeginning, rfl, hbranch, ?_⟩
    by_cases hstate : run.state = .completed
    · rw [if_pos hstate, forM_ok_iff]
      intro entry hentry
      apply validateCompletedStep_ok_iff.mpr
      exact hdone hstate entry.1 entry.2 ((run.steps.mem_entries_iff entry.1 entry.2).mp hentry)
    · rw [if_neg hstate]
      rfl

/-! ## The run -/

/-- The conditions on the texts of a run that name it and its place in git. -/
structure HeaderAccepted (run : WorkflowRunState) : Prop where
  id_ne : run.id ≠ ""
  id_safe : isSafeRunId run.id
  repositoryRoot : run.repositoryRoot ≠ ""
  baseBranch : run.baseBranch ≠ ""
  baseCommit : run.baseCommit ≠ ""
  integrationBranch : run.integrationBranch ≠ ""
  integrationHead : run.integrationHead ≠ ""
  createdAt : run.createdAt ≠ ""
  updatedAt : run.updatedAt ≠ ""

/-- The complete conditions on a stored run, with the plan its document reads as. -/
structure RunAccepted (sha256Hex : String → String) (run : WorkflowRunState) (plan : WorkflowPlan) :
    Prop where
  header : HeaderAccepted run
  reads : validateWorkflowPlan run.plan.toJson = .ok plan
  profiles : assertCapabilityProfiles run.capabilityProfiles "run.capabilityProfiles" = .ok ()
  authority : validateRunAuthority sha256Hex run plan = .ok ()
  workers_pos : 1 ≤ run.maxConcurrentWorkers
  workers_le : run.maxConcurrentWorkers ≤ maxConcurrentWorkersLimit
  steps : StepsAccepted run plan
  attempts : AttemptsAccepted run plan
  integration : IntegrationAccepted run plan
  events : EventsAccepted run

/-- The complete check is the complete conditions. -/
theorem accepts_iff {sha256Hex : String → String} {run : WorkflowRunState} :
    Accepts sha256Hex run ↔ ∃ plan, RunAccepted sha256Hex run plan := by
  simp only [Accepts, validateRun, assertString, bind_ok_iff, exists_unit_iff, ensure_ok_iff,
    validateStoredSteps_ok_iff, validateStoredAttempts_ok_iff, validateStoredIntegration_ok_iff,
    validateStoredEvents_ok_iff]
  constructor
  · rintro ⟨hid, hsafe, hroot, hbase, hbaseCommit, hbranch, hhead, hcreated, hupdated, plan, hplan,
      hprofiles, hauthority, ⟨hpos, hle⟩, hsteps, hattempts, hintegration, hevents⟩
    exact ⟨plan, ⟨hid, hsafe, hroot, hbase, hbaseCommit, hbranch, hhead, hcreated, hupdated⟩, hplan,
      hprofiles, hauthority, hpos, hle, hsteps, hattempts, hintegration, hevents⟩
  · rintro ⟨plan, ⟨hid, hsafe, hroot, hbase, hbaseCommit, hbranch, hhead, hcreated, hupdated⟩, hplan,
      hprofiles, hauthority, hpos, hle, hsteps, hattempts, hintegration, hevents⟩
    exact ⟨hid, hsafe, hroot, hbase, hbaseCommit, hbranch, hhead, hcreated, hupdated, plan, hplan,
      hprofiles, hauthority, ⟨hpos, hle⟩, hsteps, hattempts, hintegration, hevents⟩

end BuildConductor.Storage
