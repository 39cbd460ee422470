import BuildConductor.Lifecycle.Settlement
import BuildConductor.Lifecycle.System

/-!
# What each transaction writes

One lemma for each transaction names every part of the run a successful write rewrites. The
proofs about runs use these and never unfold a transaction. Supports
`src/src/engine/engine.ts:141-723`, `src/src/engine/recovery.ts:248-377`,
`src/src/engine/admission.ts:116-179`, `src/src/workflows/change-run.ts:357-480`.
-/

namespace BuildConductor.Lifecycle

open Base Domain Security Engine Workflows Storage

/-! ## The shape of a write -/

/-- The entries appended by a write carry integers that are safe, or under a bound. -/
structure Appends (now : Timestamp) (bound : Nat) (run next : WorkflowRunState)
    (bodies : List WorkflowEventBody) : Prop where
  integers : ∀ body ∈ bodies, ∀ field ∈ WorkflowEventBody.integers body,
    field.2 ≤ maxSafeInteger ∨ field.2 ≤ bound
  events : next.events = (appendWorkflowEvents run bodies now).events
  eventSequence : next.eventSequence = run.eventSequence + bodies.length
  droppedEvents : next.droppedEvents = (appendWorkflowEvents run bodies now).droppedEvents

/-- A write that leaves the header and the plan, and rewrites the parts named. -/
structure Rewrites (now : Timestamp) (bound : Nat) (run next : WorkflowRunState)
    (state : WorkflowRunLifecycleState) (steps : OrderedRecord String WorkflowStepRecord)
    (attempts : List WorkflowStepAttempt) (head : String) : Prop where
  header : SameHeader run next
  plan : next.plan = run.plan
  updatedAt : next.updatedAt = now.text ∨ next.updatedAt = run.updatedAt
  timeline : ∃ bodies, Appends now bound run next bodies
  state : next.state = state
  steps : next.steps = steps
  attempts : next.attempts = attempts
  integrationHead : next.integrationHead = head

/-- The step records after a reconciliation under the plan of a run. -/
def reconciledSteps (run : WorkflowRunState) (steps : OrderedRecord String WorkflowStepRecord) :
    OrderedRecord String WorkflowStepRecord :=
  (reconcileWorkflowSteps { run with steps }).steps

theorem Appends.append {now : Timestamp} {bound : Nat} {run base : WorkflowRunState}
    {bodies : List WorkflowEventBody} (hevents : base.events = run.events)
    (hsequence : base.eventSequence = run.eventSequence)
    (hdropped : base.droppedEvents = run.droppedEvents)
    (hintegers : ∀ body ∈ bodies, ∀ field ∈ WorkflowEventBody.integers body,
      field.2 ≤ maxSafeInteger ∨ field.2 ≤ bound) :
    Appends now bound run (appendWorkflowEvents base bodies now) bodies := by
  refine ⟨hintegers, ?_, ?_, ?_⟩
  · unfold appendWorkflowEvents
    split
    · exact hevents
    · simp only [hevents, hsequence]
  · rw [appendWorkflowEvents_eventSequence, hsequence]
  · unfold appendWorkflowEvents
    split
    · exact hdropped
    · simp only [hevents, hsequence, hdropped]

/-- What every write that keeps the plan leaves alone before it appends its entries. -/
structure Untouched (now : Timestamp) (run base : WorkflowRunState) : Prop where
  header : SameHeader run base
  plan : base.plan = run.plan
  updatedAt : base.updatedAt = now.text ∨ base.updatedAt = run.updatedAt
  events : base.events = run.events
  eventSequence : base.eventSequence = run.eventSequence
  droppedEvents : base.droppedEvents = run.droppedEvents

/-- A write that appends to a rewritten run. -/
private theorem Rewrites.append {now : Timestamp} {bound : Nat} {run base : WorkflowRunState}
    {bodies : List WorkflowEventBody} (h : Untouched now run base)
    (hintegers : ∀ body ∈ bodies, ∀ field ∈ WorkflowEventBody.integers body,
      field.2 ≤ maxSafeInteger ∨ field.2 ≤ bound) :
    Rewrites now bound run (appendWorkflowEvents base bodies now) base.state base.steps base.attempts
      base.integrationHead where
  header := h.header.append bodies now
  plan := by rw [appendWorkflowEvents_plan, h.plan]
  updatedAt := by rw [appendWorkflowEvents_updatedAt]; exact h.updatedAt
  timeline := ⟨bodies, Appends.append h.events h.eventSequence h.droppedEvents hintegers⟩
  state := appendWorkflowEvents_state ..
  steps := appendWorkflowEvents_steps ..
  attempts := appendWorkflowEvents_attempts ..
  integrationHead := appendWorkflowEvents_integrationHead ..

/-- A write that changes nothing. -/
theorem Rewrites.refl (now : Timestamp) (bound : Nat) (run : WorkflowRunState) :
    Rewrites now bound run run run.state run.steps run.attempts run.integrationHead where
  header := SameHeader.refl run
  plan := rfl
  updatedAt := Or.inr rfl
  timeline := ⟨[], by simp, rfl, rfl, rfl⟩
  state := rfl
  steps := rfl
  attempts := rfl
  integrationHead := rfl

/-! ## Entries without large integers -/

private theorem blockedStepEvents_integers {previous next : WorkflowRunState} {bound : Nat} :
    ∀ body ∈ blockedStepEvents previous next, ∀ field ∈ WorkflowEventBody.integers body,
      field.2 ≤ maxSafeInteger ∨ field.2 ≤ bound := by
  intro body hbody field hfield
  unfold blockedStepEvents at hbody
  obtain ⟨⟨stepId, record⟩, -, hentry⟩ := List.mem_flatMap.mp hbody
  dsimp only at hentry
  split at hentry
  · cases hentry
  · rw [List.mem_singleton] at hentry
    rw [hentry] at hfield
    cases hfield

private theorem integers_append {left right : List WorkflowEventBody} {bound : Nat}
    (hleft : ∀ body ∈ left, ∀ field ∈ WorkflowEventBody.integers body,
      field.2 ≤ maxSafeInteger ∨ field.2 ≤ bound)
    (hright : ∀ body ∈ right, ∀ field ∈ WorkflowEventBody.integers body,
      field.2 ≤ maxSafeInteger ∨ field.2 ≤ bound) :
    ∀ body ∈ left ++ right, ∀ field ∈ WorkflowEventBody.integers body,
      field.2 ≤ maxSafeInteger ∨ field.2 ≤ bound := by
  intro body hbody
  rcases List.mem_append.mp hbody with h | h
  · exact hleft body h
  · exact hright body h

private theorem settlementEvents_integers {stepId : String} {attempt : WorkflowStepAttempt}
    {outcome : StepOutcome} {classification : Option StepFailureClassification}
    {summaries : List ArtifactSummary} :
    ∀ body ∈ settlementEvents stepId attempt outcome classification summaries,
      ∀ field ∈ WorkflowEventBody.integers body,
        field.2 ≤ maxSafeInteger ∨ field.2 ≤ attempt.number + 1 := by
  have hpublished : ∀ body ∈ summaries.map (fun summary =>
        WorkflowEventBody.artifactPublished stepId attempt.id summary.id summary.output summary.kind
          summary.sizeBytes), ∀ field ∈ WorkflowEventBody.integers body,
        field.2 ≤ maxSafeInteger ∨ field.2 ≤ attempt.number + 1 := by
    intro body hbody field hfield
    obtain ⟨summary, -, rfl⟩ := List.mem_map.mp hbody
    rw [WorkflowEventBody.integers, List.mem_singleton] at hfield
    rw [hfield]
    exact Or.inl summary.sizeBytes_safe
  unfold settlementEvents
  cases outcome with
  | succeeded summary workerId commit evidence =>
    apply integers_append hpublished
    intro body hbody field hfield
    rw [List.mem_singleton] at hbody
    rw [hbody] at hfield
    cases hfield
  | cancelled error workerId =>
    apply integers_append hpublished
    intro body hbody field hfield
    rw [List.mem_singleton] at hbody
    rw [hbody] at hfield
    cases hfield
  | failed error workerId retryable =>
    apply integers_append (integers_append hpublished _)
    · intro body hbody field hfield
      split at hbody
      · rw [List.mem_singleton] at hbody
        rw [hbody, WorkflowEventBody.integers, List.mem_singleton] at hfield
        rw [hfield]
        exact Or.inr (Nat.le_refl _)
      · cases hbody
    · intro body hbody field hfield
      rw [List.mem_singleton] at hbody
      rw [hbody] at hfield
      cases hfield

/-! ## Launches and settlements -/

/-- The outcome a settlement records, once the artifacts are routed. -/
def settledOutcome (executed : StepExecutionResult)
    (routing : Except RoutingFailure (List ArtifactSummary)) : StepOutcome :=
  (routedOutcome executed.outcome routing).1

/-- Whether a settlement schedules another attempt of the step. -/
def settlementRetries (definition : StepDefinition) (attempt : WorkflowStepAttempt)
    (executed : StepExecutionResult) (routing : Except RoutingFailure (List ArtifactSummary)) :
    Bool :=
  (classifyStepFailure (settledOutcome executed routing) executed.timedOut attempt.number
    (stepRetryPolicy definition).maxAttempts).map (·.failureClass) = some .retryable

/-- Only a failure is ever retried. -/
theorem settlementRetries_failed {definition : StepDefinition} {attempt : WorkflowStepAttempt}
    {executed : StepExecutionResult} {routing : Except RoutingFailure (List ArtifactSummary)}
    (h : settlementRetries definition attempt executed routing = true) :
    ∃ error workerId retryable, settledOutcome executed routing = .failed error workerId retryable := by
  unfold settlementRetries classifyStepFailure at h
  cases houtcome : settledOutcome executed routing with
  | succeeded summary workerId commit evidence => simp [houtcome] at h
  | failed error workerId retryable => exact ⟨error, workerId, retryable, rfl⟩
  | cancelled error workerId => simp [houtcome] at h

section Specs

variable {run next : WorkflowRunState} {now : Timestamp}

/-- A cancellation request appends one entry. -/
theorem requestCancellation_rewrites (reason : String) (now : Timestamp) (run : WorkflowRunState) :
    Rewrites now 0 run (requestCancellation reason now run) run.state run.steps run.attempts
      run.integrationHead := by
  apply Rewrites.append ⟨SameHeader.refl run, rfl, Or.inr rfl, rfl, rfl, rfl⟩
  intro body hbody field hfield
  rw [List.mem_singleton] at hbody
  rw [hbody] at hfield
  cases hfield

/-- The record of a step whose attempt is reserved. -/
def reservedRecord (record : WorkflowStepRecord) (attemptId : String) : WorkflowStepRecord :=
  { record with state := .running, attemptIds := record.attemptIds ++ [attemptId] }

/-- The reservation either finds the step no longer launchable and writes nothing, or starts it. -/
theorem reserveAttempt_ok {attempt : WorkflowStepAttempt}
    (h : reserveAttempt attempt now run = .ok next) :
    (attempt.stepId ∉ launchableStepIds run ∧ next = run) ∨
      (attempt.stepId ∈ launchableStepIds run ∧ ∃ record,
        run.steps.get? attempt.stepId = some record ∧
        Rewrites now attempt.number run next run.state
          (run.steps.set attempt.stepId (reservedRecord record attempt.id))
          (run.attempts ++ [attempt]) run.integrationHead) := by
  unfold reserveAttempt at h
  split at h
  · next hlaunchable =>
    left
    exact ⟨hlaunchable, (Except.ok.inj h).symm⟩
  · next hlaunchable =>
    right
    refine ⟨Decidable.not_not.mp hlaunchable, ?_⟩
    rw [bind_ok_iff] at h
    obtain ⟨updated, hupdated, hnext⟩ := h
    obtain ⟨record, hrecord, rfl⟩ := updateStep_ok_iff.mp hupdated
    refine ⟨record, hrecord, ?_⟩
    rw [← Except.ok.inj hnext]
    apply Rewrites.append
    · exact ⟨⟨rfl, rfl, rfl, rfl, rfl, rfl, rfl, rfl, rfl⟩, rfl, Or.inl rfl, rfl, rfl, rfl⟩
    · intro body hbody field hfield
      rw [List.mem_singleton] at hbody
      rw [hbody, WorkflowEventBody.integers, List.mem_singleton] at hfield
      rw [hfield]
      exact Or.inr (Nat.le_refl _)

/-- Update the attempts with an id. -/
def updateAttempts (attempts : List WorkflowStepAttempt) (attemptId : String)
    (update : WorkflowStepAttempt → WorkflowStepAttempt) : List WorkflowStepAttempt :=
  attempts.map fun attempt => if attempt.id = attemptId then update attempt else attempt

/-- Marking an attempt running touches that attempt only. -/
theorem markAttemptRunning_rewrites (attemptId : String) (now : Timestamp) (run : WorkflowRunState) :
    Rewrites now 0 run (markAttemptRunning attemptId now run) run.state run.steps
      (updateAttempts run.attempts attemptId fun attempt => { attempt with state := .running })
      run.integrationHead where
  header := ⟨rfl, rfl, rfl, rfl, rfl, rfl, rfl, rfl, rfl⟩
  plan := rfl
  updatedAt := Or.inl rfl
  timeline := ⟨[], by simp, rfl, rfl, rfl⟩
  state := rfl
  steps := rfl
  attempts := rfl
  integrationHead := rfl

/-- Recording a worker touches that attempt only. -/
theorem recordWorker_rewrites (attemptId workerId : String) (now : Timestamp)
    (run : WorkflowRunState) :
    Rewrites now 0 run (recordWorker attemptId workerId now run) run.state run.steps
      (updateAttempts run.attempts attemptId fun attempt => { attempt with workerId := some workerId })
      run.integrationHead where
  header := ⟨rfl, rfl, rfl, rfl, rfl, rfl, rfl, rfl, rfl⟩
  plan := rfl
  updatedAt := Or.inl rfl
  timeline := ⟨[], by simp, rfl, rfl, rfl⟩
  state := rfl
  steps := rfl
  attempts := rfl
  integrationHead := rfl

/-- A settlement finishes the attempt and its step, and reconciles. -/
theorem settleStep_ok {stepId : String} {attempt : WorkflowStepAttempt}
    {executed : StepExecutionResult} {routing : Except RoutingFailure (List ArtifactSummary)}
    (h : settleStep stepId attempt executed routing now run = .ok next) :
    ∃ record artifactIds, run.steps.get? stepId = some record ∧
      Rewrites now (attempt.number + 1) run next
        (settledLifecycle run.state (settledOutcome executed routing)
          (settlementRetries record.definition attempt executed routing))
        (reconciledSteps run (run.steps.set stepId
          (settledRecord (settledOutcome executed routing)
            (settlementRetries record.definition attempt executed routing) record)))
        (updateAttempts run.attempts attempt.id
          (settledAttempt (settledOutcome executed routing) executed artifactIds))
        run.integrationHead := by
  unfold settleStep at h
  rw [bind_ok_iff] at h
  obtain ⟨record, hrecord, h⟩ := h
  rw [bind_ok_iff] at h
  obtain ⟨updated, hupdated, hnext⟩ := h
  have hget : run.steps.get? stepId = some record := require_ok_iff.mp hrecord
  obtain ⟨found, hfound, rfl⟩ := updateStep_ok_iff.mp hupdated
  have hsame : found = record := by
    rw [show (updateStepAttempt run attempt.id _).steps.get? stepId = run.steps.get? stepId from rfl,
      hget, Option.some.injEq] at hfound
    exact hfound.symm
  subst hsame
  refine ⟨found, (routedOutcome executed.outcome routing).2.map (·.id), hget, ?_⟩
  rw [← Except.ok.inj hnext]
  apply Rewrites.append
  · exact ⟨⟨rfl, rfl, rfl, rfl, rfl, rfl, rfl, rfl, rfl⟩, rfl, Or.inl rfl, rfl, rfl, rfl⟩
  · exact integers_append settlementEvents_integers blockedStepEvents_integers

/-- A step that could not start fails, and the run with it unless it was cancelled. -/
theorem failStep_ok {stepId message : String} (h : failStep stepId message now run = .ok next) :
    ∃ record, run.steps.get? stepId = some record ∧
      Rewrites now 0 run next (if run.state = .cancelled then run.state else .failed)
        (reconciledSteps run (run.steps.set stepId
          { record with state := .failed, error := some message }))
        run.attempts run.integrationHead := by
  unfold failStep at h
  rw [bind_ok_iff] at h
  obtain ⟨updated, hupdated, hnext⟩ := h
  obtain ⟨record, hrecord, rfl⟩ := updateStep_ok_iff.mp hupdated
  refine ⟨record, hrecord, ?_⟩
  rw [← Except.ok.inj hnext]
  apply Rewrites.append
  · exact ⟨⟨rfl, rfl, rfl, rfl, rfl, rfl, rfl, rfl, rfl⟩, rfl, Or.inl rfl, rfl, rfl, rfl⟩
  · intro body hbody field hfield
    rcases List.mem_cons.mp hbody with rfl | hblocked
    · cases hfield
    · exact blockedStepEvents_integers body hblocked field hfield

/-! ## Integrations -/

/-- An integrated step records its commit, which becomes the head. -/
theorem recordIntegration_ok {ticket : IntegrationTicket} {commit : String}
    (h : recordIntegration ticket commit now run = .ok next) :
    ∃ record, run.steps.get? ticket.stepId = some record ∧
      Rewrites now 0 run next run.state
        (reconciledSteps run (run.steps.set ticket.stepId
          { record with integratedCommit := some commit }))
        run.attempts commit := by
  unfold recordIntegration at h
  rw [bind_ok_iff] at h
  obtain ⟨updated, hupdated, hnext⟩ := h
  obtain ⟨record, hrecord, rfl⟩ := updateStep_ok_iff.mp hupdated
  refine ⟨record, hrecord, ?_⟩
  rw [← Except.ok.inj hnext]
  apply Rewrites.append
  · exact ⟨⟨rfl, rfl, rfl, rfl, rfl, rfl, rfl, rfl, rfl⟩, rfl, Or.inl rfl, rfl, rfl, rfl⟩
  · intro body hbody field hfield
    rw [List.mem_singleton] at hbody
    rw [hbody] at hfield
    cases hfield

/-- A step that could not be integrated fails, and the run with it. -/
theorem recordIntegrationFailure_ok {ticket : IntegrationTicket} {error : String}
    (h : recordIntegrationFailure ticket error now run = .ok next) :
    ∃ record, run.steps.get? ticket.stepId = some record ∧
      Rewrites now 0 run next .failed
        (reconciledSteps run (run.steps.set ticket.stepId
          { record with
            state := .failed
            integrationError := some (integrationFailureMessage ticket.stepId error) }))
        run.attempts run.integrationHead := by
  unfold recordIntegrationFailure at h
  rw [bind_ok_iff] at h
  obtain ⟨updated, hupdated, hnext⟩ := h
  obtain ⟨record, hrecord, rfl⟩ := updateStep_ok_iff.mp hupdated
  refine ⟨record, hrecord, ?_⟩
  rw [← Except.ok.inj hnext]
  apply Rewrites.append
  · exact ⟨⟨rfl, rfl, rfl, rfl, rfl, rfl, rfl, rfl, rfl⟩, rfl, Or.inl rfl, rfl, rfl, rfl⟩
  · intro body hbody field hfield
    rcases List.mem_cons.mp hbody with rfl | hblocked
    · cases hfield
    · exact blockedStepEvents_integers body hblocked field hfield

/-! ## Recovery -/

/-- What recovering one attempt does to it and to its step. -/
inductive Settles (now : Timestamp) (decision : InterruptedAttemptDecision)
    (interrupted : WorkflowStepAttempt) (definition : StepDefinition) :
    (WorkflowStepAttempt → WorkflowStepAttempt) → (WorkflowStepRecord → WorkflowStepRecord) →
    RecoveryOutcome → Prop
  | adopted {commit} : present decision.commit = some commit →
      Settles now decision interrupted definition
        (fun attempt => { attempt with
          state := .succeeded
          finishedAt := some now.text
          commit := some commit
          evidence := decision.evidence.or attempt.evidence
          artifactIds :=
            if decision.artifactIds = [] then attempt.artifactIds else some decision.artifactIds })
        (fun record => { record with state := .succeeded }) (.adoptedCommit commit)
  | retried {reason} : present decision.commit = none → decision.blockedReason = none →
      interrupted.number < (stepRetryPolicy definition).maxAttempts →
      Settles now decision interrupted definition
        (fun attempt => { attempt with
          state := .interrupted, finishedAt := some now.text, error := some reason })
        (fun record => { record with state := .ready }) .retryScheduled
  | failed {reason} : present decision.commit = none →
      ¬ (decision.blockedReason = none ∧
        interrupted.number < (stepRetryPolicy definition).maxAttempts) →
      Settles now decision interrupted definition
        (fun attempt => { attempt with
          state := .interrupted, finishedAt := some now.text, error := some reason })
        (fun record => { record with state := .failed, error := some reason }) .failed

/-- Recovering one attempt settles it and its step, and notes the outcome. -/
theorem recoverAttempt_ok {decide : WorkflowStepAttempt → InterruptedAttemptDecision}
    {progress later : RecoveryProgress} {attempt : WorkflowStepAttempt}
    (h : recoverAttempt decide now progress attempt = .ok later) :
    ∃ record settleAttempt settleRecord outcome bodies,
      progress.next.steps.get? attempt.stepId = some record ∧
      Settles now (decide attempt) attempt record.definition settleAttempt settleRecord outcome ∧
      later.next = { progress.next with
        steps := progress.next.steps.set attempt.stepId (settleRecord record)
        attempts := updateAttempts progress.next.attempts attempt.id settleAttempt } ∧
      later.recovered = progress.recovered ++ [⟨attempt.id, attempt.stepId, outcome⟩] ∧
      later.events = progress.events ++ bodies ∧ bodies ≠ [] ∧
      ∀ body ∈ bodies, ∀ field ∈ WorkflowEventBody.integers body, field.2 ≤ attempt.number + 1 := by
  unfold recoverAttempt at h
  rw [bind_ok_iff] at h
  obtain ⟨record, hrecord, h⟩ := h
  have hget : progress.next.steps.get? attempt.stepId = some record := require_ok_iff.mp hrecord
  split at h
  · next commit hcommit =>
    rw [bind_ok_iff] at h
    obtain ⟨updated, hupdated, hlater⟩ := h
    obtain ⟨found, hfound, rfl⟩ := updateStep_ok_iff.mp hupdated
    have hsame : found = record := by
      rw [show (updateStepAttempt progress.next attempt.id _).steps.get? attempt.stepId =
        progress.next.steps.get? attempt.stepId from rfl, hget, Option.some.injEq] at hfound
      exact hfound.symm
    subst hsame
    rw [← Except.ok.inj hlater]
    refine ⟨found, _, _, _, _, hget, .adopted hcommit, rfl, rfl, rfl, by simp, ?_⟩
    intro body hbody field hfield
    rw [List.mem_singleton] at hbody
    rw [hbody] at hfield
    cases hfield
  · next hcommit =>
    rw [bind_ok_iff] at h
    obtain ⟨updated, hupdated, hlater⟩ := h
    obtain ⟨found, hfound, rfl⟩ := updateStep_ok_iff.mp hupdated
    have hsame : found = record := by
      rw [show (updateStepAttempt progress.next attempt.id _).steps.get? attempt.stepId =
        progress.next.steps.get? attempt.stepId from rfl, hget, Option.some.injEq] at hfound
      exact hfound.symm
    subst hsame
    rw [← Except.ok.inj hlater]
    by_cases hretry : (decide attempt).blockedReason = none ∧
        attempt.number < (stepRetryPolicy found.definition).maxAttempts
    · refine ⟨found, _, _, .retryScheduled, _, hget,
        @Settles.retried _ _ _ _ (interruptionReason (decide attempt)) hcommit hretry.1 hretry.2,
        ?_, ?_,
        List.append_assoc .., by simp, ?_⟩
      · simp [hretry, updateStepAttempt, updateAttempts]
      · simp [hretry]
      · intro body hbody field hfield
        simp only [hretry, decide_eq_true_eq, and_self, if_true, List.cons_append,
          List.nil_append, List.mem_cons, List.not_mem_nil, or_false] at hbody
        rcases hbody with rfl | rfl
        · cases hfield
        · rw [WorkflowEventBody.integers, List.mem_singleton] at hfield
          rw [hfield]
    · refine ⟨found, _, _, .failed, _, hget,
        @Settles.failed _ _ _ _ (interruptionReason (decide attempt)) hcommit hretry, ?_, ?_,
        List.append_assoc .., by simp, ?_⟩
      · simp [hretry, updateStepAttempt, updateAttempts]
      · simp [hretry]
      · intro body hbody field hfield
        simp only [hretry, decide_eq_true_eq, if_false, List.append_nil,
          List.mem_singleton] at hbody
        rw [hbody] at hfield
        cases hfield

/-- Records and attempts after recovering some attempts one by one. -/
inductive Recovers (now : Timestamp) (decision : WorkflowStepAttempt → InterruptedAttemptDecision)
    (run : WorkflowRunState) : List WorkflowStepAttempt → OrderedRecord String WorkflowStepRecord →
    List WorkflowStepAttempt → List RecoveredAttempt → Prop
  | nil : Recovers now decision run [] run.steps run.attempts []
  | snoc {done steps attempts recovered attempt record settleAttempt settleRecord outcome} :
      Recovers now decision run done steps attempts recovered →
      steps.get? attempt.stepId = some record →
      Settles now (decision attempt) attempt record.definition settleAttempt settleRecord outcome →
      Recovers now decision run (done ++ [attempt])
        (steps.set attempt.stepId (settleRecord record))
        (updateAttempts attempts attempt.id settleAttempt)
        (recovered ++ [⟨attempt.id, attempt.stepId, outcome⟩])

private theorem foldlM_recoverAttempt
    {decide : WorkflowStepAttempt → InterruptedAttemptDecision} {bound : Nat}
    {done xs : List WorkflowStepAttempt} {progress later : RecoveryProgress}
    (hbound : ∀ attempt ∈ xs, attempt.number + 1 ≤ bound)
    (hrecovers : Recovers now decide run done progress.next.steps progress.next.attempts
      progress.recovered)
    (hframe : progress.next = { run with
      steps := progress.next.steps, attempts := progress.next.attempts })
    (h : xs.foldlM (recoverAttempt decide now) progress = .ok later) :
    Recovers now decide run (done ++ xs) later.next.steps later.next.attempts later.recovered ∧
      later.next = { run with steps := later.next.steps, attempts := later.next.attempts } ∧
      ∃ bodies, later.events = progress.events ++ bodies ∧ (xs ≠ [] → bodies ≠ []) ∧
        ∀ body ∈ bodies, ∀ field ∈ WorkflowEventBody.integers body, field.2 ≤ bound := by
  induction xs generalizing done progress with
  | nil =>
    rw [List.foldlM_nil] at h
    cases h
    rw [List.append_nil]
    exact ⟨hrecovers, hframe, [], by simp, by simp, by simp⟩
  | cons attempt rest ih =>
    rw [List.foldlM_cons, bind_ok_iff] at h
    obtain ⟨middle, hmiddle, hrest⟩ := h
    obtain ⟨record, settleAttempt, settleRecord, outcome, bodies, hrecord, hsettles, hnext,
      hrecovered, hevents, hne, hintegers⟩ := recoverAttempt_ok hmiddle
    have hstep : Recovers now decide run (done ++ [attempt]) middle.next.steps middle.next.attempts
        middle.recovered := by
      rw [hnext, hrecovered]
      exact .snoc hrecovers hrecord hsettles
    have hmiddleFrame : middle.next = { run with
        steps := middle.next.steps, attempts := middle.next.attempts } := by
      rw [hnext, hframe]
    obtain ⟨hall, hlater, bodies', hevents', -, hintegers'⟩ :=
      ih (fun x hx => hbound x (List.mem_cons_of_mem _ hx)) hstep hmiddleFrame hrest
    rw [List.append_assoc] at hall
    refine ⟨hall, hlater, bodies ++ bodies', ?_, ?_, ?_⟩
    · rw [hevents', hevents, List.append_assoc]
    · intro _ hnil
      exact hne (List.append_eq_nil_iff.mp hnil).1
    · intro body hbody field hfield
      rcases List.mem_append.mp hbody with hold | hnew
      · have hle := hintegers body hold field hfield
        have hattempt := hbound attempt (List.mem_cons_self ..)
        omega
      · exact hintegers' body hnew field hfield

/-- The steps with every blocked one planned again. -/
def unblocked (steps : OrderedRecord String WorkflowStepRecord) :
    OrderedRecord String WorkflowStepRecord :=
  steps.mapValues fun _ record =>
    if record.state = .blocked then { record with state := .planned } else record

/-- A recovery settles every active attempt, unblocks and reconciles; a run without an active
attempt is left as it is. -/
theorem recoverWorkflowRun_ok {decide : WorkflowStepAttempt → InterruptedAttemptDecision}
    {recovered : List RecoveredAttempt} {bound : Nat}
    (hbound : ∀ attempt ∈ activeAttempts run, attempt.number + 1 ≤ bound)
    (h : recoverWorkflowRun decide now run = .ok (next, recovered)) :
    ∃ steps attempts, Recovers now decide run (activeAttempts run) steps attempts recovered ∧
      ((activeAttempts run = [] ∧ next = run) ∨
        (activeAttempts run ≠ [] ∧
          Rewrites now bound run next
            (recoveredLifecycle run.state (reconciledSteps run (unblocked steps)))
            (reconciledSteps run (unblocked steps)) attempts run.integrationHead)) := by
  unfold recoverWorkflowRun at h
  rw [bind_ok_iff] at h
  obtain ⟨progress, hprogress, hnext⟩ := h
  obtain ⟨hrecovers, hframe, bodies, hevents, hne, hintegers⟩ :=
    foldlM_recoverAttempt hbound .nil rfl hprogress
  rw [List.nil_append] at hrecovers hevents
  refine ⟨progress.next.steps, progress.next.attempts, ?_⟩
  split at hnext
  · next hempty =>
    cases hnext
    have hnone : activeAttempts run = [] := by
      by_contra hsome
      exact hne hsome (hevents.symm.trans hempty)
    exact ⟨hrecovers, Or.inl ⟨hnone, rfl⟩⟩
  · next hsome =>
    have hrecovered : progress.recovered = recovered := by
      cases hnext
      rfl
    rw [hrecovered] at hrecovers
    refine ⟨hrecovers, Or.inr ⟨?_, ?_⟩⟩
    · intro hnil
      rw [hnil] at hprogress
      cases hprogress
      exact hsome rfl
    · have hwritten := congrArg Prod.fst (Except.ok.inj hnext)
      dsimp only at hwritten
      rw [← hwritten, hframe]
      apply Rewrites.append
      · exact ⟨⟨rfl, rfl, rfl, rfl, rfl, rfl, rfl, rfl, rfl⟩, rfl, Or.inl rfl, rfl, rfl, rfl⟩
      · apply integers_append _ blockedStepEvents_integers
        intro body hbody field hfield
        rw [hevents] at hbody
        exact Or.inr (hintegers body hbody field hfield)

/-- Some number bounds the numbers that follow those of a list of attempts. -/
theorem exists_number_bound (attempts : List WorkflowStepAttempt) :
    ∃ bound, ∀ attempt ∈ attempts, attempt.number + 1 ≤ bound := by
  induction attempts with
  | nil => exact ⟨0, by simp⟩
  | cons attempt rest ih =>
    obtain ⟨bound, hbound⟩ := ih
    refine ⟨max bound (attempt.number + 1), ?_⟩
    intro x hx
    rcases List.mem_cons.mp hx with rfl | hx
    · omega
    · have hle := hbound x hx
      omega

/-- Some number bounds the numbers of the next attempts of a run. -/
theorem exists_attemptIds_bound (run : WorkflowRunState) :
    ∃ bound, ∀ stepId record, run.steps.get? stepId = some record →
      record.attemptIds.length + 1 ≤ bound := by
  have hlist : ∀ records : List WorkflowStepRecord,
      ∃ bound, ∀ record ∈ records, record.attemptIds.length + 1 ≤ bound := by
    intro records
    induction records with
    | nil => exact ⟨0, by simp⟩
    | cons record rest ih =>
      obtain ⟨bound, hbound⟩ := ih
      refine ⟨max bound (record.attemptIds.length + 1), ?_⟩
      intro x hx
      rcases List.mem_cons.mp hx with rfl | hx
      · omega
      · have hle := hbound x hx
        omega
  obtain ⟨bound, hbound⟩ := hlist run.steps.values
  refine ⟨bound, ?_⟩
  intro stepId record hrecord
  exact hbound record ((OrderedRecord.mem_values_iff _ _).mpr ⟨stepId, hrecord⟩)

/-! ## Reopening -/

/-- The steps with every blocked one, and every failed one among some, planned again. -/
def relaunchedSteps (stopped : List String) (steps : OrderedRecord String WorkflowStepRecord) :
    OrderedRecord String WorkflowStepRecord :=
  steps.mapValues fun stepId record =>
    if record.state = .blocked ∨ (record.state = .failed ∧ stepId ∈ stopped) then
      { record with state := .planned, error := none }
    else record

/-- The steps with every failed or blocked one planned again. -/
def retriedSteps (steps : OrderedRecord String WorkflowStepRecord) :
    OrderedRecord String WorkflowStepRecord :=
  steps.mapValues fun _ record =>
    if record.state = .failed ∨ record.state = .blocked then
      { record with state := .planned, error := none, integrationError := none }
    else record

private theorem retryScheduled_integers {reason : String} {stepIds : List String} {bound : Nat}
    (hbound : ∀ stepId record, run.steps.get? stepId = some record →
      record.attemptIds.length + 1 ≤ bound) :
    ∀ body ∈ stepIds.map (retryScheduled run reason),
      ∀ field ∈ WorkflowEventBody.integers body, field.2 ≤ maxSafeInteger ∨ field.2 ≤ bound := by
  intro body hbody field hfield
  obtain ⟨stepId, -, rfl⟩ := List.mem_map.mp hbody
  rw [retryScheduled, WorkflowEventBody.integers, List.mem_singleton] at hfield
  rw [hfield]
  cases hrecord : run.steps.get? stepId with
  | none => exact Or.inl (by simp [maxSafeInteger])
  | some record => exact Or.inr (hbound stepId record hrecord)

/-- A relaunch plans the stopped and the blocked steps again and sets the run to running. -/
theorem relaunchSteps_rewrites (stopped : List String) {bound : Nat}
    (hbound : ∀ stepId record, run.steps.get? stepId = some record →
      record.attemptIds.length + 1 ≤ bound) :
    Rewrites now bound run (relaunchSteps stopped now run) .running
      (reconciledSteps run (relaunchedSteps stopped run.steps)) run.attempts
      run.integrationHead := by
  apply Rewrites.append
  · exact ⟨⟨rfl, rfl, rfl, rfl, rfl, rfl, rfl, rfl, rfl⟩, rfl, Or.inl rfl, rfl, rfl, rfl⟩
  · exact retryScheduled_integers hbound

/-- A retry refuses a cancelled run, writes nothing when there is nothing to reset, and otherwise
plans every failed and blocked step again and sets the run to running. -/
theorem retrySteps_ok {bound : Nat}
    (hbound : ∀ stepId record, run.steps.get? stepId = some record →
      record.attemptIds.length + 1 ≤ bound) (h : retrySteps now run = .ok next) :
    run.state ≠ .cancelled ∧
      ((retryResetIds run = [] ∧ next = run) ∨
        (retryResetIds run ≠ [] ∧ Rewrites now bound run next .running
          (reconciledSteps run (retriedSteps run.steps)) run.attempts run.integrationHead)) := by
  unfold retrySteps at h
  split at h
  · cases h
  · next hstate =>
    refine ⟨hstate, ?_⟩
    split at h
    · next hnil => exact Or.inl ⟨hnil, (Except.ok.inj h).symm⟩
    · next hne =>
      refine Or.inr ⟨hne, ?_⟩
      rw [← Except.ok.inj h]
      apply Rewrites.append
      · exact ⟨⟨rfl, rfl, rfl, rfl, rfl, rfl, rfl, rfl, rfl⟩, rfl, Or.inl rfl, rfl, rfl, rfl⟩
      · exact retryScheduled_integers hbound

/-! ## Admissions and settlements of the run -/

/-- The records after admitting some definitions. -/
def admittedSteps (steps : OrderedRecord String WorkflowStepRecord)
    (admitted : List StepDefinition) : OrderedRecord String WorkflowStepRecord :=
  admitted.foldl (fun steps definition => steps.set definition.id (admittedStepRecord definition))
    steps

/-- A grown plan is a validated plan that keeps the steps the run has. -/
theorem grownPlan_ok {proposed : List Json} {plan : WorkflowPlan}
    (h : grownPlan run proposed = .ok plan) :
    validateWorkflowPlanResult (grownDocument run.plan proposed) = .ok plan ∧
      plan.steps.take run.plan.steps.length = run.plan.steps := by
  unfold grownPlan at h
  simp only [bind_ok_iff, exists_unit_iff, ensure_ok_iff] at h
  obtain ⟨-, grown, hgrown, htake, hplan⟩ := h
  cases hplan
  split at hgrown
  · next hvalid =>
    cases hgrown
    exact ⟨hvalid, htake⟩
  · cases hgrown

/-- An admission appends planned records for the added steps of a validated plan. -/
theorem admitSteps_ok {request : StepAdmissionRequest} (h : admitSteps request now run = .ok next) :
    run.state = .running ∧ ∃ authority plan, run.authority = some authority ∧
      grownPlan run request.steps = .ok plan ∧
      planAuthorityIssues plan authority.envelope run.repositoryRoot
        (some run.capabilityProfiles) = [] ∧
      SameHeader run next ∧ next.plan = plan ∧ next.updatedAt = now.text ∧
      (∃ bodies, Appends now 0 run next bodies) ∧ next.state = run.state ∧
      next.steps = reconciledSteps { run with plan }
        (admittedSteps run.steps (plan.steps.drop run.plan.steps.length)) ∧
      next.attempts = run.attempts ∧ next.integrationHead = run.integrationHead := by
  unfold admitSteps at h
  simp only [bind_ok_iff, exists_unit_iff, ensure_ok_iff, require_ok_iff] at h
  obtain ⟨hstate, authority, hauthority, -, -, -, -, plan, hplan, hissues, hnext⟩ := h
  refine ⟨hstate, authority, plan, hauthority, hplan, hissues, ?_⟩
  rw [← Except.ok.inj hnext]
  refine ⟨?_, appendWorkflowEvents_plan .., appendWorkflowEvents_updatedAt ..,
    ⟨(plan.steps.drop run.plan.steps.length).map fun definition =>
      .stepAdmitted definition.id request.proposedBy request.reason, ?_⟩,
    appendWorkflowEvents_state .., appendWorkflowEvents_steps .., appendWorkflowEvents_attempts ..,
    appendWorkflowEvents_integrationHead ..⟩
  · apply SameHeader.append
    exact ⟨rfl, rfl, rfl, rfl, rfl, rfl, rfl, rfl, rfl⟩
  · apply Appends.append
    · rfl
    · rfl
    · rfl
    · intro body hbody field hfield
      obtain ⟨definition, -, rfl⟩ := List.mem_map.mp hbody
      cases hfield

/-- A settlement of the run ends its unfinished steps when it cancels, and writes a status. -/
theorem settleRun_rewrites (cancelled : Bool) (now : Timestamp) (run : WorkflowRunState) :
    Rewrites now 0 run (settleRun cancelled now run)
      (settledRunLifecycle run.state ((settledSteps cancelled run).steps.values.map (·.state)))
      (settledSteps cancelled run).steps run.attempts run.integrationHead := by
  obtain ⟨error, hframe⟩ := settledRun_frame cancelled now run
  rw [settleRun_eq, hframe]
  apply Rewrites.append
  · exact ⟨⟨rfl, rfl, rfl, rfl, rfl, rfl, rfl, rfl, rfl⟩, rfl, Or.inl rfl, rfl, rfl, rfl⟩
  · intro body hbody field hfield
    rw [integers_settlementBodies body hbody] at hfield
    cases hfield

end Specs

end BuildConductor.Lifecycle
