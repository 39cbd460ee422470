import BuildConductor.Storage.Preservation

/-!
# Settling a run

When the store accepts what `settleRun` makes of an accepted running run. The status is
computed from the step states alone, while a completed run must also have integrated every
mutating step. `src/src/engine/engine.ts:661-723`,
`src/src/storage/workflow-state-store.ts:463-522`.
-/

namespace BuildConductor.Lifecycle

open Base Domain Security Engine Storage

/-- Every step has succeeded, and the commit of a mutating one is not integrated yet: the state
between the success of the last mutating step and its integration. -/
def AwaitsIntegration (run : WorkflowRunState) : Prop :=
  (∀ stepId record, run.steps.get? stepId = some record → record.state = .succeeded) ∧
    ∃ stepId record, run.steps.get? stepId = some record ∧
      stepRequiresIntegration run.capabilityProfiles record.definition = true ∧
      record.integratedCommit = none

/-- The number of steps that had not finished. -/
def openStepCount (run : WorkflowRunState) : Nat :=
  (run.steps.entries.filter fun entry => isOpenStep entry.2).length

/-- The number of timeline entries a settlement of a running run appends. -/
def settlementLength (cancelled : Bool) (run : WorkflowRunState) : Nat :=
  (if cancelled then openStepCount run else 0) + 1

/-! ## The settled status -/

/-- A running run settles to a terminal status. -/
theorem settledRunLifecycle_ne_running (states : List StepRunState) :
    settledRunLifecycle .running states ≠ .running := by
  unfold settledRunLifecycle
  rw [if_neg (by decide)]
  split
  · decide
  · split
    · decide
    · split
      · decide
      · decide

/-- A running run completes exactly when every step has succeeded. -/
theorem settledRunLifecycle_completed_iff {states : List StepRunState} :
    settledRunLifecycle .running states = .completed ↔ ∀ state ∈ states, state = .succeeded := by
  unfold settledRunLifecycle
  rw [if_neg (by decide)]
  constructor
  · intro h
    split at h
    · cases h
    · split at h
      · next hall => simpa [List.all_eq_true] using hall
      · split at h
        · cases h
        · cases h
  · intro h
    rw [if_neg, if_pos]
    · simpa [List.all_eq_true] using h
    · rw [List.any_eq_true]
      rintro ⟨state, hstate, hopen⟩
      rw [h state hstate] at hopen
      cases hopen

/-! ## The settled steps -/

/-- The steps after a settlement, before the status is written. -/
def settledSteps (cancelled : Bool) (run : WorkflowRunState) : WorkflowRunState :=
  if isCancelling cancelled run.state then cancelOpenSteps (reconcileWorkflowSteps run)
  else reconcileWorkflowSteps run

/-- The entries a settlement appends. -/
def settlementBodies (cancelled : Bool) (run : WorkflowRunState) : List WorkflowEventBody :=
  let settled := settledSteps cancelled run
  let states := settled.steps.values.map (·.state)
  (if isCancelling cancelled run.state then cancelledStepEvents (reconcileWorkflowSteps run)
    else []) ++
    [.runSettled (settledRunLifecycle settled.state states)
      (settledRunError (settledRunLifecycle settled.state states) states)]

private theorem isCancelling_running (cancelled : Bool) :
    isCancelling cancelled .running = cancelled := by
  cases cancelled <;> rfl

theorem settledSteps_sameButStates (cancelled : Bool) (run : WorkflowRunState) :
    SameButStates run.steps (settledSteps cancelled run).steps := by
  unfold settledSteps
  split
  · apply (reconcile_sameButStates run).trans
    rw [sameButStates_iff]
    constructor
    · simp [cancelOpenSteps]
    · intro stepId record hrecord
      simp only [cancelOpenSteps, OrderedRecord.get?_mapValues, hrecord, Option.map_some]
      split
      · exact ⟨_, rfl⟩
      · exact ⟨record.state, rfl⟩
  · exact reconcile_sameButStates run

/-- A settlement writes no field but the steps before it writes the status. -/
theorem settledSteps_frame (cancelled : Bool) (run : WorkflowRunState) :
    ∃ steps, settledSteps cancelled run = { run with steps } := by
  unfold settledSteps
  split
  · exact ⟨_, rfl⟩
  · exact ⟨_, rfl⟩

/-- A succeeded step stays as it is. -/
theorem settledSteps_keeps_succeeded {cancelled : Bool} {run : WorkflowRunState} {stepId : String}
    {record : WorkflowStepRecord} (hrecord : run.steps.get? stepId = some record)
    (hstate : record.state = .succeeded) :
    (settledSteps cancelled run).steps.get? stepId = some record := by
  have hkept := reconcile_keeps hrecord (by rw [hstate]; rfl)
  unfold settledSteps
  split
  · simp only [cancelOpenSteps, OrderedRecord.get?_mapValues, hkept, Option.map_some, isOpenStep,
      hstate]
    rfl
  · exact hkept

/-- A step that ends succeeded had succeeded before. -/
theorem settledSteps_succeeded {cancelled : Bool} {run : WorkflowRunState} {stepId : String}
    {record : WorkflowStepRecord}
    (hrecord : (settledSteps cancelled run).steps.get? stepId = some record)
    (hstate : record.state = .succeeded) : run.steps.get? stepId = some record := by
  have hreconciled : (reconcileWorkflowSteps run).steps.get? stepId = some record := by
    unfold settledSteps at hrecord
    split at hrecord
    · simp only [cancelOpenSteps, OrderedRecord.get?_mapValues, Option.map_eq_some_iff] at hrecord
      obtain ⟨before, hbefore, heq⟩ := hrecord
      split at heq
      · rw [← heq] at hstate
        cases hstate
      · rw [← heq]
        exact hbefore
    · exact hrecord
  obtain ⟨before, hbefore, heq, hcases⟩ := reconcile_record hreconciled
  rcases hcases with hsame | ⟨-, hthree⟩
  · rw [heq, hsame]
    exact hbefore
  · rw [hstate] at hthree
    simp at hthree

private theorem isOpenStep_reconciled {run : WorkflowRunState} {stepId : String}
    {before : WorkflowStepRecord} {state : StepRunState}
    (hbefore : run.steps.get? stepId = some before)
    (hafter : (reconcileWorkflowSteps run).steps.get? stepId = some { before with state }) :
    isOpenStep { before with state } = isOpenStep before := by
  obtain ⟨found, hfound, -, hcases⟩ := reconcile_record hafter
  rw [hbefore, Option.some.injEq] at hfound
  subst hfound
  rcases hcases with hsame | ⟨hwaiting, hthree⟩
  · dsimp only at hsame
    rw [hsame]
  · have hopen : isOpenStep before = true := by
      unfold isOpenStep
      cases hstate : before.state <;> simp_all [StepRunState.isWaiting]
    rw [hopen]
    dsimp only at hthree
    rcases hthree with rfl | rfl | rfl <;> rfl

/-- A reconciliation opens no step and ends none. -/
theorem openStepCount_reconcile (run : WorkflowRunState) :
    openStepCount (reconcileWorkflowSteps run) = openStepCount run := by
  obtain ⟨states, hstates⟩ := reconcile_sameButStates run
  have hentries : (reconcileWorkflowSteps run).steps.entries =
      run.steps.entries.map fun entry => (entry.1, { entry.2 with state := states entry.1 }) := by
    rw [hstates]
    rfl
  unfold openStepCount
  rw [hentries, List.filter_map, List.length_map]
  congr 1
  apply List.filter_congr
  intro entry hentry
  have hbefore : run.steps.get? entry.1 = some entry.2 :=
    (run.steps.mem_entries_iff entry.1 entry.2).mp hentry
  apply isOpenStep_reconciled hbefore
  rw [hstates, get?_withStates, hbefore]
  rfl

/-- A settlement of a running run appends one entry for itself, and one for every step a
cancellation ends. -/
theorem length_settlementBodies {cancelled : Bool} {run : WorkflowRunState}
    (hrunning : run.state = .running) :
    (settlementBodies cancelled run).length = settlementLength cancelled run := by
  unfold settlementBodies settlementLength
  rw [hrunning, isCancelling_running]
  cases cancelled with
  | false => rfl
  | true =>
    simp only [if_true, List.length_append, List.length_singleton]
    rw [← openStepCount_reconcile run, cancelledStepEvents, List.length_map]
    rfl

/-- The entries of a settlement carry no integers. -/
theorem integers_settlementBodies {cancelled : Bool} {run : WorkflowRunState} :
    ∀ body ∈ settlementBodies cancelled run, WorkflowEventBody.integers body = [] := by
  intro body hbody
  unfold settlementBodies at hbody
  rcases List.mem_append.mp hbody with hcancel | hsettled
  · split at hcancel
    · obtain ⟨entry, -, rfl⟩ := List.mem_map.mp hcancel
      rfl
    · cases hcancel
  · rw [List.mem_singleton] at hsettled
    rw [hsettled]
    rfl

/-- What a settlement writes before it appends its entries. -/
def settledRun (cancelled : Bool) (now : Timestamp) (run : WorkflowRunState) : WorkflowRunState :=
  let settled := settledSteps cancelled run
  let states := settled.steps.values.map (·.state)
  let state := settledRunLifecycle settled.state states
  { settled with
    state
    error := (settledRunError state states).or settled.error
    updatedAt := now.text }

/-- A settlement writes the settled run and appends its entries. -/
theorem settleRun_eq (cancelled : Bool) (now : Timestamp) (run : WorkflowRunState) :
    settleRun cancelled now run =
      appendWorkflowEvents (settledRun cancelled now run) (settlementBodies cancelled run) now :=
  rfl

/-- The fields of a settled run that matter to the store. -/
theorem settledRun_frame (cancelled : Bool) (now : Timestamp) (run : WorkflowRunState) :
    ∃ error, settledRun cancelled now run =
      { run with
        steps := (settledSteps cancelled run).steps
        state := settledRunLifecycle run.state
          ((settledSteps cancelled run).steps.values.map (·.state))
        error
        updatedAt := now.text } := by
  obtain ⟨steps, hframe⟩ := settledSteps_frame cancelled run
  unfold settledRun
  rw [hframe]
  exact ⟨_, rfl⟩

/-! ## Acceptance of the settled run -/

variable {sha256Hex : String → String}

/-- A settlement of a running run writes a completed status exactly when every step had
succeeded. -/
theorem settled_completed_iff (cancelled : Bool) (run : WorkflowRunState) :
    settledRunLifecycle .running ((settledSteps cancelled run).steps.values.map (·.state)) =
        .completed ↔
      ∀ stepId record, run.steps.get? stepId = some record → record.state = .succeeded := by
  rw [settledRunLifecycle_completed_iff]
  have hsame := sameButStates_iff.mp (settledSteps_sameButStates cancelled run)
  constructor
  · intro h stepId record hrecord
    obtain ⟨state, hstate⟩ := hsame.2 stepId record hrecord
    have hsucceeded : state = .succeeded := by
      apply h
      rw [List.mem_map]
      exact ⟨_, (OrderedRecord.mem_values_iff _ _).mpr ⟨stepId, hstate⟩, rfl⟩
    have hbefore := settledSteps_succeeded hstate hsucceeded
    rw [hrecord, Option.some.injEq] at hbefore
    rw [hbefore]
    exact hsucceeded
  · intro h state hstate
    obtain ⟨record, hrecord, rfl⟩ := List.mem_map.mp hstate
    obtain ⟨stepId, hget⟩ := (OrderedRecord.mem_values_iff _ _).mp hrecord
    have hkeys : stepId ∈ run.steps.keys := by
      rw [← hsame.1, OrderedRecord.mem_keys_iff, hget]
      rfl
    rw [OrderedRecord.mem_keys_iff, Option.isSome_iff_exists] at hkeys
    obtain ⟨before, hbefore⟩ := hkeys
    have hsucceeded := h stepId before hbefore
    rw [settledSteps_keeps_succeeded hbefore hsucceeded, Option.some.injEq] at hget
    rw [← hget]
    exact hsucceeded

private theorem settleRun_completed_iff {cancelled : Bool} {now : Timestamp} {run : WorkflowRunState}
    (hrunning : run.state = .running) :
    (settleRun cancelled now run).state = .completed ↔
      ∀ stepId record, run.steps.get? stepId = some record → record.state = .succeeded := by
  obtain ⟨error, hframe⟩ := settledRun_frame cancelled now run
  rw [settleRun_eq, appendWorkflowEvents_state, hframe, hrunning]
  exact settled_completed_iff cancelled run

private theorem completedRecord_iff {run next : WorkflowRunState} {plan : WorkflowPlan}
    (hrun : RunAccepted sha256Hex run plan)
    (hheader : SameHeader run next) {stepId : String}
    {record : WorkflowStepRecord} (hrecord : run.steps.get? stepId = some record) :
    CompletedRecord next plan stepId record ↔ record.state = .succeeded ∧
      ¬ (stepRequiresIntegration run.capabilityProfiles record.definition = true ∧
        record.integratedCommit = none) := by
  have hwf := validateWorkflowPlan_wellFormed hrun.reads
  have hdefinition := (hrun.steps.record hwf hrecord).2.2.1
  unfold CompletedRecord
  rw [hdefinition, hheader.capabilityProfiles]
  simp only [Option.some.injEq, forall_eq', not_and]
  cases stepRequiresIntegration run.capabilityProfiles record.definition with
  | false => simp
  | true => simp

/-- A settlement of an accepted running run ends it, in a state the store accepts exactly when
the run was not waiting for a last integration and its timeline can still be numbered. -/
theorem settleRun_accepted_iff {run : WorkflowRunState} (cancelled : Bool) (now : Timestamp)
    (haccepts : Accepts sha256Hex run) (hrunning : run.state = .running) :
    ((settleRun cancelled now run).state ≠ .running ∧
        Accepts sha256Hex (settleRun cancelled now run)) ↔
      ¬ AwaitsIntegration run ∧
        run.eventSequence + settlementLength cancelled run ≤ maxSafeInteger := by
  obtain ⟨plan, hrun⟩ := accepts_iff.mp haccepts
  obtain ⟨error, hframe⟩ := settledRun_frame cancelled now run
  have hwf := validateWorkflowPlan_wellFormed hrun.reads
  have hsteps : (settleRun cancelled now run).steps = (settledSteps cancelled run).steps := by
    rw [settleRun_eq, appendWorkflowEvents_steps, hframe]
  have hsame : SameButStates run.steps (settleRun cancelled now run).steps := by
    rw [hsteps]
    exact settledSteps_sameButStates cancelled run
  have hheader : SameHeader run (settleRun cancelled now run) := by
    rw [settleRun_eq, hframe]
    refine SameHeader.append ?_ _ now
    constructor <;> rfl
  have hplan : (settleRun cancelled now run).plan = run.plan := by
    rw [settleRun_eq, appendWorkflowEvents_plan, hframe]
  have hsequence : (settleRun cancelled now run).eventSequence =
      run.eventSequence + settlementLength cancelled run := by
    rw [settleRun_eq, appendWorkflowEvents_eventSequence, hframe, length_settlementBodies hrunning]
  have hkeeps : ∀ stepId record, run.steps.get? stepId = some record →
      record.state = .succeeded → (settleRun cancelled now run).steps.get? stepId = some record := by
    intro stepId record hrecord hstate
    rw [hsteps]
    exact settledSteps_keeps_succeeded hrecord hstate
  constructor
  · rintro ⟨-, hsettled⟩
    obtain ⟨plan', hsettled⟩ := accepts_iff.mp hsettled
    have hsame' : plan' = plan := by
      have hreads := hsettled.reads
      rw [hplan, hrun.reads, Except.ok.injEq] at hreads
      exact hreads.symm
    rw [hsame'] at hsettled
    constructor
    · rintro ⟨hall, stepId, record, hrecord, hmutable, hcommit⟩
      have hcompleted := hsettled.integration.completed ((settleRun_completed_iff hrunning).mpr hall)
        stepId record (hkeeps stepId record hrecord (hall stepId record hrecord))
      rw [completedRecord_iff hrun hheader hrecord] at hcompleted
      exact hcompleted.2 ⟨hmutable, hcommit⟩
    · rw [← hsequence]
      exact hsettled.events.sequence_safe
  · rintro ⟨hnot, hsafe⟩
    constructor
    · rw [settleRun_eq, appendWorkflowEvents_state, hframe, hrunning]
      exact settledRunLifecycle_ne_running _
    · refine accepts_iff.mpr ⟨plan, hrun.of_parts hheader hplan ?_ ?_ ?_ ?_ ?_ ?_⟩
      · rw [settleRun_eq, appendWorkflowEvents_integrationHead, hframe]
        exact hrun.header.integrationHead
      · rw [settleRun_eq, appendWorkflowEvents_updatedAt, hframe]
        exact now.nonempty
      · apply hrun.steps.of_states hheader hsame
        intro stepId record hrecord hcommit
        obtain ⟨states, hstates⟩ := hsame
        rw [hstates, get?_withStates, Option.map_eq_some_iff] at hrecord
        obtain ⟨before, hbefore, heq⟩ := hrecord
        have hintegrated : before.integratedCommit ≠ none := by
          rw [← heq] at hcommit
          exact hcommit
        have hsucceeded := (hrun.steps.record hwf hbefore).2.2.2.succeeded.resolve_left hintegrated
        have hkept := hkeeps stepId before hbefore hsucceeded
        rw [hstates, get?_withStates, hbefore, Option.map_some, heq, Option.some.injEq] at hkept
        rw [hkept]
        exact hsucceeded
      · apply hrun.attempts.of_states hheader _ hsame
        rw [settleRun_eq, appendWorkflowEvents_attempts, hframe]
      · apply hrun.integration.of_states hheader _ hsame
        · intro hcompleted stepId record hrecord
          rw [settleRun_completed_iff hrunning] at hcompleted
          have hmem : stepId ∈ run.steps.keys := by
            rw [← (sameButStates_iff.mp hsame).1, OrderedRecord.mem_keys_iff, hrecord]
            rfl
          rw [OrderedRecord.mem_keys_iff, Option.isSome_iff_exists] at hmem
          obtain ⟨before, hbefore⟩ := hmem
          have hsucceeded := hcompleted stepId before hbefore
          rw [hkeeps stepId before hbefore hsucceeded, Option.some.injEq] at hrecord
          subst hrecord
          rw [completedRecord_iff hrun hheader hbefore]
          refine ⟨hsucceeded, ?_⟩
          rintro ⟨hmutable, hcommit⟩
          exact hnot ⟨hcompleted, stepId, before, hbefore, hmutable, hcommit⟩
        · rw [settleRun_eq, appendWorkflowEvents_integrationHead, hframe]
      · rw [settleRun_eq]
        apply EventsAccepted.append
        · apply hrun.events.congr <;> rw [hframe]
        · rw [length_settlementBodies hrunning, hframe]
          exact hsafe
        · intro body hbody field hfield
          rw [integers_settlementBodies body hbody] at hfield
          cases hfield

/-- The only step has succeeded with a commit, and the process stopped before integrating it. -/
def unintegratedRun : WorkflowRunState :=
  { smallRun [changeStep "edit" [] ["src/a"]] with
    steps := .ofList [("edit",
      { initialStepRecord (changeStep "edit" [] ["src/a"]) with
        state := .succeeded, attemptIds := ["edit-1"] })]
    attempts := [smallAttempt "edit-1" "edit" 1 .succeeded (some "c1")] }

/-- A run can be waiting for its last integration: the store accepts it and refuses both of its
settlements. -/
theorem settleRun_refused : ¬ ∀ (sha256Hex : String → String) (run : WorkflowRunState)
    (cancelled : Bool) (now : Timestamp), Accepts sha256Hex run → run.state = .running →
    (settleRun cancelled now run).state ≠ .running ∧
      Accepts sha256Hex (settleRun cancelled now run) := by
  intro h
  have hsettled := (h id unintegratedRun true ⟨"3", by decide⟩ rfl rfl).2
  have hrefused : validateRun id (settleRun true ⟨"3", by decide⟩ unintegratedRun) =
      .error "Completed run cannot contain unintegrated step edit" := rfl
  rw [Accepts, hrefused] at hsettled
  cases hsettled

/-- A fresh run settles to an accepted state. -/
theorem settleRun_accepted_iff_smallRun :
    ((settleRun true ⟨"3", by decide⟩ (smallRun [changeStep "edit" [] ["src/a"]])).state ≠ .running ∧
        Accepts id (settleRun true ⟨"3", by decide⟩ (smallRun [changeStep "edit" [] ["src/a"]]))) ↔
      ¬ AwaitsIntegration (smallRun [changeStep "edit" [] ["src/a"]]) ∧
        (smallRun [changeStep "edit" [] ["src/a"]]).eventSequence +
          settlementLength true (smallRun [changeStep "edit" [] ["src/a"]]) ≤ maxSafeInteger :=
  settleRun_accepted_iff true ⟨"3", by decide⟩ rfl rfl

end BuildConductor.Lifecycle
