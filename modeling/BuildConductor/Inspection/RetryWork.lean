import BuildConductor.Inspection.EngineRunView
import BuildConductor.Inspection.RunControl
import BuildConductor.Lifecycle.Reopening

/-!
# The work a retry names and the work it resets

A retry is offered with the units it will reset: the failed ones and what is blocked behind them.
The transaction then resets every failed and every blocked step, and no cancelled one.
`src/src/inspection/run-control.ts:107-233`, `src/src/workflows/change-run.ts:342-480`.
-/

namespace BuildConductor.Inspection

open Base Domain Engine Workflows Storage Lifecycle

/-- Behind a failure: failed, or blocked with a dependency behind a failure. -/
inductive BehindFailed (steps : OrderedRecord String WorkflowStepRecord) : String → Prop
  | failed {stepId : String} {record : WorkflowStepRecord} (hrecord : steps.get? stepId = some record)
      (hstate : record.state = .failed) : BehindFailed steps stepId
  | blocked {stepId d : String} {record : WorkflowStepRecord}
      (hrecord : steps.get? stepId = some record) (hstate : record.state = .blocked)
      (hd : d ∈ record.definition.dependencies) (hbehind : BehindFailed steps d) :
      BehindFailed steps stepId

/-- The units a retry of steps is offered with are the steps its transaction resets. -/
def ResetsReported (run : WorkflowRunState) (view : RunView) : Prop :=
  ∀ failedUnitIds resetUnitIds, retryableRunWork view = .steps failedUnitIds resetUnitIds →
    ∀ stepId, stepId ∈ retryResetIds run ↔ stepId ∈ resetUnitIds

section View

variable {stored : OrchestrationRun} {run : WorkflowRunState}
  {findings : String → Option (List ReviewFinding)} {view : RunView}

/-- A recorded step of the plan has a unit, and a unit is that of a recorded step. -/
private theorem exists_unit_iff {stepId : String} {state : TaskState} {dependencies : List String}
    (hkept : PlanKept run) (hview : engineRunView stored run findings = .ok view) :
    (∃ unit ∈ view.units, unit.id = stepId ∧ unit.state = state ∧ unit.dependencies = dependencies) ↔
      ∃ record, run.steps.get? stepId = some record ∧ stepTaskState record.state = state ∧
        record.definition.dependencies = dependencies := by
  have hunits := engineRunView_units hview
  have hleft : (∃ unit ∈ view.units, unit.id = stepId ∧ unit.state = state ∧
      unit.dependencies = dependencies) ↔ (stepId, state, dependencies) ∈
        view.units.map (fun unit => (unit.id, unit.state, unit.dependencies)) := by
    simp only [List.mem_map, Prod.mk.injEq]
  rw [hleft, hunits, List.mem_map]
  constructor
  · rintro ⟨⟨id, record⟩, hmem, heq⟩
    simp only [Prod.mk.injEq] at heq
    obtain ⟨rfl, rfl, rfl⟩ := heq
    exact ⟨record, (mem_recorded.mp hmem).2, rfl, rfl⟩
  · rintro ⟨record, hrecord, rfl, rfl⟩
    refine ⟨(stepId, record), mem_recorded.mpr ⟨?_, hrecord⟩, rfl⟩
    exact hkept.mem_order_iff.mpr ⟨record, hrecord⟩

private theorem stepTaskState_failed_iff {state : StepRunState} :
    stepTaskState state = .failed ↔ state = .failed := by
  cases state <;> simp [stepTaskState]

private theorem stepTaskState_blocked_iff {state : StepRunState} :
    stepTaskState state = .blocked ↔ state = .blocked := by
  cases state <;> simp [stepTaskState]

private theorem mem_failedUnits_iff (hkept : PlanKept run)
    (hview : engineRunView stored run findings = .ok view) {stepId : String} :
    stepId ∈ (failedUnits view).map (·.id) ↔
      ∃ record, run.steps.get? stepId = some record ∧ record.state = .failed := by
  rw [List.mem_map]
  constructor
  · rintro ⟨unit, hunit, rfl⟩
    rw [failedUnits, List.mem_filter, decide_eq_true_eq] at hunit
    obtain ⟨record, hrecord, hstate, -⟩ :=
      (exists_unit_iff hkept hview).mp ⟨unit, hunit.1, rfl, hunit.2, rfl⟩
    exact ⟨record, hrecord, stepTaskState_failed_iff.mp hstate⟩
  · rintro ⟨record, hrecord, hstate⟩
    obtain ⟨unit, hunit, hid, hfailed, -⟩ := (exists_unit_iff hkept hview).mpr
      ⟨record, hrecord, stepTaskState_failed_iff.mpr hstate, rfl⟩
    exact ⟨unit, List.mem_filter.mpr ⟨hunit, decide_eq_true hfailed⟩, hid⟩

/-- The units a retry of steps resets are those behind a failure. -/
private theorem behindReset_iff (hkept : PlanKept run)
    (hview : engineRunView stored run findings = .ok view) {stepId : String} :
    BehindReset view.units ((failedUnits view).map (·.id)) stepId ↔
      BehindFailed run.steps stepId := by
  constructor
  · intro h
    induction h with
    | reset hid =>
      obtain ⟨record, hrecord, hstate⟩ := (mem_failedUnits_iff hkept hview).mp hid
      exact .failed hrecord hstate
    | @blocked unit d hunit hstate hd _ ih =>
      obtain ⟨record, hrecord, hblocked, hdependencies⟩ :=
        (exists_unit_iff hkept hview).mp ⟨unit, hunit, rfl, hstate, rfl⟩
      rw [← hdependencies] at hd
      exact .blocked hrecord (stepTaskState_blocked_iff.mp hblocked) hd ih
  · intro h
    induction h with
    | failed hrecord hstate => exact .reset ((mem_failedUnits_iff hkept hview).mpr ⟨_, hrecord, hstate⟩)
    | @blocked stepId d record hrecord hstate hd _ ih =>
      obtain ⟨unit, hunit, rfl, hblocked, hdependencies⟩ := (exists_unit_iff hkept hview).mpr
        ⟨record, hrecord, stepTaskState_blocked_iff.mpr hstate, rfl⟩
      rw [← hdependencies] at hd
      exact .blocked hunit hblocked hd ih

/-- What is behind a failure is a failed or a blocked step. -/
private theorem BehindFailed.record {steps : OrderedRecord String WorkflowStepRecord} {stepId : String}
    (h : BehindFailed steps stepId) : ∃ record, steps.get? stepId = some record ∧
      (record.state = .failed ∨ record.state = .blocked) := by
  cases h with
  | failed hrecord hstate => exact ⟨_, hrecord, Or.inl hstate⟩
  | blocked hrecord hstate _ _ => exact ⟨_, hrecord, Or.inr hstate⟩

private theorem mem_retryResetIds_iff {stepId : String} :
    stepId ∈ retryResetIds run ↔ ∃ record, run.steps.get? stepId = some record ∧
      (record.state = .failed ∨ record.state = .blocked) := by
  unfold retryResetIds
  rw [List.mem_map]
  constructor
  · rintro ⟨⟨id, record⟩, hentry, rfl⟩
    rw [List.mem_filter, OrderedRecord.mem_entries_iff, decide_eq_true_eq] at hentry
    exact ⟨record, hentry⟩
  · rintro ⟨record, hrecord, hstate⟩
    refine ⟨(stepId, record), ?_, rfl⟩
    rw [List.mem_filter, OrderedRecord.mem_entries_iff, decide_eq_true_eq]
    exact ⟨hrecord, hstate⟩

/-- The reset units of a retry of steps are those behind a failure. -/
private theorem mem_resetUnits_iff (hkept : PlanKept run)
    (hview : engineRunView stored run findings = .ok view) {stepId : String} :
    stepId ∈ (view.units.map (·.id)).filter
        (· ∈ resetPasses view.units (view.units.length + 1) ((failedUnits view).map (·.id))) ↔
      BehindFailed run.steps stepId := by
  rw [List.mem_filter, decide_eq_true_eq, mem_resetPasses_iff, behindReset_iff hkept hview]
  refine ⟨And.right, fun h => ⟨?_, h⟩⟩
  obtain ⟨record, hrecord, -⟩ := h.record
  obtain ⟨unit, hunit, hid, -⟩ := (exists_unit_iff hkept hview).mpr ⟨record, hrecord, rfl, rfl⟩
  exact List.mem_map.mpr ⟨unit, hunit, hid⟩

/-- A retry resets what it was offered with just when, if a step failed, every blocked step is
behind a failure. -/
theorem resetsReported_iff (hkept : PlanKept run)
    (hview : engineRunView stored run findings = .ok view)
    (hretryable : ∀ code reason, retryableRunWork view ≠ .blocked code reason) :
    ResetsReported run view ↔
      ((∃ stepId record, run.steps.get? stepId = some record ∧ record.state = .failed) →
        ∀ stepId record, run.steps.get? stepId = some record → record.state = .blocked →
          BehindFailed run.steps stepId) := by
  have hwork := (retryChecked_of_retryable hretryable).retryableRunWork_eq
  have hsource : view.source = .engine := by
    obtain ⟨units, -, hview⟩ := bind_ok_iff.mp hview
    obtain ⟨attempts, -, hview⟩ := bind_ok_iff.mp hview
    rw [← Except.ok.inj hview]
  unfold failedRunWork at hwork
  rw [hsource] at hwork
  dsimp only at hwork
  unfold ResetsReported
  by_cases hnone : failedUnits view = []
  · rw [if_neg (not_not.mpr hnone)] at hwork
    have hnever : ∀ failedUnitIds resetUnitIds,
        retryableRunWork view ≠ .steps failedUnitIds resetUnitIds := by
      intro failedUnitIds resetUnitIds hsteps
      rw [hwork, finalValidationRetryWork] at hsteps
      cases hlast : view.finalValidationAttempts.getLast? with
      | none =>
        rw [hlast] at hsteps
        cases hsteps
      | some attempt =>
        rw [hlast, Option.bind_some] at hsteps
        split at hsteps <;> cases hsteps
    have hunfailed : ¬ ∃ stepId record, run.steps.get? stepId = some record ∧
        record.state = .failed := by
      rintro ⟨stepId, record, hrecord, hstate⟩
      have hmem := (mem_failedUnits_iff hkept hview).mpr ⟨record, hrecord, hstate⟩
      rw [hnone] at hmem
      cases hmem
    exact iff_of_true (fun _ _ hsteps => absurd hsteps (hnever _ _)) fun hfailed =>
      absurd hfailed hunfailed
  · rw [if_pos hnone] at hwork
    obtain ⟨unit, rest, hunits⟩ := List.exists_cons_of_ne_nil hnone
    have hfailed : ∃ stepId record, run.steps.get? stepId = some record ∧ record.state = .failed := by
      refine ⟨unit.id, (mem_failedUnits_iff hkept hview).mp ?_⟩
      rw [hunits]
      exact List.mem_cons_self
    rw [hwork]
    unfold stepRetryWork
    dsimp only
    constructor
    · intro hreported _ stepId record hrecord hstate
      have hsame := hreported _ _ rfl stepId
      rw [mem_resetUnits_iff hkept hview] at hsame
      exact hsame.mp (mem_retryResetIds_iff.mpr ⟨record, hrecord, Or.inr hstate⟩)
    · intro hall failedUnitIds resetUnitIds hsteps stepId
      rw [RunRetryAssessment.steps.injEq] at hsteps
      rw [← hsteps.2, mem_resetUnits_iff hkept hview, mem_retryResetIds_iff]
      constructor
      · rintro ⟨record, hrecord, hstate | hstate⟩
        · exact .failed hrecord hstate
        · exact hall hfailed stepId record hrecord hstate
      · exact fun hbehind => hbehind.record

end View

/-! ## Reopening -/

/-- No step was cancelled. -/
def NoneCancelled (run : WorkflowRunState) : Prop :=
  ∀ stepId record, run.steps.get? stepId = some record → record.state ≠ .cancelled

/-- When a step failed, every blocked step is behind a failure. -/
def BlockedByFailures (run : WorkflowRunState) : Prop :=
  (∃ stepId record, run.steps.get? stepId = some record ∧ record.state = .failed) →
    ∀ stepId record, run.steps.get? stepId = some record → record.state = .blocked →
      BehindFailed run.steps stepId

/-- Every failed step is one that recovery stopped. -/
def OnlyStoppedFailed (run : WorkflowRunState) (stopped : List String) : Prop :=
  ∀ stepId record, run.steps.get? stepId = some record → record.state = .failed → stepId ∈ stopped

/-- A retry resets everything that stopped the run, and what it was offered with, just when no step
was cancelled and every blocked step is behind a failure; a relaunch does just when no step was
cancelled and recovery stopped every failed step. -/
theorem reopening_resets_iff {accepts : WorkflowRunState → Prop} {world later : World}
    {transaction : Transaction} (hreach : (engineSystem PlanValidated accepts).Reachable world)
    (hstep : Step accepts world (.write transaction) later) :
    (transaction = .retry → retryResetIds world.run ≠ [] → ∀ stored findings view,
        engineRunView stored world.run findings = .ok view →
        (∀ code reason, retryableRunWork view ≠ .blocked code reason) →
        (ReopensClean accepts world.run later ∧ ResetsReported world.run view ↔
          NoneCancelled world.run ∧ BlockedByFailures world.run)) ∧
      ∀ stopped, transaction = .relaunch stopped →
        (ReopensClean accepts world.run later ↔
          NoneCancelled world.run ∧ OnlyStoppedFailed world.run stopped) := by
  constructor
  · rintro rfl hresets stored findings view hview hretryable
    rw [retry_clean_iff hreach hstep hresets,
      resetsReported_iff (planKept_reachable hreach) hview hretryable]
    rfl
  · rintro stopped rfl
    rw [relaunch_clean_iff hreach hstep]
    constructor
    · intro h
      exact ⟨fun stepId record hrecord => (h stepId record hrecord).1,
        fun stepId record hrecord => (h stepId record hrecord).2⟩
    · rintro ⟨hcancelled, hfailed⟩ stepId record hrecord
      exact ⟨hcancelled stepId record hrecord, hfailed stepId record hrecord⟩

/-- The run the retry of a launch that failed stores. -/
def retriedEditRun : WorkflowRunState :=
  { unstartedRun with
    state := .running
    steps := .ofList [("edit", initialStepRecord editStep), ("write", initialStepRecord writeStep)]
    events := unstartedRun.events ++
      [⟨2, "2", .stepRetryScheduled "edit" "" 1 "the user retried the failed work of this run"⟩]
    eventSequence := 2
    updatedAt := "2" }

/-- A retry of a run with one failed step, which nothing waits behind, resets what it names. -/
theorem reopening_resets_unstartedRun :
    ∃ view, engineRunView { smallStartedRun with state := .failed } unstartedRun (fun _ => none) =
        .ok view ∧
      ReopensClean (Accepts id) unstartedRun (engineAt retriedEditRun .integrating []) ∧
      ResetsReported unstartedRun view := by
  have hstopped : (storedEngine id).Reachable ⟨unstartedRun, .idle, 0, []⟩ :=
    (unstartedRun_reachable id).step_to (Step.crash (by simp [engineAt])) rfl
  have hreach : (storedEngine id).Reachable ⟨unstartedRun, .retrying, 0, []⟩ :=
    hstopped.step_to (Step.assessRetry rfl rfl (by decide)) rfl
  have hretry : Transaction.retry.apply (clock "2") unstartedRun = .ok retriedEditRun := rfl
  have hstep : (storedEngine id).step ⟨unstartedRun, .retrying, 0, []⟩ (.write .retry)
      (engineAt retriedEditRun .integrating []) := Step.write Issues.retry hretry fun _ => rfl
  have hwork : (engineRunView { smallStartedRun with state := .failed } unstartedRun
      (fun _ => none)).map retryableRunWork = .ok (.steps ["edit"] ["edit"]) := by decide +kernel
  obtain ⟨view, hview, hsteps⟩ := map_ok_iff.mp hwork
  have hstates : ∀ record ∈ unstartedRun.steps.values,
      record.state ≠ .cancelled ∧ record.state ≠ .blocked := by decide
  refine ⟨view, hview, ((reopening_resets_iff hreach hstep).1 rfl (by decide) _ _ view hview ?_).mpr
    ⟨?_, ?_⟩⟩
  · intro code reason hblocked
    rw [hsteps] at hblocked
    cases hblocked
  · intro stepId record hrecord
    exact hstates record ((OrderedRecord.mem_values_iff unstartedRun.steps record).mpr ⟨_, hrecord⟩) |>.1
  · intro _ stepId record hrecord hblocked
    exact absurd hblocked (hstates record
      ((OrderedRecord.mem_values_iff unstartedRun.steps record).mpr ⟨_, hrecord⟩)).2

/-! ## A failed run with a cancelled step

Of two independent steps one runs and the other cannot start; the run fails, and the user stops the
step that runs. -/

/-- The attempt of `edit` is running and `write` has not started. -/
def halfStartedRun : WorkflowRunState :=
  { independentRun with
    steps := .ofList [("edit", editRecord .running), ("write", initialStepRecord writeStep)]
    attempts := [editAttempt .prepared none]
    events := [launchedEvent]
    eventSequence := 1
    updatedAt := "1" }

/-- `write` could not start. -/
def unwrittenRun : WorkflowRunState :=
  { halfStartedRun with
    state := .failed
    steps := .ofList [("edit", editRecord .running), ("write", { initialStepRecord writeStep with
      state := .failed, error := some "no worktree" })]
    attempts := [editAttempt .running none]
    events := [launchedEvent,
      ⟨2, "2", .stepFailed "write" "" "no worktree" .terminal "the step could not start"⟩]
    eventSequence := 2
    updatedAt := "2" }

/-- `edit` was stopped. -/
def stoppedEditRun : WorkflowRunState :=
  { unwrittenRun with
    steps := .ofList [("edit", { editRecord .cancelled with error := some "stopped" }),
      ("write", { initialStepRecord writeStep with
        state := .failed, error := some "no worktree" })]
    attempts := [{ editAttempt .cancelled none with
      finishedAt := some "3", error := some "stopped" }]
    events := unwrittenRun.events ++ [⟨3, "3", .stepCancelled "edit" (some "edit-1") (some "stopped")⟩]
    eventSequence := 3
    updatedAt := "3" }

/-- The run the retry of `write` stores. -/
def retriedWriteRun : WorkflowRunState :=
  { stoppedEditRun with
    state := .running
    steps := .ofList [("edit", { editRecord .cancelled with error := some "stopped" }),
      ("write", initialStepRecord writeStep)]
    events := stoppedEditRun.events ++
      [⟨4, "4", .stepRetryScheduled "write" "" 1 "the user retried the failed work of this run"⟩]
    eventSequence := 4
    updatedAt := "4" }

section Scenario

variable (sha256Hex : String → String)

theorem stoppedEditRun_reachable :
    (storedEngine sha256Hex).Reachable ⟨stoppedEditRun, .retrying, 0, []⟩ := by
  have hcreated : (storedEngine sha256Hex).Reachable (engineAt independentRun .integrating []) :=
    .of_initial
      { input := ⟨smallInput [editStep, writeStep] 2,
          ⟨(smallPlan [editStep, writeStep]).toJson, rfl⟩, rfl⟩
        accepted := rfl, process := rfl, cancellers := rfl, branch := rfl }
  have hreturned : (storedEngine sha256Hex).Reachable
      (engineAt independentRun (.returned .running) []) :=
    hcreated.step_to (Step.move rfl (Moves.load rfl)) rfl
  have hqueue : (storedEngine sha256Hex).Reachable
      (engineAt independentRun (.dispatching ["edit", "write"]) []) :=
    hreturned.step_to (Step.move rfl (Moves.dispatch rfl)) rfl
  have hpreparing : (storedEngine sha256Hex).Reachable
      (engineAt independentRun (.preparing ⟨"edit", .mutable, 1, "base"⟩ ["write"]) []) :=
    hqueue.step_to (Step.move rfl (Moves.launch rfl)) rfl
  have hreserving : (storedEngine sha256Hex).Reachable
      (engineAt independentRun (.reserving (editAttempt .prepared none) ["write"]) []) :=
    hpreparing.step_to (Step.move rfl
      (@Moves.prepared _ _ _ _ _ _ "edit-1" (clock "1") editWorkspace rfl (by decide) (by decide))) rfl
  have hreserve : (Transaction.reserve (editAttempt .prepared none)).apply (clock "1")
      independentRun = .ok halfStartedRun := rfl
  have hreserved : (storedEngine sha256Hex).Reachable
      (engineAt halfStartedRun (.marking (editAttempt .prepared none) ["write"]) []) :=
    hreserving.step_to (Step.write (Issues.reserved rfl (by decide)) hreserve fun _ => rfl) rfl
  have hmark : (Transaction.markRunning "edit-1").apply (clock "1") halfStartedRun =
      .ok { halfStartedRun with attempts := [editAttempt .running none] } := rfl
  have hmarked : (storedEngine sha256Hex).Reachable
      (engineAt { halfStartedRun with attempts := [editAttempt .running none] }
        (.dispatching ["write"]) [⟨editAttempt .prepared none, .executing⟩]) :=
    hreserved.step_to (Step.write (Issues.markRunning rfl) hmark fun _ => rfl) rfl
  have hsecond : (storedEngine sha256Hex).Reachable
      (engineAt { halfStartedRun with attempts := [editAttempt .running none] }
        (.preparing ⟨"write", .mutable, 1, "base"⟩ []) [⟨editAttempt .prepared none, .executing⟩]) :=
    hmarked.step_to (Step.move rfl (Moves.launch rfl)) rfl
  have hfailing : (storedEngine sha256Hex).Reachable
      (engineAt { halfStartedRun with attempts := [editAttempt .running none] }
        (.failingLaunch "write" "no worktree") [⟨editAttempt .prepared none, .executing⟩]) :=
    hsecond.step_to (Step.move rfl (Moves.prepareFailed rfl)) rfl
  have hfail : (Transaction.failStep "write" "no worktree").apply (clock "2")
      { halfStartedRun with attempts := [editAttempt .running none] } = .ok unwrittenRun := rfl
  have hfailed : (storedEngine sha256Hex).Reachable
      (engineAt unwrittenRun .dispatched [⟨editAttempt .prepared none, .executing⟩]) :=
    hfailing.step_to (Step.write (Issues.failLaunch rfl) hfail fun _ => rfl) rfl
  have hsettle : (Transaction.settleStep "edit" (editAttempt .prepared none)
      ⟨.cancelled "stopped" none, clock "3", false, none⟩ (.ok [])).apply (clock "3") unwrittenRun =
        .ok stoppedEditRun := rfl
  have hsettled : (storedEngine sha256Hex).Reachable
      (engineAt stoppedEditRun .dispatched [⟨editAttempt .prepared none, .resolved⟩]) :=
    hfailed.step_to (Step.write (@Issues.settleStep _ _ _ _ [] [] _ _ _ rfl) hsettle
      fun _ => rfl) rfl
  have hstopped : (storedEngine sha256Hex).Reachable ⟨stoppedEditRun, .idle, 0, []⟩ :=
    hsettled.step_to (Step.crash (by simp [engineAt])) rfl
  exact hstopped.step_to (Step.assessRetry rfl rfl (by decide)) rfl

theorem stoppedEditRun_retried :
    (storedEngine sha256Hex).step ⟨stoppedEditRun, .retrying, 0, []⟩ (.write .retry)
      (engineAt retriedWriteRun .integrating []) := by
  have hretry : Transaction.retry.apply (clock "4") stoppedEditRun = .ok retriedWriteRun := rfl
  exact Step.write Issues.retry hretry fun _ => rfl

end Scenario

/-- A reachable retry sets the run back to running and leaves a cancelled step. -/
theorem retry_leaves_cancelled : ¬ ∀ (sha256Hex : String → String) (world later : World),
    (storedEngine sha256Hex).Reachable world →
    (storedEngine sha256Hex).step world (.write .retry) later →
    world.run.state ≠ .running → later.run.state = .running → NoFailures later.run.steps := by
  intro h
  have hclean := h id _ _ (stoppedEditRun_reachable id) (stoppedEditRun_retried id) (by decide) rfl
  have hrecord : retriedWriteRun.steps.get? "edit" =
      some { editRecord .cancelled with error := some "stopped" } := rfl
  cases hclean "edit" _ hrecord

end BuildConductor.Inspection
