import BuildConductor.Engine.Launches
import BuildConductor.Lifecycle.Plans

/-!
# Running steps and attempts

What one write does to the steps marked running and to the attempts: a reservation starts a
step and adds an attempt, and only a few writes end either. Supports
`src/src/engine/engine.ts:252-573`, `src/src/engine/recovery.ts:248-377`.
-/

namespace BuildConductor.Lifecycle

open Base Domain Security Engine Workflows Storage

/-! ## Running steps -/

/-- A step is marked running. -/
def StepRunning (steps : OrderedRecord String WorkflowStepRecord) (stepId : String) : Prop :=
  ∃ record, steps.get? stepId = some record ∧ record.state = .running

/-- An accepted request names a running step. -/
theorem admitSteps_proposer {run next : WorkflowRunState} {now : Timestamp}
    {request : StepAdmissionRequest} (h : admitSteps request now run = .ok next) :
    StepRunning run.steps request.proposedBy := by
  unfold admitSteps requireRunningProposer at h
  simp only [bind_ok_iff, exists_unit_iff, ensure_ok_iff, require_ok_iff] at h
  obtain ⟨-, -, -, -, -, hproposer, -⟩ := h
  exact hproposer

theorem mem_runningStepIds_iff {run : WorkflowRunState} {stepId : String} :
    stepId ∈ runningStepIds run ↔ StepRunning run.steps stepId := by
  unfold runningStepIds StepRunning
  constructor
  · intro hmem
    obtain ⟨⟨id, record⟩, hentry, rfl⟩ := List.mem_map.mp hmem
    have hrunning := List.of_mem_filter hentry
    exact ⟨record, (run.steps.mem_entries_iff id record).mp (List.mem_of_mem_filter hentry),
      of_decide_eq_true hrunning⟩
  · rintro ⟨record, hrecord, hrunning⟩
    apply List.mem_map.mpr
    refine ⟨(stepId, record), List.mem_filter.mpr ⟨?_, decide_eq_true hrunning⟩, rfl⟩
    exact (run.steps.mem_entries_iff stepId record).mpr hrecord

private theorem stepRunning_set {steps : OrderedRecord String WorkflowStepRecord} {stepId x : String}
    {record : WorkflowStepRecord} :
    StepRunning (steps.set stepId record) x ↔
      if x = stepId then record.state = .running else StepRunning steps x := by
  unfold StepRunning
  rw [OrderedRecord.get?_set]
  by_cases hx : x = stepId
  · rw [if_pos hx, if_pos hx]
    constructor
    · rintro ⟨later, hlater, hrunning⟩
      rw [Option.some.inj hlater]
      exact hrunning
    · intro hrunning
      exact ⟨record, rfl, hrunning⟩
  · rw [if_neg hx, if_neg hx]

private theorem stepRunning_mapValues {steps : OrderedRecord String WorkflowStepRecord}
    {f : String → WorkflowStepRecord → WorkflowStepRecord}
    (hf : ∀ stepId record, (f stepId record).state = .running ↔ record.state = .running) {x : String} :
    StepRunning (steps.mapValues f) x ↔ StepRunning steps x := by
  unfold StepRunning
  rw [OrderedRecord.get?_mapValues]
  constructor
  · rintro ⟨later, hlater, hrunning⟩
    obtain ⟨record, hrecord, rfl⟩ := Option.map_eq_some_iff.mp hlater
    exact ⟨record, hrecord, (hf x record).mp hrunning⟩
  · rintro ⟨record, hrecord, hrunning⟩
    exact ⟨f x record, by rw [hrecord]; rfl, (hf x record).mpr hrunning⟩

/-- A reconciliation neither starts nor ends a step. -/
theorem stepRunning_reconciledSteps (run : WorkflowRunState)
    (steps : OrderedRecord String WorkflowStepRecord) (x : String) :
    StepRunning (reconciledSteps run steps) x ↔ StepRunning steps x := by
  constructor
  · rintro ⟨record, hrecord, hrunning⟩
    obtain ⟨before, hbefore, -, hkept | ⟨-, hwaiting⟩⟩ := reconcile_record hrecord
    · exact ⟨before, hbefore, hkept.symm.trans hrunning⟩
    · rw [hrunning] at hwaiting
      rcases hwaiting with h | h | h <;> cases h
  · rintro ⟨record, hrecord, hrunning⟩
    have hkept := @reconcile_keeps { run with steps } _ _ hrecord (by rw [hrunning]; rfl)
    exact ⟨record, hkept, hrunning⟩

private theorem stepRunning_set_reconciled {run : WorkflowRunState} {stepId x : String}
    {record : WorkflowStepRecord} (hstate : record.state ≠ .running) :
    StepRunning (reconciledSteps run (run.steps.set stepId record)) x ↔
      StepRunning run.steps x ∧ x ≠ stepId := by
  rw [stepRunning_reconciledSteps, stepRunning_set]
  by_cases hx : x = stepId
  · rw [if_pos hx]
    exact ⟨fun hrunning => absurd hrunning hstate, fun hboth => absurd hx hboth.2⟩
  · rw [if_neg hx]
    exact ⟨fun hrunning => ⟨hrunning, hx⟩, fun hboth => hboth.1⟩

/-- What can be launched is a recorded step of a running run that waits, and no active attempt
claims it. -/
theorem launchable_facts {run : WorkflowRunState} {stepId : String}
    (h : stepId ∈ launchableStepIds run) :
    run.state = .running ∧ stepId ∉ activeStepIds run ∧ ¬ StepRunning run.steps stepId ∧
      ∃ record, run.steps.get? stepId = some record ∧ record.state.isWaiting = true ∧
        (reconcileWorkflowSteps run).steps.get? stepId = some { record with state := .ready } := by
  have hrunning : run.state = .running := by
    by_contra hstate
    rw [launchableStepIds_of_not_running hstate] at h
    cases h
  rw [launchableStepIds_eq_greedy hrunning] at h
  have hstart := (SelectionRules.greedy_selects _ _).eligible stepId h
  simp only [launchRules, isStartable] at hstart
  cases hrecord : (reconcileWorkflowSteps run).steps.get? stepId with
  | none =>
    rw [hrecord] at hstart
    cases hstart
  | some ready =>
    rw [hrecord] at hstart
    simp only [Bool.and_eq_true] at hstart
    have hready := of_decide_eq_true hstart.1
    obtain ⟨record, hbefore, hsame, hcases⟩ := reconcile_record hrecord
    have hwaiting : record.state.isWaiting = true := by
      rcases hcases with hkept | ⟨hwaiting, -⟩
      · rw [← hkept, hready]
        rfl
      · exact hwaiting
    refine ⟨hrunning, of_decide_eq_true hstart.2, ?_, record, hbefore, hwaiting, ?_⟩
    · rintro ⟨other, hother, hrun⟩
      rw [hbefore, Option.some.injEq] at hother
      rw [hother, hrun] at hwaiting
      cases hwaiting
    · rw [hsame, hready]

/-- The steps a write ends. -/
def Transaction.endsStep (run : WorkflowRunState) (stepId : String) : Transaction → Prop
  | .settleStep settled _ _ _ => stepId = settled
  | .failStep failed _ => stepId = failed
  | .recordIntegrationFailure ticket _ => stepId = ticket.stepId
  | .settleRun cancelled => isCancelling cancelled run.state = true
  | .recover _ => stepId ∈ activeStepIds run
  | _ => False

/-- The step a write starts. -/
def Transaction.startsStep (run : WorkflowRunState) (stepId : String) : Transaction → Prop
  | .reserve attempt => stepId = attempt.stepId ∧ stepId ∈ launchableStepIds run
  | _ => False

private theorem settledRecord_not_running (outcome : StepOutcome) (retrying : Bool)
    (record : WorkflowStepRecord) : (settledRecord outcome retrying record).state ≠ .running := by
  unfold settledRecord
  split
  · simp
  · split <;> simp
  · simp

private theorem stepRunning_settledSteps {cancelled : Bool} {run : WorkflowRunState} {x : String} :
    StepRunning (settledSteps cancelled run).steps x ↔
      StepRunning run.steps x ∧ isCancelling cancelled run.state = false := by
  have hreconciled := stepRunning_reconciledSteps run run.steps x
  unfold settledSteps
  by_cases hcancelling : isCancelling cancelled run.state = true
  · rw [if_pos hcancelling, hcancelling]
    constructor
    · rintro ⟨record, hrecord, hrunning⟩
      simp only [cancelOpenSteps, OrderedRecord.get?_mapValues] at hrecord
      obtain ⟨before, -, rfl⟩ := Option.map_eq_some_iff.mp hrecord
      exfalso
      split at hrunning
      · cases hrunning
      · next hclosed =>
        apply hclosed
        unfold isOpenStep
        rw [hrunning]
        rfl
    · rintro ⟨-, hno⟩
      cases hno
  · rw [if_neg hcancelling]
    constructor
    · intro hrunning
      exact ⟨hreconciled.mp hrunning, Bool.eq_false_iff.mpr hcancelling⟩
    · intro hboth
      exact hreconciled.mpr hboth.1

private theorem Settles.not_running {now : Timestamp} {decision : InterruptedAttemptDecision}
    {interrupted : WorkflowStepAttempt} {definition : StepDefinition}
    {settleAttempt : WorkflowStepAttempt → WorkflowStepAttempt}
    {settleRecord : WorkflowStepRecord → WorkflowStepRecord} {outcome : RecoveryOutcome}
    (h : Settles now decision interrupted definition settleAttempt settleRecord outcome)
    (record : WorkflowStepRecord) :
    (settleRecord record).state ≠ .running := by
  cases h with
  | adopted _ => simp
  | retried _ _ _ => simp
  | failed _ _ => simp

variable {run next : WorkflowRunState} {now : Timestamp}

private theorem Recovers.stepRunning
    {decide : WorkflowStepAttempt → InterruptedAttemptDecision} {done : List WorkflowStepAttempt}
    {steps : OrderedRecord String WorkflowStepRecord} {attempts : List WorkflowStepAttempt}
    {recovered : List RecoveredAttempt}
    (h : Recovers now decide run done steps attempts recovered) (x : String) :
    StepRunning steps x ↔ StepRunning run.steps x ∧ x ∉ done.map (·.stepId) := by
  induction h with
  | nil => simp
  | @snoc done steps attempts recovered attempt record settleAttempt settleRecord outcome _ _
      hsettles ih =>
    rw [stepRunning_set, List.map_append, List.mem_append, not_or, List.map_singleton,
      List.mem_singleton]
    by_cases hx : x = attempt.stepId
    · rw [if_pos hx]
      exact ⟨fun hrunning => absurd hrunning (hsettles.not_running record),
        fun hboth => absurd hx hboth.2.2⟩
    · rw [if_neg hx, ih]
      exact ⟨fun hboth => ⟨hboth.1, hboth.2, hx⟩, fun hboth => ⟨hboth.1, hboth.2.1⟩⟩

private theorem stepRunning_unblocked {steps : OrderedRecord String WorkflowStepRecord} {x : String} :
    StepRunning (unblocked steps) x ↔ StepRunning steps x := by
  apply stepRunning_mapValues
  intro stepId record
  split
  · next hblocked => simp [hblocked]
  · exact Iff.rfl

/-- A write starts a step by reserving an attempt of it, and ends steps in a few ways only. -/
theorem Transaction.apply_stepRunning {transaction : Transaction}
    (h : transaction.apply now run = .ok next) (hkept : PlanKept run) (x : String) :
    StepRunning next.steps x ↔
      transaction.startsStep run x ∨ StepRunning run.steps x ∧ ¬ transaction.endsStep run x := by
  have hsame (heq : StepRunning next.steps x ↔ StepRunning run.steps x) :
      StepRunning next.steps x ↔ False ∨ StepRunning run.steps x ∧ ¬ False := by
    rw [heq, false_or, not_false_eq_true, and_true]
  cases transaction with
  | requestCancellation reason =>
    cases h
    apply hsame
    rw [(requestCancellation_rewrites reason now run).steps]
  | reserve attempt =>
    simp only [endsStep, startsStep, not_false_eq_true, and_true]
    rcases reserveAttempt_ok h with ⟨hnot, rfl⟩ | ⟨hlaunchable, record, -, hwrite⟩
    · constructor
      · exact Or.inr
      · rintro (⟨rfl, hmem⟩ | hrunning)
        · exact absurd hmem hnot
        · exact hrunning
    · rw [hwrite.steps, stepRunning_set]
      by_cases hx : x = attempt.stepId
      · rw [if_pos hx]
        exact ⟨fun _ => Or.inl ⟨hx, by rw [hx]; exact hlaunchable⟩, fun _ => rfl⟩
      · rw [if_neg hx]
        exact ⟨Or.inr, fun hor => hor.resolve_left fun hstart => hx hstart.1⟩
  | markRunning attemptId =>
    cases h
    exact hsame Iff.rfl
  | recordWorker attemptId workerId =>
    cases h
    exact hsame Iff.rfl
  | settleStep stepId attempt executed routing =>
    obtain ⟨record, artifactIds, -, hwrite⟩ := settleStep_ok h
    rw [hwrite.steps, stepRunning_set_reconciled (settledRecord_not_running _ _ _)]
    simp [startsStep, endsStep]
  | failStep stepId message =>
    obtain ⟨record, -, hwrite⟩ := failStep_ok h
    rw [hwrite.steps, stepRunning_set_reconciled (by simp)]
    simp [startsStep, endsStep]
  | recordIntegration ticket commit =>
    obtain ⟨record, hrecord, hwrite⟩ := recordIntegration_ok h
    apply hsame
    rw [hwrite.steps, stepRunning_reconciledSteps, stepRunning_set]
    by_cases hx : x = ticket.stepId
    · rw [if_pos hx, hx]
      unfold StepRunning
      simp [hrecord]
    · rw [if_neg hx]
  | recordIntegrationFailure ticket error =>
    obtain ⟨record, -, hwrite⟩ := recordIntegrationFailure_ok h
    rw [hwrite.steps, stepRunning_set_reconciled (by simp)]
    simp [startsStep, endsStep]
  | settleRun cancelled =>
    cases h
    rw [(settleRun_rewrites cancelled now run).steps, stepRunning_settledSteps]
    simp [startsStep, endsStep]
  | recover decide =>
    obtain ⟨⟨settled, recovered⟩, hrecover, rfl⟩ := map_ok_iff.mp h
    obtain ⟨bound, hbound⟩ := exists_number_bound (activeAttempts run)
    obtain ⟨steps, attempts, hrecovers, ⟨hnone, rfl⟩ | ⟨-, hwrite⟩⟩ :=
      recoverWorkflowRun_ok hbound hrecover
    · simp [startsStep, endsStep, activeStepIds, hnone]
    · rw [hwrite.steps, stepRunning_reconciledSteps, stepRunning_unblocked, hrecovers.stepRunning]
      simp [startsStep, endsStep, activeStepIds]
  | relaunch stopped =>
    cases h
    obtain ⟨bound, hbound⟩ := exists_attemptIds_bound run
    apply hsame
    rw [(@relaunchSteps_rewrites run now stopped bound hbound).steps, stepRunning_reconciledSteps]
    apply stepRunning_mapValues
    intro stepId record
    split
    · next hreset => rcases hreset with hstate | ⟨hstate, -⟩ <;> simp [hstate]
    · exact Iff.rfl
  | retry =>
    obtain ⟨bound, hbound⟩ := exists_attemptIds_bound run
    obtain ⟨-, ⟨-, rfl⟩ | ⟨-, hwrite⟩⟩ := retrySteps_ok hbound h
    · exact hsame Iff.rfl
    · apply hsame
      rw [hwrite.steps, stepRunning_reconciledSteps]
      apply stepRunning_mapValues
      intro stepId record
      split
      · next hreset => rcases hreset with hstate | hstate <;> simp [hstate]
      · exact Iff.rfl
  | admission request =>
    obtain ⟨-, authority, plan, -, hgrown, -, -, -, -, -, -, hsteps, -, -⟩ := admitSteps_ok h
    obtain ⟨hwell, hplan⟩ := grownPlan_steps hgrown
    apply hsame
    rw [hsteps, stepRunning_reconciledSteps]
    constructor
    · rintro ⟨record, hrecord, hrunning⟩
      rcases (get?_admittedSteps hkept hwell hplan).mp hrecord with hold | ⟨definition, -, -, rfl⟩
      · exact ⟨record, hold, hrunning⟩
      · cases hrunning
    · rintro ⟨record, hrecord, hrunning⟩
      exact ⟨record, (get?_admittedSteps hkept hwell hplan).mpr (Or.inl hrecord), hrunning⟩

/-! ## Attempts -/

/-- The fields of an attempt no write changes. -/
structure SameAttempt (before after : WorkflowStepAttempt) : Prop where
  id : after.id = before.id
  stepId : after.stepId = before.stepId
  number : after.number = before.number
  workspaceRequirement : after.workspaceRequirement = before.workspaceRequirement
  workspacePath : after.workspacePath = before.workspacePath
  branch : after.branch = before.branch
  baseCommit : after.baseCommit = before.baseCommit
  startedAt : after.startedAt = before.startedAt

theorem SameAttempt.refl (attempt : WorkflowStepAttempt) : SameAttempt attempt attempt :=
  ⟨rfl, rfl, rfl, rfl, rfl, rfl, rfl, rfl⟩

theorem SameAttempt.trans {first second third : WorkflowStepAttempt} (h : SameAttempt first second)
    (h' : SameAttempt second third) : SameAttempt first third :=
  ⟨h'.id.trans h.id, h'.stepId.trans h.stepId, h'.number.trans h.number,
    h'.workspaceRequirement.trans h.workspaceRequirement, h'.workspacePath.trans h.workspacePath,
    h'.branch.trans h.branch, h'.baseCommit.trans h.baseCommit, h'.startedAt.trans h.startedAt⟩

/-- The attempts a write settles, by id. -/
def Transaction.settlesAttempt (run : WorkflowRunState) (attemptId : String) : Transaction → Prop
  | .settleStep _ attempt _ _ => attemptId = attempt.id
  | .recover _ => attemptId ∈ (activeAttempts run).map (·.id)
  | _ => False

/-- How one write changes an attempt that is there. -/
structure Evolves (run : WorkflowRunState) (transaction : Transaction)
    (before after : WorkflowStepAttempt) : Prop where
  same : SameAttempt before after
  settled : transaction.settlesAttempt run before.id → after.state.isActive = false
  kept : ¬ transaction.settlesAttempt run before.id → after.state = before.state ∨
    transaction = .markRunning before.id ∧ after.state = .running

/-- What an attempt produced. -/
structure SameResult (before after : WorkflowStepAttempt) : Prop where
  commit : after.commit = before.commit
  evidence : after.evidence = before.evidence
  artifactIds : after.artifactIds = before.artifactIds

/-- How one write changes an attempt that is there, and what it produced. -/
structure EvolvesResult (run : WorkflowRunState) (transaction : Transaction)
    (before after : WorkflowStepAttempt) : Prop extends Evolves run transaction before after where
  result : ¬ transaction.settlesAttempt run before.id → SameResult before after

private theorem evolves_refl {transaction : Transaction} {attempt : WorkflowStepAttempt}
    (h : ¬ transaction.settlesAttempt run attempt.id) :
    EvolvesResult run transaction attempt attempt :=
  ⟨⟨SameAttempt.refl attempt, fun hsettles => absurd hsettles h, fun _ => Or.inl rfl⟩,
    fun _ => ⟨rfl, rfl, rfl⟩⟩

private theorem settledAttempt_same (outcome : StepOutcome) (executed : StepExecutionResult)
    (artifactIds : List String) (attempt : WorkflowStepAttempt) :
    SameAttempt attempt (settledAttempt outcome executed artifactIds attempt) ∧
      (settledAttempt outcome executed artifactIds attempt).state = outcome.attemptState := by
  unfold settledAttempt
  cases outcome with
  | succeeded summary workerId commit evidence => exact ⟨⟨rfl, rfl, rfl, rfl, rfl, rfl, rfl, rfl⟩, rfl⟩
  | failed error workerId retryable => exact ⟨⟨rfl, rfl, rfl, rfl, rfl, rfl, rfl, rfl⟩, rfl⟩
  | cancelled error workerId => exact ⟨⟨rfl, rfl, rfl, rfl, rfl, rfl, rfl, rfl⟩, rfl⟩

private theorem attemptState_not_active (outcome : StepOutcome) :
    outcome.attemptState.isActive = false := by
  cases outcome <;> rfl

/-- A settled attempt keeps its fields and is not active. -/
theorem Settles.attempt {decision : InterruptedAttemptDecision}
    {interrupted : WorkflowStepAttempt} {definition : StepDefinition}
    {settleAttempt : WorkflowStepAttempt → WorkflowStepAttempt}
    {settleRecord : WorkflowStepRecord → WorkflowStepRecord} {outcome : RecoveryOutcome}
    (h : Settles now decision interrupted definition settleAttempt settleRecord outcome)
    (attempt : WorkflowStepAttempt) :
    SameAttempt attempt (settleAttempt attempt) ∧ (settleAttempt attempt).state.isActive = false := by
  cases h with
  | adopted _ => exact ⟨⟨rfl, rfl, rfl, rfl, rfl, rfl, rfl, rfl⟩, rfl⟩
  | retried _ _ _ => exact ⟨⟨rfl, rfl, rfl, rfl, rfl, rfl, rfl, rfl⟩, rfl⟩
  | failed _ _ => exact ⟨⟨rfl, rfl, rfl, rfl, rfl, rfl, rfl, rfl⟩, rfl⟩

private theorem Recovers.attempts
    {decide : WorkflowStepAttempt → InterruptedAttemptDecision} {done : List WorkflowStepAttempt}
    {steps : OrderedRecord String WorkflowStepRecord} {attempts : List WorkflowStepAttempt}
    {recovered : List RecoveredAttempt}
    (h : Recovers now decide run done steps attempts recovered) :
    ∃ f, attempts = run.attempts.map f ∧ ∀ x, SameAttempt x (f x) ∧
      (x.id ∈ done.map (·.id) → (f x).state.isActive = false) ∧
      (x.id ∉ done.map (·.id) → f x = x) := by
  induction h with
  | nil =>
    refine ⟨id, by simp, fun x => ⟨SameAttempt.refl x, by simp, fun _ => rfl⟩⟩
  | @snoc done steps attempts recovered attempt record settleAttempt settleRecord outcome _ _
      hsettles ih =>
    obtain ⟨f, rfl, hf⟩ := ih
    refine ⟨fun x => if (f x).id = attempt.id then settleAttempt (f x) else f x, ?_, ?_⟩
    · rw [updateAttempts, List.map_map]
      rfl
    · intro x
      obtain ⟨hsame, hsettled, hkept⟩ := hf x
      dsimp only
      rw [List.map_append, List.mem_append, not_or, List.map_singleton, List.mem_singleton, hsame.id]
      by_cases hid : x.id = attempt.id
      · obtain ⟨hlater, hinactive⟩ := hsettles.attempt (f x)
        rw [if_pos hid]
        exact ⟨hsame.trans hlater, fun _ => hinactive, fun hnot => absurd hid hnot.2⟩
      · rw [if_neg hid]
        exact ⟨hsame, fun hor => hsettled (hor.resolve_right hid), fun hnot => hkept hnot.1⟩

private theorem updateAttempts_evolves {transaction : Transaction} {attemptId : String}
    {update : WorkflowStepAttempt → WorkflowStepAttempt}
    (hupdate : ∀ x, x.id = attemptId → EvolvesResult run transaction x (update x))
    (hother : ∀ x : WorkflowStepAttempt, x.id ≠ attemptId →
      ¬ transaction.settlesAttempt run x.id) :
    ∃ f, updateAttempts run.attempts attemptId update = run.attempts.map f ∧
      ∀ x, EvolvesResult run transaction x (f x) := by
  refine ⟨fun x => if x.id = attemptId then update x else x, rfl, ?_⟩
  intro x
  dsimp only
  by_cases hid : x.id = attemptId
  · rw [if_pos hid]
    exact hupdate x hid
  · rw [if_neg hid]
    exact evolves_refl (hother x hid)

/-- A write adds the attempt it reserves and changes the others one by one; what an attempt it does
not settle produced stays. -/
theorem Transaction.apply_results {transaction : Transaction}
    (h : transaction.apply now run = .ok next) :
    (∃ attempt, transaction = .reserve attempt ∧ attempt.stepId ∈ launchableStepIds run ∧
        next.attempts = run.attempts ++ [attempt]) ∨
      ∃ f, next.attempts = run.attempts.map f ∧ ∀ x, EvolvesResult run transaction x (f x) := by
  have hsame (hattempts : next.attempts = run.attempts)
      (hnone : ∀ id, ¬ transaction.settlesAttempt run id) :
      ∃ f, next.attempts = run.attempts.map f ∧ ∀ x, EvolvesResult run transaction x (f x) :=
    ⟨id, by rw [hattempts, List.map_id], fun x => evolves_refl (hnone x.id)⟩
  cases transaction with
  | requestCancellation reason =>
    cases h
    exact Or.inr (hsame (requestCancellation_rewrites reason now run).attempts fun _ => id)
  | reserve attempt =>
    rcases reserveAttempt_ok h with ⟨-, rfl⟩ | ⟨hlaunchable, record, -, hwrite⟩
    · exact Or.inr (hsame rfl fun _ => id)
    · exact Or.inl ⟨attempt, rfl, hlaunchable, hwrite.attempts⟩
  | markRunning attemptId =>
    cases h
    right
    apply updateAttempts_evolves
    · rintro x rfl
      exact ⟨⟨⟨rfl, rfl, rfl, rfl, rfl, rfl, rfl, rfl⟩, False.elim, fun _ => Or.inr ⟨rfl, rfl⟩⟩,
        fun _ => ⟨rfl, rfl, rfl⟩⟩
    · exact fun _ _ => id
  | recordWorker attemptId workerId =>
    cases h
    right
    apply updateAttempts_evolves
    · intro x _
      exact ⟨⟨⟨rfl, rfl, rfl, rfl, rfl, rfl, rfl, rfl⟩, False.elim, fun _ => Or.inl rfl⟩,
        fun _ => ⟨rfl, rfl, rfl⟩⟩
    · exact fun _ _ => id
  | settleStep stepId attempt executed routing =>
    obtain ⟨record, artifactIds, -, hwrite⟩ := settleStep_ok h
    right
    rw [hwrite.attempts]
    apply updateAttempts_evolves
    · intro x hid
      obtain ⟨hsettled, hstate⟩ :=
        settledAttempt_same (settledOutcome executed routing) executed artifactIds x
      refine ⟨⟨hsettled, ?_, fun hnot => absurd hid hnot⟩, fun hnot => absurd hid hnot⟩
      intro _
      rw [hstate]
      exact attemptState_not_active _
    · exact fun x hid hsettles => hid hsettles
  | failStep stepId message =>
    obtain ⟨record, -, hwrite⟩ := failStep_ok h
    exact Or.inr (hsame hwrite.attempts fun _ => id)
  | recordIntegration ticket commit =>
    obtain ⟨record, -, hwrite⟩ := recordIntegration_ok h
    exact Or.inr (hsame hwrite.attempts fun _ => id)
  | recordIntegrationFailure ticket error =>
    obtain ⟨record, -, hwrite⟩ := recordIntegrationFailure_ok h
    exact Or.inr (hsame hwrite.attempts fun _ => id)
  | settleRun cancelled =>
    cases h
    exact Or.inr (hsame (settleRun_rewrites cancelled now run).attempts fun _ => id)
  | recover decide =>
    obtain ⟨⟨settled, recovered⟩, hrecover, rfl⟩ := map_ok_iff.mp h
    obtain ⟨bound, hbound⟩ := exists_number_bound (activeAttempts run)
    obtain ⟨steps, attempts, hrecovers, ⟨hnone, rfl⟩ | ⟨-, hwrite⟩⟩ :=
      recoverWorkflowRun_ok hbound hrecover
    · right
      apply hsame rfl
      intro id hid
      rw [settlesAttempt, hnone] at hid
      cases hid
    · right
      obtain ⟨f, hattempts, hf⟩ := hrecovers.attempts
      refine ⟨f, hwrite.attempts.trans hattempts, ?_⟩
      intro x
      obtain ⟨hsameFields, hinactive, hkept⟩ := hf x
      refine ⟨⟨hsameFields, hinactive, fun hnot => Or.inl (by rw [hkept hnot])⟩, ?_⟩
      intro hnot
      rw [hkept hnot]
      exact ⟨rfl, rfl, rfl⟩
  | relaunch stopped =>
    cases h
    obtain ⟨bound, hbound⟩ := exists_attemptIds_bound run
    exact Or.inr (hsame (@relaunchSteps_rewrites run now stopped bound hbound).attempts fun _ => id)
  | retry =>
    obtain ⟨bound, hbound⟩ := exists_attemptIds_bound run
    obtain ⟨-, ⟨-, rfl⟩ | ⟨-, hwrite⟩⟩ := retrySteps_ok hbound h
    · exact Or.inr (hsame rfl fun _ => id)
    · exact Or.inr (hsame hwrite.attempts fun _ => id)
  | admission request =>
    obtain ⟨-, authority, plan, -, -, -, -, -, -, -, -, -, hattempts, -⟩ := admitSteps_ok h
    exact Or.inr (hsame hattempts fun _ => id)

/-- A write adds the attempt it reserves and changes the others one by one. -/
theorem Transaction.apply_attempts {transaction : Transaction}
    (h : transaction.apply now run = .ok next) :
    (∃ attempt, transaction = .reserve attempt ∧ attempt.stepId ∈ launchableStepIds run ∧
        next.attempts = run.attempts ++ [attempt]) ∨
      ∃ f, next.attempts = run.attempts.map f ∧ ∀ x, Evolves run transaction x (f x) := by
  rcases apply_results h with hreserved | ⟨f, hattempts, hf⟩
  · exact Or.inl hreserved
  · exact Or.inr ⟨f, hattempts, fun x => (hf x).toEvolves⟩

end BuildConductor.Lifecycle
