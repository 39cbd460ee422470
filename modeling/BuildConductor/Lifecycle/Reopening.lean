import BuildConductor.Lifecycle.Progress

/-!
# Reopened runs

The retry of failed work and the relaunch of interrupted work set a stopped run back to running.
The reopened run is free of failures just when every step that failed, is blocked or was cancelled
is reset; then nothing of it runs, and it ends completed unless something stops it again.
`src/src/workflows/change-run.ts:342-480`.
-/

namespace BuildConductor.Lifecycle

open Base Domain Security Engine Workflows Storage

/-- Whether a process is about to reopen the run. -/
def Process.reopens : Process → Bool
  | .relaunching _ | .retrying => true
  | _ => false

/-- Every run of the system that stays running, and is not reopened again, ends completed when its
engine settles it. -/
def EndsCompleted (accepts : WorkflowRunState → Prop) (world : World) : Prop :=
  ∀ final e now, ((engineSystem PlanValidated accepts).restrict Unreopened).Runs world final →
    final.run.state = .running → final.process = .engine e → e.phase = .settling false →
      (settleRun false now final.run).state = .completed

/-- A reopened run holds nothing that stopped it and everything that succeeded. -/
structure ReopensClean (accepts : WorkflowRunState → Prop) (run : WorkflowRunState) (later : World) :
    Prop where
  running : later.run.state = .running
  clean : NoFailures later.run.steps
  succeeded : ∀ stepId record, run.steps.get? stepId = some record → record.state = .succeeded →
    later.run.steps.get? stepId = some record
  attempts : later.run.attempts = run.attempts
  completes : EndsCompleted accepts later

/-! ## Steps that are reset -/

section Reset

variable {run : WorkflowRunState} {steps : OrderedRecord String WorkflowStepRecord}
  {resets : String → WorkflowStepRecord → Prop} [∀ stepId record, Decidable (resets stepId record)]
  {clear : WorkflowStepRecord → WorkflowStepRecord}

/-- The steps with some of them planned again. -/
private def resetSteps (resets : String → WorkflowStepRecord → Prop)
    [∀ stepId record, Decidable (resets stepId record)]
    (clear : WorkflowStepRecord → WorkflowStepRecord)
    (steps : OrderedRecord String WorkflowStepRecord) : OrderedRecord String WorkflowStepRecord :=
  steps.mapValues fun stepId record => if resets stepId record then clear record else record

private theorem isWaiting_of_isTerminalFailure {state : StepRunState}
    (h : state.isTerminalFailure = true) : state.isWaiting = false := by
  cases state <;> simp_all [StepRunState.isWaiting, StepRunState.isTerminalFailure]

/-- Planning some steps again leaves no failure just when every failure is among them. -/
private theorem noFailures_reset_iff (hclear : ∀ record, (clear record).state = .planned)
    (hkept : PlanKept { run with steps := resetSteps resets clear steps }) :
    NoFailures (reconciledSteps run (resetSteps resets clear steps)) ↔
      ∀ stepId record, steps.get? stepId = some record → record.state.isTerminalFailure = true →
        resets stepId record := by
  constructor
  · intro hclean stepId record hrecord hfailure
    by_contra hkeeps
    have hsame : (resetSteps resets clear steps).get? stepId = some record := by
      rw [resetSteps, OrderedRecord.get?_mapValues, hrecord, Option.map_some, if_neg hkeeps]
    have hlater := @reconcile_keeps { run with steps := resetSteps resets clear steps } _ _ hsame
      (isWaiting_of_isTerminalFailure hfailure)
    rw [hclean stepId record hlater] at hfailure
    cases hfailure
  · intro hall
    apply NoFailures.reconciled _ hkept
    intro stepId later hlater
    rw [resetSteps, OrderedRecord.get?_mapValues, Option.map_eq_some_iff] at hlater
    obtain ⟨record, hrecord, rfl⟩ := hlater
    split
    · rw [hclear]
      rfl
    · next hkeeps =>
      rw [← Bool.not_eq_true]
      intro hfailure
      exact hkeeps (hall stepId record hrecord hfailure)

/-- A step that is not reset and does not wait is kept. -/
private theorem reset_keeps {stepId : String} {record : WorkflowStepRecord}
    (hrecord : steps.get? stepId = some record) (hresets : ¬ resets stepId record)
    (hstate : record.state.isWaiting = false) :
    (reconciledSteps run (resetSteps resets clear steps)).get? stepId = some record := by
  have hsame : (resetSteps resets clear steps).get? stepId = some record := by
    rw [resetSteps, OrderedRecord.get?_mapValues, hrecord, Option.map_some, if_neg hresets]
  exact @reconcile_keeps { run with steps := resetSteps resets clear steps } _ _ hsame hstate

end Reset

/-! ## Nothing runs when a run is reopened -/

section Claims

variable {accepts : WorkflowRunState → Prop} {world later : World} {action : Action}
  {run next : WorkflowRunState} {now : Timestamp} {transaction : Transaction}

/-- Every running step has an active attempt, and no attempt is active while a process is about to
reopen the run. -/
private structure Claimed (world : World) : Prop where
  running : ∀ stepId, StepRunning world.run.steps stepId → stepId ∈ activeStepIds world.run
  reopening : world.process.reopens = true → activeStepIds world.run = []

/-- A write that settles an attempt ends its step. -/
private def SettlesEnded (run : WorkflowRunState) (transaction : Transaction) : Prop :=
  ∀ attempt ∈ run.attempts, attempt.state.isActive = true →
    transaction.settlesAttempt run attempt.id → transaction.endsStep run attempt.stepId

private theorem running_apply (h : ∀ stepId, StepRunning run.steps stepId → stepId ∈ activeStepIds run)
    (happly : transaction.apply now run = .ok next) (hkept : PlanKept run)
    (hmark : ∀ attemptId, transaction = .markRunning attemptId →
      ∀ attempt ∈ run.attempts, attempt.id = attemptId → attempt.state.isActive = true)
    (hreserve : ∀ attempt, transaction = .reserve attempt → attempt.state.isActive = true)
    (hends : SettlesEnded run transaction) :
    ∀ stepId, StepRunning next.steps stepId → stepId ∈ activeStepIds next := by
  intro stepId hrunning
  rw [Transaction.apply_active happly hmark hreserve]
  rcases (Transaction.apply_stepRunning happly hkept stepId).mp hrunning with
    hstarts | ⟨hbefore, hopen⟩
  · exact Or.inl hstarts
  · obtain ⟨attempt, hattempt, hlive, hstep⟩ := mem_activeStepIds_iff.mp (h stepId hbefore)
    refine Or.inr ⟨attempt, hattempt, hlive, hstep, ?_⟩
    intro hsettles
    apply hopen
    rw [← hstep]
    exact hends attempt hattempt hlive hsettles

private theorem settlesEnded_issues {process process' : Process} (htable : AttemptTable run)
    (htracked : ∀ e, process = .engine e → EngineTracked run e)
    (hissues : Issues now run next process transaction process') : SettlesEnded run transaction := by
  intro stored hstored hlive hsettles
  cases hissues with
  | @settleStep e pre post attempt executed routing hentries =>
    have hmem : ⟨attempt, .executing⟩ ∈ e.active := by
      rw [hentries]
      exact List.mem_append_right _ (List.mem_cons_self ..)
    obtain ⟨other, hother, hsame, -⟩ := (htracked e rfl).carried _ hmem
    have heq : stored = other :=
      List.inj_on_of_nodup_map htable.nodup hstored hother (Eq.trans hsettles hsame.id.symm)
    rw [heq]
    exact hsame.stepId
  | recover _ => exact mem_activeStepIds_iff.mpr ⟨stored, hstored, hlive, rfl⟩
  | _ => exact hsettles.elim

/-- No process is about to reopen a run unless nothing of it is active. -/
private theorem reopening_issues {process process' : Process}
    (h : process.reopens = true → activeStepIds run = [])
    (hissues : Issues now run next process transaction process')
    (happly : transaction.apply now run = .ok next)
    (hmark : ∀ attemptId, transaction = .markRunning attemptId →
      ∀ attempt ∈ run.attempts, attempt.id = attemptId → attempt.state.isActive = true) :
    process'.reopens = true → activeStepIds next = [] := by
  intro hreopens
  cases hissues with
  | @recover loaded observations recovered _ =>
    rw [List.eq_nil_iff_forall_not_mem]
    intro stepId hactive
    rcases (Transaction.apply_active happly hmark (by simp) stepId).mp hactive with
      hno | ⟨stored, hstored, hlive, -, hsettles⟩
    · cases hno
    · exact hsettles (List.mem_map.mpr ⟨stored, List.mem_filter.mpr ⟨hstored, hlive⟩, rfl⟩)
  | admission => exact no_active_apply happly hmark (by simp) (h hreopens)
  | retry => split at hreopens <;> cases hreopens
  | _ => cases hreopens

private theorem reopening_refuses {process process' : Process} (hrefuses : Refuses process transaction process')
    (hreopens : process'.reopens = true) : process.reopens = true := by
  cases hrefuses with
  | admission => exact hreopens
  | _ => cases hreopens

private theorem Claimed.step (h : Claimed world) (hkept : PlanKept world.run)
    (htracked : Tracked world) (hstep : Step accepts world action later) : Claimed later := by
  have hmarks : ∀ transaction, action = .write transaction → ∀ attemptId,
      transaction = .markRunning attemptId → ∀ attempt ∈ world.run.attempts,
        attempt.id = attemptId → attempt.state.isActive = true := by
    rintro transaction rfl attemptId rfl attempt hattempt hid
    rw [htracked.marks_prepared hstep attempt hattempt hid]
    rfl
  cases hstep with
  | @write transaction next process now hissues happly _ =>
    have hmark := hmarks transaction rfl
    constructor
    · apply running_apply h.running happly hkept hmark
      · rintro attempt rfl
        rw [(reserves_prepared hissues htracked.engine).2]
        rfl
      · exact settlesEnded_issues htracked.table htracked.engine hissues
    · exact reopening_issues h.reopening hissues happly hmark
  | requestCancellation happly _ | settleCancelled _ happly _ =>
    have hmark := hmarks _ rfl
    constructor
    · exact running_apply h.running happly hkept hmark (by simp) fun _ _ _ => False.elim
    · exact fun hreopens => no_active_apply happly hmark (by simp) (h.reopening hreopens)
  | refuse hrefuses =>
    exact ⟨h.running, fun hreopens => h.reopening (reopening_refuses hrefuses hreopens)⟩
  | assessRetry _ hassessed _ =>
    refine ⟨h.running, fun _ => ?_⟩
    unfold retryAssessed at hassessed
    rw [Bool.and_eq_true, List.isEmpty_iff] at hassessed
    exact activeAttempts_eq_nil_iff.mp hassessed.1
  | dropCanceller _ => exact ⟨h.running, h.reopening⟩
  | move _ _ | resume _ | crash _ | stop _ _ _ => exact ⟨h.running, fun hreopens => by cases hreopens⟩

private theorem claimed_reachable (h : (engineSystem PlanValidated accepts).Reachable world) :
    Claimed world := by
  apply h.invariant
  · intro s hstarts
    obtain ⟨input, -, hcreate⟩ := hstarts.input
    constructor
    · rintro stepId ⟨record, hrecord, hrunning⟩
      exact absurd hrunning
        (created_not_running (createWorkflowRunState_ok hcreate) (planKept_of_starts hstarts) hrecord)
    · intro hreopens
      rw [hstarts.process] at hreopens
      cases hreopens
  · exact fun s a t hreach hs hstep =>
      hs.step (planKept_reachable hreach) (tracked_reachable hreach) hstep

/-! ## What a reopened run comes to -/

/-- The state a run settles to when every step has succeeded. -/
private theorem settleRun_completed (hrunning : run.state = .running)
    (hall : ∀ stepId record, run.steps.get? stepId = some record → record.state = .succeeded) :
    (settleRun false now run).state = .completed := by
  have hvalues : ∀ state ∈ (settledSteps false run).steps.values.map (·.state),
      state = .succeeded := by
    intro state hstate
    obtain ⟨record, hvalue, rfl⟩ := List.mem_map.mp hstate
    obtain ⟨stepId, hrecord⟩ := (OrderedRecord.mem_values_iff _ _).mp hvalue
    obtain ⟨before, hbefore, -⟩ :=
      (sameDefinitions_of_states (settledSteps_sameButStates false run)).left hrecord
    have hsucceeded := hall stepId before hbefore
    have hfinal := @settledSteps_keeps_succeeded false _ _ _ hbefore hsucceeded
    rw [hrecord, Option.some.injEq] at hfinal
    rw [hfinal, hsucceeded]
  rw [(settleRun_rewrites false now run).state]
  unfold settledRunLifecycle
  rw [if_neg (by simp [hrunning]), if_neg, if_pos]
  · rw [List.all_eq_true]
    exact fun state hstate => decide_eq_true (hvalues state hstate)
  · intro hany
    obtain ⟨state, hstate, hopen⟩ := List.any_eq_true.mp hany
    rw [hvalues state hstate] at hopen
    cases hopen

/-- A reopened run without failures, of which nothing is active, ends completed. -/
private theorem endsCompleted_of_progressing
    (hreach : (engineSystem PlanValidated accepts).Reachable later)
    (hprogress : Progressing later) : EndsCompleted accepts later := by
  intro final e now hruns hrunning hengine hphase
  have hinvariant : (engineSystem PlanValidated accepts).Reachable final ∧
      (final.run.state = .running → Progressing final) := by
    apply hruns.preserves _ ⟨hreach, fun _ => hprogress⟩
    rintro s action t ⟨hreachable, hs⟩ ⟨hunreopened, hstep⟩
    refine ⟨hreachable.step hstep, fun hlater => ?_⟩
    exact (hs (Step.running hstep hunreopened hlater).1).step (planKept_reachable hreachable)
      (tracked_reachable hreachable) (exclusive_reachable hreachable) hstep hunreopened hlater
  obtain ⟨hreachable, hfinal⟩ := hinvariant
  have hkept := planKept_reachable hreachable
  apply settleRun_completed hrunning
  intro stepId record hrecord
  exact (hfinal hrunning).settling_succeeded hkept (isReconciled_reachable hreachable)
    (workers_pos_reachable hreachable) hrunning hengine hphase hrecord

section Reopens

variable {resets : String → WorkflowStepRecord → Prop}
  [∀ stepId record, Decidable (resets stepId record)]
  {clear : WorkflowStepRecord → WorkflowStepRecord}

/-- A process that was about to reopen a run starts its engine over the reset steps: the reopened
run is clean just when every failure was reset. -/
private theorem reopensClean_iff (hreach : (engineSystem PlanValidated accepts).Reachable world)
    (hstep : Step accepts world action later) (hbefore : world.process.reopens = true)
    (hprocess : later.process = .engine .start) (hplan : later.run.plan = world.run.plan)
    (hstate : later.run.state = .running)
    (hsteps : later.run.steps = reconciledSteps world.run (resetSteps resets clear world.run.steps))
    (hattempts : later.run.attempts = world.run.attempts)
    (hclear : ∀ record, (clear record).state = .planned)
    (hsucceeded : ∀ stepId record, record.state = .succeeded → ¬ resets stepId record) :
    ReopensClean accepts world.run later ↔ ∀ stepId record,
      world.run.steps.get? stepId = some record → record.state.isTerminalFailure = true →
        resets stepId record := by
  have hlater := hreach.step hstep
  have hkept := (planKept_reachable hlater).before_reconciled hplan hsteps
  have hnone : activeStepIds later.run = [] := by
    have hworld := (claimed_reachable hreach).reopening hbefore
    unfold activeStepIds activeAttempts at hworld ⊢
    rw [hattempts]
    exact hworld
  rw [← noFailures_reset_iff hclear hkept, ← hsteps]
  refine ⟨fun h => h.clean, fun hclean => ?_⟩
  have hprogress : Progressing later := by
    refine ⟨hclean, ⟨?_, ?_⟩, ?_⟩
    · intro stepId
      rw [hnone]
      refine ⟨fun hmem => absurd hmem List.not_mem_nil, fun hrunning => ?_⟩
      rw [← hnone]
      exact (claimed_reachable hlater).running stepId hrunning
    · rw [hprocess]
      exact engineCovers_start hnone
    · intro e hengine _
      rw [hprocess] at hengine
      cases hengine
      trivial
  refine ⟨hstate, hclean, ?_, hattempts, endsCompleted_of_progressing hlater hprogress⟩
  intro stepId record hrecord hdone
  rw [hsteps]
  apply reset_keeps hrecord (hsucceeded stepId record hdone)
  rw [hdone]
  rfl

end Reopens

private theorem Step.retry_cases (hstep : Step accepts world (.write .retry) later)
    (hresets : retryResetIds world.run ≠ []) :
    ∃ now, world.process.reopens = true ∧ later.process = .engine .start ∧
      retrySteps now world.run = .ok later.run := by
  cases hstep with
  | @write _ next process now hissues happly _ =>
    generalize hprocess : world.process = before at hissues
    cases hissues with
    | retry => exact ⟨now, rfl, if_neg hresets, happly⟩

private theorem Step.relaunch_cases {stopped : List String}
    (hstep : Step accepts world (.write (.relaunch stopped)) later) :
    ∃ now, world.process.reopens = true ∧ later.process = .engine .start ∧
      later.run = relaunchSteps stopped now world.run := by
  cases hstep with
  | @write _ next process now hissues happly _ =>
    generalize hprocess : world.process = before at hissues
    cases hissues with
    | relaunch => exact ⟨now, rfl, rfl, (Except.ok.inj happly).symm⟩

/-- A retry that resets something leaves the run clean just when no step was cancelled. -/
theorem retry_clean_iff (hreach : (engineSystem PlanValidated accepts).Reachable world)
    (hstep : Step accepts world (.write .retry) later) (hresets : retryResetIds world.run ≠ []) :
    ReopensClean accepts world.run later ↔
      ∀ stepId record, world.run.steps.get? stepId = some record → record.state ≠ .cancelled := by
  obtain ⟨now, hbefore, hprocess, happly⟩ := hstep.retry_cases hresets
  obtain ⟨bound, hbound⟩ := exists_attemptIds_bound world.run
  obtain ⟨-, ⟨hnone, -⟩ | ⟨-, hwrite⟩⟩ := retrySteps_ok hbound happly
  · exact absurd hnone hresets
  · rw [reopensClean_iff hreach hstep hbefore hprocess hwrite.plan hwrite.state hwrite.steps
      hwrite.attempts (fun _ => rfl) (fun _ _ hdone => by simp [hdone])]
    apply forall₃_congr
    intro stepId record _
    cases record.state <;> simp [StepRunState.isTerminalFailure]

/-- A relaunch leaves the run clean just when no step was cancelled and every failed step is one
that recovery stopped. -/
theorem relaunch_clean_iff (hreach : (engineSystem PlanValidated accepts).Reachable world)
    {stopped : List String} (hstep : Step accepts world (.write (.relaunch stopped)) later) :
    ReopensClean accepts world.run later ↔
      ∀ stepId record, world.run.steps.get? stepId = some record → record.state ≠ .cancelled ∧
        (record.state = .failed → stepId ∈ stopped) := by
  obtain ⟨now, hbefore, hprocess, happly⟩ := hstep.relaunch_cases
  obtain ⟨bound, hbound⟩ := exists_attemptIds_bound world.run
  have hwrite := @relaunchSteps_rewrites world.run now stopped bound hbound
  rw [← happly] at hwrite
  rw [reopensClean_iff hreach hstep hbefore hprocess hwrite.plan hwrite.state hwrite.steps
    hwrite.attempts (fun _ => rfl) (fun _ _ hdone => by simp [hdone])]
  apply forall₃_congr
  intro stepId record _
  cases record.state <;> simp [StepRunState.isTerminalFailure]

end Claims

end BuildConductor.Lifecycle
