import BuildConductor.Lifecycle.Agreement

/-!
# Progress

A running run that nobody reopened holds no failed, blocked or cancelled step. When nothing runs
and nothing is left to integrate, its first unfinished step is ready and can be launched, so the
engine settles such a run only once every step has succeeded.
`src/src/engine/scheduler.ts:26-206`, `src/src/engine/engine.ts:96-130,661-723`.
-/

namespace BuildConductor.Lifecycle

open Base Domain Security Engine Workflows Storage

/-- A step other than a user's retry or the relaunch of interrupted work. -/
def Unreopened (_world : World) : Action → Prop
  | .write .retry => False
  | .write (.relaunch _) => False
  | _ => True

/-- No step has failed, is blocked or was cancelled. -/
def NoFailures (steps : OrderedRecord String WorkflowStepRecord) : Prop :=
  ∀ stepId record, steps.get? stepId = some record → record.state.isTerminalFailure = false

private theorem settled_not_running (state : WorkflowRunLifecycleState) (states : List StepRunState) :
    settledRunLifecycle state states ≠ .running := by
  by_cases hstate : state = .running
  · rw [hstate]
    exact settledRunLifecycle_ne_running states
  · rw [settledRunLifecycle, if_pos hstate]
    exact hstate

section Write

variable {run next : WorkflowRunState} {now : Timestamp} {transaction : Transaction}

/-- Nothing but a reopening sets a run to running. -/
theorem Transaction.apply_running (h : transaction.apply now run = .ok next)
    (hretry : transaction ≠ .retry) (hrelaunch : ∀ stopped, transaction ≠ .relaunch stopped)
    (hrunning : next.state = .running) : run.state = .running := by
  cases transaction with
  | requestCancellation reason =>
    cases h
    rw [← hrunning, (requestCancellation_rewrites reason now run).state]
  | reserve attempt =>
    rcases reserveAttempt_ok h with ⟨-, rfl⟩ | ⟨-, record, -, hwrite⟩
    · exact hrunning
    · rw [← hrunning, hwrite.state]
  | markRunning attemptId =>
    cases h
    exact hrunning
  | recordWorker attemptId workerId =>
    cases h
    exact hrunning
  | settleStep stepId attempt executed routing =>
    obtain ⟨record, artifactIds, -, hwrite⟩ := settleStep_ok h
    rw [hwrite.state] at hrunning
    unfold settledLifecycle at hrunning
    split at hrunning
    · exact hrunning
    · next hstate => exact Decidable.not_not.mp hstate
  | failStep stepId message =>
    obtain ⟨record, -, hwrite⟩ := failStep_ok h
    rw [hwrite.state] at hrunning
    split at hrunning
    · exact hrunning
    · cases hrunning
  | recordIntegration ticket commit =>
    obtain ⟨record, -, hwrite⟩ := recordIntegration_ok h
    rw [← hrunning, hwrite.state]
  | recordIntegrationFailure ticket error =>
    obtain ⟨record, -, hwrite⟩ := recordIntegrationFailure_ok h
    rw [hwrite.state] at hrunning
    cases hrunning
  | settleRun cancelled =>
    cases h
    rw [(settleRun_rewrites cancelled now run).state] at hrunning
    exact absurd hrunning (settled_not_running _ _)
  | recover decide =>
    obtain ⟨⟨settled, recovered⟩, hrecover, rfl⟩ := map_ok_iff.mp h
    obtain ⟨bound, hbound⟩ := exists_number_bound (activeAttempts run)
    obtain ⟨steps, attempts, -, ⟨-, rfl⟩ | ⟨-, hwrite⟩⟩ := recoverWorkflowRun_ok hbound hrecover
    · exact hrunning
    · rw [hwrite.state] at hrunning
      unfold recoveredLifecycle at hrunning
      split at hrunning
      · cases hrunning
      · exact hrunning
  | relaunch stopped => exact absurd rfl (hrelaunch stopped)
  | retry => exact absurd rfl hretry
  | admission request => exact (admitSteps_ok h).1

/-- A settlement of the run or the failure of a launch leaves it stopped. -/
theorem Transaction.apply_stops (h : transaction.apply now run = .ok next)
    (hleaves : transaction.leavesAttempt run) : next.state ≠ .running := by
  cases transaction with
  | failStep stepId message =>
    obtain ⟨record, -, hwrite⟩ := failStep_ok h
    rw [hwrite.state]
    split
    · next hcancelled =>
      rw [hcancelled]
      decide
    · decide
  | settleRun cancelled =>
    cases h
    rw [(settleRun_rewrites cancelled now run).state]
    exact settled_not_running _ _
  | _ => cases hleaves

/-- Reconciling steps without failures makes none. -/
theorem NoFailures.reconciled {steps : OrderedRecord String WorkflowStepRecord}
    (h : NoFailures steps) (hkept : PlanKept { run with steps }) :
    NoFailures (reconciledSteps run steps) := by
  have hall : ∀ stepId record, steps.get? stepId = some record →
      ∀ later, (reconciledSteps run steps).get? stepId = some later →
        later.state.isTerminalFailure = false := by
    intro stepId record hrecord
    apply hkept.induction (P := fun stepId _ => ∀ later,
      (reconciledSteps run steps).get? stepId = some later →
        later.state.isTerminalFailure = false) _ hrecord
    intro pre id post before horder hbefore hpre later hlater
    by_cases hwaiting : before.state.isWaiting = true
    · have hready := hkept.reconcile_waiting_eq hbefore hwaiting
      rw [show (reconcileWorkflowSteps { run with steps }).steps.get? id = some later from hlater,
        Option.some.injEq] at hready
      rw [hready]
      dsimp only
      unfold readiness
      rw [if_neg]
      · split <;> rfl
      · intro hany
        obtain ⟨d, hd, hfails⟩ := List.any_eq_true.mp hany
        obtain ⟨dependency, hdependency⟩ := hkept.dependency_recorded hbefore hd
        obtain ⟨settled, hsettled, -⟩ :=
          (sameDefinitions_of_states (reconciledSteps_sameButStates run steps)).right hdependency
        have hopen := hpre d (hkept.dependencies_before hbefore horder d hd) dependency hdependency
          settled hsettled
        rw [show (reconcileWorkflowSteps { run with steps }).steps.get? d = some settled from
          hsettled] at hfails
        dsimp only at hfails
        rw [hopen] at hfails
        cases hfails
    · have hkeeps := @reconcile_keeps { run with steps } _ _ hbefore
        (Bool.eq_false_iff.mpr hwaiting)
      rw [show (reconcileWorkflowSteps { run with steps }).steps.get? id = some later from hlater,
        Option.some.injEq] at hkeeps
      rw [hkeeps]
      exact h id before hbefore
  intro stepId later hlater
  obtain ⟨before, hbefore, -⟩ := @reconcile_record { run with steps } _ _ hlater
  exact hall stepId before hbefore later hlater

private theorem NoFailures.set {steps : OrderedRecord String WorkflowStepRecord} {stepId : String}
    {record : WorkflowStepRecord} (h : NoFailures steps)
    (hrecord : record.state.isTerminalFailure = false) : NoFailures (steps.set stepId record) := by
  intro x later hlater
  rw [OrderedRecord.get?_set] at hlater
  split at hlater
  · rw [← Option.some.inj hlater]
    exact hrecord
  · exact h x later hlater

private theorem settledRecord_open {outcome : StepOutcome} {retrying : Bool}
    {record : WorkflowStepRecord} {state : WorkflowRunLifecycleState}
    (h : settledLifecycle state outcome retrying = .running) (hstate : state = .running) :
    (settledRecord outcome retrying record).state.isTerminalFailure = false := by
  unfold settledLifecycle at h
  rw [if_neg (not_not.mpr hstate)] at h
  cases outcome with
  | succeeded summary workerId commit evidence => rfl
  | failed error workerId retryable =>
    dsimp only at h
    split at h
    · next hretrying =>
      unfold settledRecord
      dsimp only
      rw [if_pos hretrying]
      rfl
    · cases h
  | cancelled error workerId => cases h

private theorem Recovers.noFailures {decide : WorkflowStepAttempt → InterruptedAttemptDecision}
    {done : List WorkflowStepAttempt} {steps : OrderedRecord String WorkflowStepRecord}
    {attempts : List WorkflowStepAttempt} {recovered : List RecoveredAttempt}
    (h : Recovers now decide run done steps attempts recovered) (hrun : NoFailures run.steps) :
    ∀ stepId record, steps.get? stepId = some record → record.state ≠ .failed →
      record.state.isTerminalFailure = false := by
  induction h with
  | nil => exact fun stepId record hrecord _ => hrun stepId record hrecord
  | snoc _ _ hsettles ih =>
    intro x later hlater hopen
    rw [OrderedRecord.get?_set] at hlater
    split at hlater
    · rw [← Option.some.inj hlater] at hopen ⊢
      cases hsettles with
      | adopted _ => rfl
      | retried _ => rfl
      | failed _ => exact absurd rfl hopen
    · exact ih x later hlater hopen

private theorem unblocked_of_noFailures {steps : OrderedRecord String WorkflowStepRecord}
    (h : NoFailures steps) : unblocked steps = steps := by
  apply OrderedRecord.ext_get?
  · rw [unblocked, OrderedRecord.keys_mapValues]
  · intro stepId
    rw [unblocked, OrderedRecord.get?_mapValues]
    cases hrecord : steps.get? stepId with
    | none => rfl
    | some record =>
      rw [Option.map_some, if_neg]
      intro hblocked
      have hopen := h stepId record hrecord
      rw [hblocked] at hopen
      cases hopen

/-- A write that leaves the run running leaves it without failures. -/
theorem Transaction.apply_noFailures (h : transaction.apply now run = .ok next)
    (hkept : PlanKept run) (hretry : transaction ≠ .retry)
    (hrelaunch : ∀ stopped, transaction ≠ .relaunch stopped) (hrun : NoFailures run.steps)
    (hrunning : next.state = .running) : NoFailures next.steps := by
  have hnext := apply_planKept h hkept
  have hbefore := apply_running h hretry hrelaunch hrunning
  cases transaction with
  | requestCancellation reason =>
    cases h
    rw [(requestCancellation_rewrites reason now run).steps]
    exact hrun
  | reserve attempt =>
    rcases reserveAttempt_ok h with ⟨-, rfl⟩ | ⟨-, record, -, hwrite⟩
    · exact hrun
    · rw [hwrite.steps]
      exact hrun.set rfl
  | markRunning attemptId =>
    cases h
    exact hrun
  | recordWorker attemptId workerId =>
    cases h
    exact hrun
  | settleStep stepId attempt executed routing =>
    obtain ⟨record, artifactIds, -, hwrite⟩ := settleStep_ok h
    have hplan := hnext.before_reconciled hwrite.plan hwrite.steps
    rw [hwrite.state] at hrunning
    rw [hwrite.steps]
    exact (hrun.set (settledRecord_open hrunning hbefore)).reconciled hplan
  | failStep stepId message =>
    obtain ⟨record, -, hwrite⟩ := failStep_ok h
    rw [hwrite.state, hbefore] at hrunning
    cases hrunning
  | recordIntegration ticket commit =>
    obtain ⟨record, hrecord, hwrite⟩ := recordIntegration_ok h
    have hplan := hnext.before_reconciled hwrite.plan hwrite.steps
    rw [hwrite.steps]
    apply NoFailures.reconciled _ hplan
    apply hrun.set
    exact hrun ticket.stepId record hrecord
  | recordIntegrationFailure ticket error =>
    obtain ⟨record, -, hwrite⟩ := recordIntegrationFailure_ok h
    rw [hwrite.state] at hrunning
    cases hrunning
  | settleRun cancelled =>
    cases h
    rw [(settleRun_rewrites cancelled now run).state] at hrunning
    exact absurd hrunning (settled_not_running _ _)
  | recover decide =>
    obtain ⟨⟨settled, recovered⟩, hrecover, rfl⟩ := map_ok_iff.mp h
    obtain ⟨bound, hbound⟩ := exists_number_bound (activeAttempts run)
    obtain ⟨steps, attempts, hrecovers, ⟨-, rfl⟩ | ⟨-, hwrite⟩⟩ :=
      recoverWorkflowRun_ok hbound hrecover
    · exact hrun
    · rw [hwrite.state] at hrunning
      have hnone : ∀ record ∈ (reconciledSteps run (unblocked steps)).values,
          record.state ≠ .failed := by
        intro record hrecord hfailed
        unfold recoveredLifecycle at hrunning
        rw [if_pos] at hrunning
        · cases hrunning
        · exact ⟨hbefore, List.any_eq_true.mpr ⟨record, hrecord, decide_eq_true hfailed⟩⟩
      have hsteps : NoFailures steps := by
        intro stepId record hrecord
        apply hrecovers.noFailures hrun stepId record hrecord
        intro hfailed
        have hkeptState : (unblocked steps).get? stepId = some record := by
          rw [unblocked, OrderedRecord.get?_mapValues, hrecord, Option.map_some, if_neg]
          rw [hfailed]
          decide
        have hfinal := @reconcile_keeps { run with steps := unblocked steps } _ _ hkeptState
          (by rw [hfailed]; rfl)
        exact hnone record ((OrderedRecord.mem_values_iff _ _).mpr ⟨stepId, hfinal⟩) hfailed
      have hplan := hnext.before_reconciled hwrite.plan hwrite.steps
      rw [hwrite.steps]
      rw [unblocked_of_noFailures hsteps] at hplan ⊢
      exact hsteps.reconciled hplan
  | relaunch stopped => exact absurd rfl (hrelaunch stopped)
  | retry => exact absurd rfl hretry
  | admission request =>
    obtain ⟨-, authority, plan, -, hgrown, -, -, -, -, -, -, hsteps, -, -⟩ := admitSteps_ok h
    obtain ⟨hwell, hplan⟩ := grownPlan_steps hgrown
    rw [hsteps]
    have hadmitted : NoFailures (admittedSteps run.steps (plan.steps.drop run.plan.steps.length)) := by
      intro stepId record hrecord
      rcases (get?_admittedSteps hkept hwell hplan).mp hrecord with hold | ⟨definition, -, -, rfl⟩
      · exact hrun stepId record hold
      · rfl
    exact @NoFailures.reconciled { run with plan } _ hadmitted (hkept.admitted hgrown)

end Write

/-! ## The first unfinished step -/

section Progress

variable {run : WorkflowRunState}

/-- Behind integrated, succeeded steps a step that has not failed, does not run and has not
succeeded is ready. -/
private theorem ready_of_prefix (hkept : PlanKept run) (hreconciled : IsReconciled run)
    (hclean : NoFailures run.steps) {pre post : List String} {stepId : String}
    {record : WorkflowStepRecord} (horder : topologicalStepIds run.plan = pre ++ stepId :: post)
    (hrecord : run.steps.get? stepId = some record)
    (hpre : ∀ id ∈ pre, ∀ earlier, run.steps.get? id = some earlier → earlier.state = .succeeded)
    (hintegrated : AllIntegrated run pre) (hidle : record.state ≠ .running)
    (hopen : record.state ≠ .succeeded) : record.state = .ready := by
  have hwaiting : record.state.isWaiting = true := by
    have hfailure := hclean stepId record hrecord
    cases hstate : record.state <;>
      simp_all [StepRunState.isWaiting, StepRunState.isTerminalFailure]
  have hdependencies : ∀ d ∈ record.definition.dependencies, ∃ dependency,
      run.steps.get? d = some dependency ∧
        stepSatisfiesDependents run.capabilityProfiles dependency = true := by
    intro d hd
    obtain ⟨dependency, hdependency⟩ := hkept.dependency_recorded hrecord hd
    have hmem := hkept.dependencies_before hrecord horder d hd
    refine ⟨dependency, hdependency, ?_⟩
    have hsucceeded := hpre d hmem dependency hdependency
    have hlanded := hintegrated d hmem dependency hdependency
    unfold stepSatisfiesDependents
    rw [Bool.and_eq_true, Bool.or_eq_true]
    refine ⟨decide_eq_true hsucceeded, ?_⟩
    by_cases hrequires : stepRequiresIntegration run.capabilityProfiles dependency.definition = true
    · right
      cases hcommit : dependency.integratedCommit with
      | some commit => rfl
      | none =>
        exfalso
        apply hlanded
        refine ⟨hrequires, ?_⟩
        rw [hcommit]
        rfl
    · left
      rw [Bool.not_eq_true'] 
      exact Bool.eq_false_iff.mpr hrequires
  rw [hreconciled stepId record hrecord hwaiting]
  unfold readiness
  rw [if_neg, if_pos]
  · rw [List.all_eq_true]
    intro d hd
    obtain ⟨dependency, hdependency, hsatisfied⟩ := hdependencies d hd
    rw [hdependency]
    exact hsatisfied
  · intro hany
    obtain ⟨d, hd, hfails⟩ := List.any_eq_true.mp hany
    obtain ⟨dependency, hdependency, -⟩ := hdependencies d hd
    rw [hdependency] at hfails
    dsimp only at hfails
    rw [hclean d dependency hdependency] at hfails
    cases hfails

/-- When nothing runs, nothing is left to integrate and nothing can be launched, every step of a
running run without failures has succeeded. -/
theorem all_succeeded_of_nothing_launchable (hkept : PlanKept run) (hreconciled : IsReconciled run)
    (hworkers : 1 ≤ run.maxConcurrentWorkers) (hclean : NoFailures run.steps)
    (hrunning : run.state = .running) (hidle : ∀ stepId, ¬ StepRunning run.steps stepId)
    (hactive : activeStepIds run = []) (hnext : nextIntegrableStepId run = none)
    (hlaunch : launchableStepIds run = []) {stepId : String} {record : WorkflowStepRecord}
    (hrecord : run.steps.get? stepId = some record) : record.state = .succeeded := by
  apply hkept.induction (P := fun _ record => record.state = .succeeded) _ hrecord
  intro pre id post before horder hbefore hpre
  by_contra hopen
  have hintegrated := allIntegrated_of_nextIntegrable_none hnext horder hpre
  have hready := ready_of_prefix hkept hreconciled hclean horder hbefore hpre hintegrated
    (fun hrun => hidle id ⟨before, hbefore, hrun⟩) hopen
  have hmaximal := maximal_launchable hkept hreconciled hrunning
  rw [hlaunch] at hmaximal
  rcases hmaximal id before hbefore hready (by rw [hactive]; exact List.not_mem_nil)
      List.not_mem_nil with ⟨other, r, hother, hrun | hmem, -⟩ | ⟨-, hfull⟩
  · exact hidle other ⟨r, hother, hrun⟩
  · cases hmem
  · have hnone := activeAttempts_eq_nil_iff.mpr hactive
    have huntracked : untrackedRunning run = [] := by
      unfold untrackedRunning
      rw [List.map_eq_nil_iff, List.filter_eq_nil_iff]
      intro entry hentry hyes
      rw [Bool.and_eq_true] at hyes
      exact hidle entry.1 ⟨entry.2, (run.steps.mem_entries_iff _ _).mp hentry,
        of_decide_eq_true hyes.1⟩
    unfold occupiedSlots at hfull
    rw [hnone, huntracked] at hfull
    simp only [List.filter_nil, List.length_nil] at hfull
    omega

end Progress

/-! ## The engine loop -/

/-- Where an engine without executions stands, while the run is running. -/
def LoopFacts (run : WorkflowRunState) (aborted : Bool) : Phase → Prop
  | .reloading => False
  | .returned status => status = .running ∧ nextIntegrableStepId run = none
  | .dispatching queue => nextIntegrableStepId run = none ∧ queue = launchableStepIds run
  | .preparing ticket _ => ticket.stepId ∈ launchableStepIds run
  | .reserving attempt _ => attempt.stepId ∈ launchableStepIds run
  | .dispatched => aborted = false → nextIntegrableStepId run = none ∧ launchableStepIds run = []
  | .settling cancelled =>
    cancelled = false → nextIntegrableStepId run = none ∧ launchableStepIds run = []
  | _ => True

/-- What holds of a run while it is running. -/
structure Progressing (world : World) : Prop where
  clean : NoFailures world.run.steps
  agreement : Agreement world
  loop : ∀ e, world.process = .engine e → e.active = [] → LoopFacts world.run e.aborted e.phase

section Loop

variable {run next : WorkflowRunState} {now : Timestamp} {transaction : Transaction}
  {e : EngineProcess}

private theorem loopFacts_moves (h : e.active = [] → LoopFacts run e.aborted e.phase) {head : String}
    {branch branch' : List BranchCommit} {e' : EngineProcess}
    (hmove : Moves run head branch e branch' e') (hrunning : run.state = .running)
    (hactive : e'.active = []) : LoopFacts run e'.aborted e'.phase := by
  cases hmove with
  | load hphase =>
    rcases loadPending_cases run with ⟨hload, hnext⟩ | ⟨stepId, -, -, hload⟩
    · dsimp only
      rw [hload]
      exact ⟨hrunning, hnext hrunning⟩
    · dsimp only
      rcases hload with ⟨hload, -⟩ | ⟨attempt, -, ⟨commit, -, hload⟩ | ⟨-, hload⟩⟩
      · rw [hload]
        trivial
      · rw [hload]
        trivial
      · rw [hload]
        trivial
  | merged _ _ _ _ _ | mergeFailed _ | prepareFailed _ | wait _ _ | wake _ _ | wakeRejected _ _ =>
    trivial
  | reload hphase =>
    have hfacts := h hactive
    rw [hphase] at hfacts
    exact hfacts.elim
  | @dispatch status hphase =>
    have hfacts := h hactive
    rw [hphase] at hfacts
    obtain ⟨hstatus, hnext⟩ := hfacts
    rcases dispatchPhase_cases e.aborted status run with hdispatch | ⟨hdispatch, hskip⟩
    · dsimp only
      rw [hdispatch]
      exact ⟨hnext, rfl⟩
    · dsimp only
      rw [hdispatch]
      intro haborted
      rcases hskip with hstopped | hyes
      · exact absurd hstatus hstopped
      · rw [haborted] at hyes
        cases hyes
  | @launch stepId queue hphase =>
    have hfacts := h hactive
    rw [hphase] at hfacts
    obtain ⟨-, hqueue⟩ := hfacts
    rcases launchPhase_cases run stepId queue with ⟨ticket, hticket, hlaunch⟩ | hlaunch
    · dsimp only
      rw [hlaunch]
      have hstep : ticket.stepId = stepId := by
        unfold launchTicket at hticket
        rw [bind_ok_iff] at hticket
        obtain ⟨record, -, hpure⟩ := hticket
        rw [← Except.ok.inj hpure]
      rw [LoopFacts, hstep, ← hqueue]
      exact List.mem_cons_self ..
    · dsimp only
      rw [hlaunch]
      trivial
  | dispatched hphase =>
    have hfacts := h hactive
    rw [hphase] at hfacts
    exact fun _ => ⟨hfacts.1, hfacts.2.symm⟩
  | @prepared ticket queue attemptId now workspace hphase _ _ =>
    have hfacts := h hactive
    rw [hphase] at hfacts
    exact hfacts
  | settle hphase _ =>
    have hfacts := h hactive
    rw [hphase] at hfacts
    exact hfacts
  | abort =>
    have hfacts := h hactive
    revert hfacts
    dsimp only
    cases e.phase with
    | dispatched => exact fun _ hno => by cases hno
    | _ => exact id

private theorem loopFacts_issues {process process' : Process}
    (h : ∀ e, process = .engine e → e.active = [] → LoopFacts run e.aborted e.phase)
    (hagrees : Agrees run) (hcovers : ProcessCovers run process)
    (hissues : Issues now run next process transaction process')
    (happly : transaction.apply now run = .ok next) (hretry : transaction ≠ .retry)
    (hrelaunch : ∀ stopped, transaction ≠ .relaunch stopped) (hrunning : next.state = .running)
    {e' : EngineProcess} (hengine : process' = .engine e') (hactive : e'.active = []) :
    LoopFacts next e'.aborted e'.phase := by
  have hlive (entries : List ActiveStep) (entry : ActiveStep) (hmem : entry ∈ entries)
      (hnil : entries = []) : False := by
    rw [hnil] at hmem
    cases hmem
  cases hissues with
  | reserved _ _ =>
    cases hengine
    trivial
  | @notReserved e attempt queue hphase hnot =>
    cases hengine
    have hfacts := h e rfl hactive
    rw [hphase] at hfacts
    exact absurd hfacts hnot
  | markRunning _ =>
    cases hengine
    exact (hlive _ _ (List.mem_append_right _ (List.mem_singleton_self _)) hactive).elim
  | recordWorker hmem =>
    cases hengine
    exact (hlive _ _ hmem hactive).elim
  | admission =>
    cases hengine
    -- The proposer runs, so the phase has its attempt in hand.
    obtain ⟨attempt, hattempt, hlive, -⟩ :=
      mem_activeStepIds_iff.mp ((hagrees _).mpr (admitSteps_proposer happly))
    have hcovered := EngineCovers.attempts hcovers attempt hattempt hlive
    rw [hactive] at hcovered
    rcases hcovered with ⟨entry, hentry, -⟩ | hphase
    · cases hentry
    · cases hat : e'.phase with
      | marking _ _ | failingLaunch _ _ | stopping => trivial
      | _ =>
        rw [hat] at hphase
        exact hphase.elim
  | settleStep _ =>
    cases hengine
    exact (hlive _ _ (List.mem_append_right _ (List.mem_cons_self ..)) hactive).elim
  | @failLaunch e stepId message _ | @failUnrecorded e stepId _ =>
    obtain ⟨record, -, hwrite⟩ := failStep_ok happly
    have hbefore := Transaction.apply_running happly hretry hrelaunch hrunning
    rw [hwrite.state, hbefore] at hrunning
    cases hrunning
  | recordIntegration _ =>
    cases hengine
    trivial
  | recordIntegrationFailure _ =>
    obtain ⟨record, -, hwrite⟩ := recordIntegrationFailure_ok happly
    rw [hwrite.state] at hrunning
    cases hrunning
  | settleRun _ => cases hengine
  | recover _ =>
    unfold afterRecovery at hengine
    split at hengine
    · cases hengine
    · cases hengine
      trivial
  | relaunch => exact absurd rfl (hrelaunch _)
  | retry => exact absurd rfl hretry

private theorem loopFacts_refuses {process process' : Process}
    (h : ∀ e, process = .engine e → e.active = [] → LoopFacts run e.aborted e.phase)
    (hrefuses : Refuses process transaction process') {e' : EngineProcess}
    (hengine : process' = .engine e') (hactive : e'.active = []) :
    LoopFacts run e'.aborted e'.phase := by
  cases hrefuses with
  | reserve _ | markRunning _ | failLaunch _ | failUnrecorded _ | recordIntegration _
  | recordIntegrationFailure _ | settleRun _ =>
    cases hengine
    trivial
  | recordWorker _ | admission =>
    cases hengine
    exact h e' rfl hactive
  | settleStep _ =>
    cases hengine
    rw [List.append_eq_nil_iff] at hactive
    cases hactive.2
  | recover | relaunch | retry => cases hengine

end Loop

variable {accepts : WorkflowRunState → Prop} {world later : World} {action : Action}

private theorem unreopened_iff {transaction : Transaction}
    (h : Unreopened world (.write transaction)) :
    transaction ≠ .retry ∧ ∀ stopped, transaction ≠ .relaunch stopped := by
  constructor
  · rintro rfl
    exact h
  · rintro stopped rfl
    exact h

/-- A step that leaves the run running was taken in a running run, and left no attempt behind. -/
theorem Step.running (hstep : Step accepts world action later)
    (hunreopened : Unreopened world action) (hrunning : later.run.state = .running) :
    world.run.state = .running ∧ FinishesAttempts world action := by
  cases action with
  | write transaction =>
    obtain ⟨hretry, hrelaunch⟩ := unreopened_iff hunreopened
    obtain ⟨now, happly⟩ := hstep.write_applies
    refine ⟨Transaction.apply_running happly hretry hrelaunch hrunning, ?_⟩
    intro hleaves
    exact Transaction.apply_stops happly hleaves hrunning
  | stop =>
    rcases Step.run_cases hstep with hsame | ⟨transaction, now, hwrite, -⟩
    · rw [hsame] at hrunning
      exact ⟨hrunning, Or.inl hrunning⟩
    · cases hwrite
  | refuse transaction | move | claim | dropCanceller =>
    rcases Step.run_cases hstep with hsame | ⟨transaction, now, hwrite, -⟩
    · rw [hsame] at hrunning
      exact ⟨hrunning, trivial⟩
    · cases hwrite

private theorem launchable_requestCancellation (reason : String) (now : Timestamp)
    (run : WorkflowRunState) :
    launchableStepIds (requestCancellation reason now run) = launchableStepIds run ∧
      nextIntegrableStepId (requestCancellation reason now run) = nextIntegrableStepId run := by
  unfold requestCancellation
  obtain ⟨events, dropped, hframe⟩ :=
    appendWorkflowEvents_frame run [.runCancellationRequested reason] now
  rw [hframe]
  exact ⟨rfl, nextIntegrableStepId_congr rfl rfl rfl⟩

private theorem LoopFacts.congr {run next : WorkflowRunState} {aborted : Bool} {phase : Phase}
    (hlaunch : launchableStepIds next = launchableStepIds run)
    (hnext : nextIntegrableStepId next = nextIntegrableStepId run)
    (h : LoopFacts run aborted phase) : LoopFacts next aborted phase := by
  revert h
  unfold LoopFacts
  rw [hlaunch, hnext]
  exact id

/-- Progress is kept while the run stays running. -/
theorem Progressing.step (h : Progressing world) (hkept : PlanKept world.run)
    (htracked : Tracked world) (hexclusive : Exclusive world.run)
    (hstep : Step accepts world action later) (hunreopened : Unreopened world action)
    (hrunning : later.run.state = .running) : Progressing later := by
  obtain ⟨hbefore, hfinishes⟩ := Step.running hstep hunreopened hrunning
  have hagreement := h.agreement.step hkept htracked hexclusive hstep hfinishes
  have hclean : NoFailures later.run.steps := by
    rcases Step.run_cases hstep with hsame | ⟨transaction, now, rfl, happly⟩
    · rw [hsame]
      exact h.clean
    · obtain ⟨hretry, hrelaunch⟩ := unreopened_iff hunreopened
      exact Transaction.apply_noFailures happly hkept hretry hrelaunch h.clean hrunning
  refine ⟨hclean, hagreement, ?_⟩
  intro e' hengine hactive
  cases hstep with
  | write hissues happly _ =>
    obtain ⟨hretry, hrelaunch⟩ := unreopened_iff hunreopened
    exact loopFacts_issues h.loop h.agreement.agrees h.agreement.process hissues happly hretry hrelaunch hrunning hengine hactive
  | @requestCancellation reason next now happly _ =>
    cases happly
    obtain ⟨hlaunch, hnext⟩ := launchable_requestCancellation reason now world.run
    exact (h.loop e' hengine hactive).congr hlaunch hnext
  | settleCancelled _ happly _ =>
    cases happly
    rw [(settleRun_rewrites _ _ _).state] at hrunning
    exact absurd hrunning (settled_not_running _ _)
  | refuse hrefuses => exact loopFacts_refuses h.loop hrefuses hengine hactive
  | move hprocess hmoves =>
    cases hengine
    exact loopFacts_moves (h.loop _ hprocess) hmoves hbefore hactive
  | dropCanceller _ => exact h.loop e' hengine hactive
  | resume _ | assessRetry _ _ _ | crash _ | stop _ _ _ => cases hengine

/-- Every reachable run that is running, and was never reopened, is progressing. -/
private theorem progressing_reachable
    (h : ((engineSystem PlanValidated accepts).restrict Unreopened).Reachable world)
    (hrunning : world.run.state = .running) : Progressing world := by
  have hinvariant : world.run.state = .running → Progressing world := by
    apply h.invariant
    · intro s hstarts _
      obtain ⟨input, -, hcreate⟩ := hstarts.input
      have hcreated := createWorkflowRunState_ok hcreate
      have hkept := planKept_of_starts hstarts
      refine ⟨?_, agreement_of_starts hstarts, ?_⟩
      · intro stepId record hrecord
        rw [hcreated.initial hkept hrecord]
        unfold initialStepRecord
        dsimp only
        split <;> rfl
      · intro e hengine _
        rw [hstarts.process] at hengine
        cases hengine
        trivial
    · intro s a t hreach hs hstep hlater
      have hreachable := hreach.of_restrict
      have hprogress := hs (Step.running hstep.2 hstep.1 hlater).1
      exact hprogress.step (planKept_reachable hreachable) (tracked_reachable hreachable)
        (exclusive_reachable hreachable) hstep.2 hstep.1 hlater
  exact hinvariant hrunning

/-- A run may always use a worker. -/
theorem workers_pos_reachable (h : (engineSystem PlanValidated accepts).Reachable world) :
    1 ≤ world.run.maxConcurrentWorkers := by
  apply h.invariant
  · intro s hstarts
    obtain ⟨input, -, hcreate⟩ := hstarts.input
    exact (createWorkflowRunState_ok hcreate).workers_pos
  · intro s a t _ hs hstep
    rcases Step.run_cases hstep with hsame | ⟨transaction, now, -, happly⟩
    · rw [hsame]
      exact hs
    · rw [(Transaction.apply_header happly).maxConcurrentWorkers]
      exact hs

/-- When an engine that nobody aborted is about to settle a running run, every step has succeeded. -/
theorem Progressing.settling_succeeded (h : Progressing world) (hkept : PlanKept world.run)
    (hreconciled : IsReconciled world.run) (hworkers : 1 ≤ world.run.maxConcurrentWorkers)
    (hrunning : world.run.state = .running) {e : EngineProcess} (hengine : world.process = .engine e)
    (hphase : e.phase = .settling false) {stepId : String} {record : WorkflowStepRecord}
    (hrecord : world.run.steps.get? stepId = some record) : record.state = .succeeded := by
  have hcovers := h.agreement.process
  rw [hengine] at hcovers
  have hentries := hcovers.settling false hphase
  have hactive : activeStepIds world.run = [] := by
    rw [List.eq_nil_iff_forall_not_mem]
    intro id hid
    obtain ⟨stored, hstored, hlive, -⟩ := mem_activeStepIds_iff.mp hid
    have hcovered := hcovers.attempts stored hstored hlive
    rw [hentries, hphase] at hcovered
    rcases hcovered with ⟨entry, hentry, -⟩ | hno
    · cases hentry
    · cases hno
  have hidle : ∀ id, ¬ StepRunning world.run.steps id := by
    intro id hrun
    have hmem := (h.agreement.agrees id).mpr hrun
    rw [hactive] at hmem
    cases hmem
  have hfacts := h.loop e hengine hentries
  rw [hphase] at hfacts
  obtain ⟨hnext, hlaunch⟩ := hfacts rfl
  exact all_succeeded_of_nothing_launchable hkept hreconciled hworkers h.clean hrunning hidle
    hactive hnext hlaunch hrecord

/-- In a running run that nobody reopened, with nothing running, nothing active and nothing to
integrate, every step has succeeded or some step can be launched; and an engine about to settle
its run never finds steps that still wait. -/
theorem no_scheduling_deadlock
    (h : ((engineSystem PlanValidated accepts).restrict Unreopened).Reachable world) :
    (world.run.state = .running → (∀ stepId, ¬ StepRunning world.run.steps stepId) →
      activeAttempts world.run = [] → nextIntegrableStepId world.run = none →
        (∀ stepId record, world.run.steps.get? stepId = some record → record.state = .succeeded) ∨
          launchableStepIds world.run ≠ []) ∧
      ∀ e cancelled, world.process = .engine e → e.phase = .settling cancelled →
        ¬ (world.run.state = .running ∧ ∃ stepId record,
          (settledSteps cancelled world.run).steps.get? stepId = some record ∧
            record.state.isTerminal = false) := by
  have hreachable := h.of_restrict
  have hkept := planKept_reachable hreachable
  have hreconciled := isReconciled_reachable hreachable
  have hworkers := workers_pos_reachable hreachable
  constructor
  · intro hrunning hidle hactive hnext
    have hclean := (progressing_reachable h hrunning).clean
    by_cases hlaunch : launchableStepIds world.run = []
    · left
      intro stepId record hrecord
      exact all_succeeded_of_nothing_launchable hkept hreconciled hworkers hclean hrunning hidle
        (activeAttempts_eq_nil_iff.mp hactive) hnext hlaunch hrecord
    · exact Or.inr hlaunch
  · rintro e cancelled hengine hphase ⟨hrunning, stepId, record, hrecord, hopen⟩
    have hprogress := progressing_reachable h hrunning
    cases cancelled with
    | true =>
      simp only [settledSteps, hrunning, isCancelling] at hrecord
      rw [if_pos (by decide)] at hrecord
      simp only [cancelOpenSteps, OrderedRecord.get?_mapValues, Option.map_eq_some_iff] at hrecord
      obtain ⟨before, -, heq⟩ := hrecord
      split at heq
      · rw [← heq] at hopen
        cases hopen
      · next hclosed =>
        rw [heq] at hclosed
        apply hclosed
        unfold isOpenStep
        cases hstate : record.state <;> simp_all [StepRunState.isTerminal]
    | false =>
      obtain ⟨before, hbefore, -⟩ :=
        (sameDefinitions_of_states (settledSteps_sameButStates false world.run)).left hrecord
      have hsucceeded := hprogress.settling_succeeded hkept hreconciled hworkers hrunning hengine
        hphase hbefore
      have hfinal := @settledSteps_keeps_succeeded false _ _ _ hbefore hsucceeded
      rw [hrecord, Option.some.injEq] at hfinal
      rw [hfinal, hsucceeded] at hopen
      cases hopen

/-- A new run can launch a step. -/
theorem no_scheduling_deadlock_createdRun : launchableStepIds createdRun ≠ [] := by
  have hstarts : ((engineSystem PlanValidated (Accepts id)).restrict Unreopened).initial
      (engineAt createdRun .integrating []) :=
    { input := ⟨smallInput [editStep, checkStep] 2, ⟨(smallPlan [editStep, checkStep]).toJson, rfl⟩,
        rfl⟩
      accepted := rfl, process := rfl, cancellers := rfl, branch := rfl }
  have hidle : ∀ stepId, ¬ StepRunning createdRun.steps stepId := by
    intro stepId hrunning
    have hmem := mem_runningStepIds_iff.mpr hrunning
    rw [show runningStepIds createdRun = [] from rfl] at hmem
    cases hmem
  rcases (no_scheduling_deadlock (.of_initial hstarts)).1 rfl hidle rfl rfl with hall | hlaunch
  · have hready := hall "edit" (initialStepRecord editStep) rfl
    cases hready
  · exact hlaunch

end BuildConductor.Lifecycle
