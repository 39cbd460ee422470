import BuildConductor.Engine.Integrations
import BuildConductor.Lifecycle.MutualExclusion

/-!
# Agreement of attempts and steps

Whether the steps marked running are exactly those with an active attempt. Two writes end
steps without their attempts: the failure of a launch after its reservation, and a settlement
that cancels what a stopped process left running. `src/src/engine/engine.ts:292-361,539-573,661-723`.
-/

namespace BuildConductor.Lifecycle

open Base Domain Security Engine Workflows Storage

/-- The running steps are those of the active attempts. -/
def Agrees (run : WorkflowRunState) : Prop :=
  ∀ stepId, stepId ∈ activeStepIds run ↔ StepRunning run.steps stepId

/-- A write that ends a step while an attempt of it stays active. -/
def Transaction.leavesAttempt (run : WorkflowRunState) : Transaction → Prop
  | .failStep stepId _ => stepId ∈ activeStepIds run
  | .settleRun cancelled => isCancelling cancelled run.state = true ∧ activeAttempts run ≠ []
  | _ => False

theorem mem_activeStepIds_iff {run : WorkflowRunState} {stepId : String} :
    stepId ∈ activeStepIds run ↔ ∃ attempt ∈ run.attempts,
      attempt.state.isActive = true ∧ attempt.stepId = stepId := by
  unfold activeStepIds activeAttempts
  simp only [List.mem_map, List.mem_filter, and_assoc]

theorem activeAttempts_eq_nil_iff {run : WorkflowRunState} :
    activeAttempts run = [] ↔ activeStepIds run = [] := by
  unfold activeStepIds
  rw [List.map_eq_nil_iff]

section Write

variable {run next : WorkflowRunState} {now : Timestamp} {transaction : Transaction}

/-- An attempt active after a write was active before and is not settled, or was reserved. -/
theorem Transaction.apply_active_attempt (h : transaction.apply now run = .ok next)
    (hmark : ∀ attemptId, transaction = .markRunning attemptId →
      ∀ attempt ∈ run.attempts, attempt.id = attemptId → attempt.state.isActive = true)
    {later : WorkflowStepAttempt} (hlater : later ∈ next.attempts)
    (hactive : later.state.isActive = true) :
    (∃ stored ∈ run.attempts, stored.state.isActive = true ∧
        ¬ transaction.settlesAttempt run stored.id ∧ SameAttempt stored later) ∨
      transaction = .reserve later ∧ later.stepId ∈ launchableStepIds run := by
  rcases apply_attempt h hlater with ⟨stored, hstored, hevolves⟩ | hreserved
  · left
    by_cases hsettles : transaction.settlesAttempt run stored.id
    · rw [hevolves.settled hsettles] at hactive
      cases hactive
    · refine ⟨stored, hstored, ?_, hsettles, hevolves.same⟩
      rcases hevolves.kept hsettles with hstate | ⟨hmarks, -⟩
      · rw [← hstate]
        exact hactive
      · exact hmark stored.id hmarks stored hstored rfl
  · exact Or.inr hreserved

/-- The active attempts after a write: the one it reserves and those it does not settle. -/
theorem Transaction.apply_active (h : transaction.apply now run = .ok next)
    (hmark : ∀ attemptId, transaction = .markRunning attemptId →
      ∀ attempt ∈ run.attempts, attempt.id = attemptId → attempt.state.isActive = true)
    (hreserve : ∀ attempt, transaction = .reserve attempt → attempt.state.isActive = true)
    (stepId : String) :
    stepId ∈ activeStepIds next ↔ transaction.startsStep run stepId ∨
      ∃ attempt ∈ run.attempts, attempt.state.isActive = true ∧ attempt.stepId = stepId ∧
        ¬ transaction.settlesAttempt run attempt.id := by
  rw [mem_activeStepIds_iff]
  constructor
  · rintro ⟨later, hlater, hactive, rfl⟩
    rcases apply_active_attempt h hmark hlater hactive with
      ⟨stored, hstored, hlive, hsettles, hsame⟩ | ⟨rfl, hlaunch⟩
    · exact Or.inr ⟨stored, hstored, hlive, hsame.stepId.symm, hsettles⟩
    · exact Or.inl ⟨rfl, hlaunch⟩
  · rintro (hstarts | ⟨stored, hstored, hactive, rfl, hsettles⟩)
    · cases transaction with
      | reserve attempt =>
        obtain ⟨rfl, hlaunch⟩ := hstarts
        rcases reserveAttempt_ok h with ⟨hnot, -⟩ | ⟨-, record, -, hwrite⟩
        · exact absurd hlaunch hnot
        · refine ⟨attempt, ?_, hreserve attempt rfl, rfl⟩
          rw [hwrite.attempts]
          exact List.mem_append_right _ (List.mem_singleton_self attempt)
      | _ => cases hstarts
    · obtain ⟨later, hlater, hevolves⟩ := apply_stored h hstored
      refine ⟨later, hlater, ?_, hevolves.same.stepId⟩
      rcases hevolves.kept hsettles with hstate | ⟨-, hstate⟩
      · rw [hstate]
        exact hactive
      · rw [hstate]
        rfl

/-- A write keeps the agreement when it ends exactly the steps whose attempts it settles. -/
theorem Agrees.apply (h : Agrees run) (happly : transaction.apply now run = .ok next)
    (hkept : PlanKept run)
    (hmark : ∀ attemptId, transaction = .markRunning attemptId →
      ∀ attempt ∈ run.attempts, attempt.id = attemptId → attempt.state.isActive = true)
    (hreserve : ∀ attempt, transaction = .reserve attempt → attempt.state.isActive = true)
    (hends : ∀ attempt ∈ run.attempts, attempt.state.isActive = true →
      (transaction.settlesAttempt run attempt.id ↔ transaction.endsStep run attempt.stepId)) :
    Agrees next := by
  intro stepId
  rw [Transaction.apply_active happly hmark hreserve, Transaction.apply_stepRunning happly hkept,
    ← h stepId, mem_activeStepIds_iff]
  apply or_congr_right
  constructor
  · rintro ⟨attempt, hattempt, hactive, rfl, hsettles⟩
    exact ⟨⟨attempt, hattempt, hactive, rfl⟩, fun hyes => hsettles ((hends _ hattempt hactive).mpr hyes)⟩
  · rintro ⟨⟨attempt, hattempt, hactive, rfl⟩, hopen⟩
    exact ⟨attempt, hattempt, hactive, rfl, fun hyes => hopen ((hends _ hattempt hactive).mp hyes)⟩

/-- A write that leaves an attempt behind breaks the agreement. -/
theorem Transaction.apply_not_agrees (happly : transaction.apply now run = .ok next)
    (hkept : PlanKept run) (hleaves : transaction.leavesAttempt run) : ¬ Agrees next := by
  intro hagrees
  have hbroken : ∃ stepId ∈ activeStepIds run, transaction.endsStep run stepId ∧
      (∀ id, ¬ transaction.settlesAttempt run id) ∧ ¬ transaction.startsStep run stepId ∧
      (∀ id, transaction ≠ .markRunning id) ∧ ∀ attempt, transaction ≠ .reserve attempt := by
    cases transaction with
    | failStep stepId message =>
      exact ⟨stepId, hleaves, rfl, fun _ => id, id, by simp, by simp⟩
    | settleRun cancelled =>
      obtain ⟨hcancelling, hsome⟩ := hleaves
      obtain ⟨attempt, rest, hcons⟩ := List.exists_cons_of_ne_nil hsome
      refine ⟨attempt.stepId, ?_, hcancelling, fun _ => id, id, by simp, by simp⟩
      rw [activeStepIds, hcons]
      exact List.mem_cons_self ..
    | _ => cases hleaves
  obtain ⟨stepId, hactive, hends, hsettles, hstarts, hmark, hreserve⟩ := hbroken
  have hstill : stepId ∈ activeStepIds next := by
    rw [apply_active happly (fun id hid => absurd hid (hmark id))
      (fun attempt hattempt => absurd hattempt (hreserve attempt))]
    obtain ⟨attempt, hattempt, hlive, hstep⟩ := mem_activeStepIds_iff.mp hactive
    exact Or.inr ⟨attempt, hattempt, hlive, hstep, hsettles _⟩
  rcases (apply_stepRunning happly hkept stepId).mp ((hagrees stepId).mp hstill) with hyes | ⟨-, hno⟩
  · exact hstarts hyes
  · exact hno hends

end Write

/-! ## Where a read leads -/

/-- A pass of `integratePendingSteps` returns when nothing is pending, and otherwise takes up the
next step to integrate. -/
theorem loadPending_cases (run : WorkflowRunState) :
    (loadPending run = .returned run.state ∧
        (run.state = .running → nextIntegrableStepId run = none)) ∨
      ∃ stepId, run.state = .running ∧ nextIntegrableStepId run = some stepId ∧
        ((loadPending run = .unrecorded stepId ∧ latestSucceededAttempt run stepId = none) ∨
          ∃ attempt, latestSucceededAttempt run stepId = some attempt ∧
            ((∃ commit, present attempt.commit = some commit ∧
                loadPending run = .merging ⟨stepId, attempt, run.integrationHead⟩ commit) ∨
              (present attempt.commit = none ∧
                loadPending run = .recordingIntegration ⟨stepId, attempt, run.integrationHead⟩
                  run.integrationHead))) := by
  unfold loadPending
  by_cases hrunning : run.state = .running
  · rw [if_neg (not_not.mpr hrunning)]
    cases hnext : nextIntegrableStepId run with
    | none => exact Or.inl ⟨rfl, fun _ => rfl⟩
    | some stepId =>
      right
      refine ⟨stepId, hrunning, rfl, ?_⟩
      cases hlatest : latestSucceededAttempt run stepId with
      | none => exact Or.inl ⟨by simp only [hlatest], rfl⟩
      | some attempt =>
        right
        refine ⟨attempt, rfl, ?_⟩
        cases hcommit : present attempt.commit with
        | none => exact Or.inr ⟨rfl, by simp only [hlatest, hcommit]⟩
        | some commit => exact Or.inl ⟨commit, rfl, by simp only [hlatest, hcommit]⟩
  · rw [if_pos hrunning]
    exact Or.inl ⟨rfl, fun hyes => absurd hyes hrunning⟩

theorem dispatchPhase_cases (aborted : Bool) (status : WorkflowRunLifecycleState)
    (run : WorkflowRunState) :
    dispatchPhase aborted status run = .dispatching (launchableStepIds run) ∨
      dispatchPhase aborted status run = .dispatched ∧ (status ≠ .running ∨ aborted = true) := by
  unfold dispatchPhase
  split
  · exact Or.inl rfl
  · next hskip =>
    right
    refine ⟨rfl, ?_⟩
    rw [not_and_or, Bool.not_eq_false] at hskip
    exact hskip

theorem launchPhase_cases (run : WorkflowRunState) (stepId : String) (queue : List String) :
    (∃ ticket, launchTicket run stepId = .ok ticket ∧
        launchPhase run stepId queue = .preparing ticket queue) ∨
      launchPhase run stepId queue = .stopping := by
  unfold launchPhase
  split
  · next ticket hticket => exact Or.inl ⟨ticket, hticket, rfl⟩
  · exact Or.inr rfl

/-! ## What a process answers for -/

/-- The phase answers for an attempt: the launch is about to mark it, its failure is about to be
stored, or the engine is on its way out. -/
def Phase.covers (attempt : WorkflowStepAttempt) : Phase → Prop
  | .marking marked _ => marked.id = attempt.id
  | .failingLaunch stepId _ => stepId = attempt.stepId
  | .stopping => True
  | _ => False

/-- The step a phase is integrating. -/
def Phase.integrates : Phase → Option String
  | .merging ticket _ | .recordingIntegration ticket _ | .failingIntegration ticket _ =>
    some ticket.stepId
  | _ => none

/-- An execution not yet settled, or the phase, answers for an attempt. -/
def Covered (active : List ActiveStep) (phase : Phase) (attempt : WorkflowStepAttempt) : Prop :=
  (∃ entry ∈ active, entry.completion ≠ .resolved ∧ entry.attempt.id = attempt.id) ∨
    phase.covers attempt

/-- Every active attempt is executed by the engine or in its hands. -/
structure EngineCovers (run : WorkflowRunState) (e : EngineProcess) : Prop where
  attempts : ∀ attempt ∈ run.attempts, attempt.state.isActive = true →
    Covered e.active e.phase attempt
  settling : ∀ cancelled, e.phase = .settling cancelled → e.active = []
  integrating : ∀ stepId, e.phase.integrates = some stepId → stepId ∉ activeStepIds run

/-- Who answers for the active attempts: the engine, or, while the run is running, the recovery
that will find them. -/
def ProcessCovers (run : WorkflowRunState) : Process → Prop
  | .idle | .recovering _ => run.state ≠ .running → activeStepIds run = []
  | .relaunching _ | .retrying => activeStepIds run = []
  | .engine e => EngineCovers run e

/-- A step that leaves no attempt behind. -/
def FinishesAttempts (world : World) : Action → Prop
  | .write transaction => ¬ transaction.leavesAttempt world.run
  | .stop => world.run.state = .running ∨ activeAttempts world.run = []
  | _ => True

/-- Every active attempt is answered for. -/
structure Agreement (world : World) : Prop where
  agrees : Agrees world.run
  process : ProcessCovers world.run world.process

theorem engineCovers_start {run : WorkflowRunState} (h : activeStepIds run = []) :
    EngineCovers run .start where
  attempts := by
    intro attempt hattempt hactive
    have hmem := mem_activeStepIds_iff.mpr ⟨attempt, hattempt, hactive, rfl⟩
    rw [h] at hmem
    cases hmem
  settling := by
    intro cancelled hphase
    cases hphase
  integrating := by
    intro stepId hphase
    cases hphase

section Covers

variable {run next : WorkflowRunState} {now : Timestamp} {transaction : Transaction}
  {e : EngineProcess}

/-- From a phase that answers for no attempt the engine may move on to any. -/
private theorem EngineCovers.move_to (h : EngineCovers run e) {phase : Phase}
    (hcovers : ∀ attempt ∈ run.attempts, e.phase.covers attempt → phase.covers attempt)
    (hsettling : ∀ cancelled, phase = .settling cancelled → e.active = [])
    (hintegrating : ∀ stepId, phase.integrates = some stepId → stepId ∉ activeStepIds run) :
    EngineCovers run { e with phase } where
  attempts := by
    intro attempt hattempt hactive
    rcases h.attempts attempt hattempt hactive with hentry | hphase
    · exact Or.inl hentry
    · exact Or.inr (hcovers attempt hattempt hphase)
  settling := hsettling
  integrating := hintegrating

private theorem not_active_of_integrable (h : Agrees run) {stepId : String}
    (hnext : nextIntegrableStepId run = some stepId) : stepId ∉ activeStepIds run := by
  obtain ⟨pre, post, record, -, -, hrecord, -, hstate⟩ := nextIntegrableStepId_some hnext
  intro hactive
  obtain ⟨other, hother, hrunning⟩ := (h stepId).mp hactive
  rw [hrecord, Option.some.injEq] at hother
  rw [hother, hrunning] at hstate
  cases hstate

/-- Moves answer for the same attempts. -/
private theorem EngineCovers.moves (h : EngineCovers run e) (hagrees : Agrees run) {head : String}
    {branch branch' : List BranchCommit} {e' : EngineProcess}
    (hmove : Moves run head branch e branch' e') : EngineCovers run e' := by
  cases hmove with
  | load hphase =>
    rcases loadPending_cases run with ⟨hload, -⟩ | ⟨stepId, -, hnext, hload⟩
    · rw [hload]
      exact h.move_to (by rw [hphase]; exact fun _ _ => False.elim) (by simp) (by simp [Phase.integrates])
    · have hapart := not_active_of_integrable hagrees hnext
      rcases hload with ⟨hload, -⟩ | ⟨attempt, -, ⟨commit, -, hload⟩ | ⟨-, hload⟩⟩
      · rw [hload]
        exact h.move_to (by rw [hphase]; exact fun _ _ => False.elim) (by simp)
          (by simp [Phase.integrates])
      · rw [hload]
        apply h.move_to (by rw [hphase]; exact fun _ _ => False.elim) (by simp)
        intro id hid
        cases hid
        exact hapart
      · rw [hload]
        apply h.move_to (by rw [hphase]; exact fun _ _ => False.elim) (by simp)
        intro id hid
        cases hid
        exact hapart
  | @merged ticket commit hash hphase _ _ _ _ | @mergeFailed ticket commit error hphase =>
    apply h.move_to (by rw [hphase]; exact fun _ _ => False.elim) (by simp)
    intro id hid
    apply h.integrating
    rw [hphase]
    exact hid
  | reload hphase | dispatched hphase | prepared _ hphase _ _ | wait hphase _ =>
    exact h.move_to (by rw [hphase]; exact fun _ _ => False.elim) (by simp) (by simp [Phase.integrates])
  | @dispatch status hphase =>
    rcases dispatchPhase_cases e.aborted status run with hdispatch | ⟨hdispatch, -⟩
    · rw [hdispatch]
      exact h.move_to (by rw [hphase]; exact fun _ _ => False.elim) (by simp)
        (by simp [Phase.integrates])
    · rw [hdispatch]
      exact h.move_to (by rw [hphase]; exact fun _ _ => False.elim) (by simp)
        (by simp [Phase.integrates])
  | @launch stepId queue hphase =>
    rcases launchPhase_cases run stepId queue with ⟨ticket, -, hlaunch⟩ | hlaunch
    · rw [hlaunch]
      exact h.move_to (by rw [hphase]; exact fun _ _ => False.elim) (by simp)
        (by simp [Phase.integrates])
    · rw [hlaunch]
      exact h.move_to (by rw [hphase]; exact fun _ _ => False.elim) (by simp)
        (by simp [Phase.integrates])
  | prepareFailed hphase =>
    exact h.move_to (by rw [hphase]; exact fun _ _ => False.elim) (by simp) (by simp [Phase.integrates])
  | settle hphase hnone =>
    exact h.move_to (by rw [hphase]; exact fun _ _ => False.elim) (fun _ _ => hnone)
      (by simp [Phase.integrates])
  | wakeRejected hphase _ =>
    exact h.move_to (fun _ _ _ => trivial) (by simp) (by simp [Phase.integrates])
  | abort => exact ⟨h.attempts, h.settling, h.integrating⟩
  | @wake pre post attempt hphase hactive =>
    refine ⟨?_, by simp, by simp [Phase.integrates]⟩
    intro stored hstored hlive
    left
    rcases h.attempts stored hstored hlive with ⟨entry, hentry, hopen, hid⟩ | hcovers
    · refine ⟨entry, ?_, hopen, hid⟩
      rw [hactive] at hentry
      rcases List.mem_append.mp hentry with hpre | hrest
      · exact List.mem_append_left _ hpre
      · rcases List.mem_cons.mp hrest with rfl | hpost
        · exact absurd rfl hopen
        · exact List.mem_append_right _ hpost
    · rw [hphase] at hcovers
      cases hcovers

private theorem Covered.same {active : List ActiveStep} {phase : Phase}
    {before after : WorkflowStepAttempt} (hsame : SameAttempt before after)
    (h : Covered active phase before) : Covered active phase after := by
  rcases h with ⟨entry, hentry, hopen, hid⟩ | hphase
  · exact Or.inl ⟨entry, hentry, hopen, hid.trans hsame.id.symm⟩
  · right
    cases phase with
    | marking marked queue => exact Eq.trans hphase hsame.id.symm
    | failingLaunch stepId message => exact Eq.trans hphase hsame.stepId.symm
    | stopping => trivial
    | _ => cases hphase

/-- No write but a reservation gives a step an active attempt. -/
theorem activeStepIds_apply_notMem (happly : transaction.apply now run = .ok next)
    (hmark : ∀ attemptId, transaction = .markRunning attemptId →
      ∀ attempt ∈ run.attempts, attempt.id = attemptId → attempt.state.isActive = true)
    (hreserve : ∀ attempt, transaction ≠ .reserve attempt) {stepId : String}
    (h : stepId ∉ activeStepIds run) : stepId ∉ activeStepIds next := by
  intro hactive
  obtain ⟨later, hlater, hlive, rfl⟩ := mem_activeStepIds_iff.mp hactive
  rcases Transaction.apply_active_attempt happly hmark hlater hlive with
    ⟨stored, hstored, hbefore, -, hsame⟩ | ⟨hyes, -⟩
  · exact h (mem_activeStepIds_iff.mpr ⟨stored, hstored, hbefore, hsame.stepId.symm⟩)
  · exact hreserve later hyes

/-- Without active attempts no write but a reservation makes one. -/
theorem no_active_apply (happly : transaction.apply now run = .ok next)
    (hmark : ∀ attemptId, transaction = .markRunning attemptId →
      ∀ attempt ∈ run.attempts, attempt.id = attemptId → attempt.state.isActive = true)
    (hreserve : ∀ attempt, transaction ≠ .reserve attempt) (h : activeStepIds run = []) :
    activeStepIds next = [] := by
  rw [List.eq_nil_iff_forall_not_mem] at *
  exact fun stepId => activeStepIds_apply_notMem happly hmark hreserve (h stepId)

/-- What answered for the attempts a write leaves active still does. -/
private theorem EngineCovers.write (h : EngineCovers run e)
    (happly : transaction.apply now run = .ok next)
    (hmark : ∀ attemptId, transaction = .markRunning attemptId →
      ∀ attempt ∈ run.attempts, attempt.id = attemptId → attempt.state.isActive = true)
    {phase : Phase} {active : List ActiveStep} {aborted : Bool}
    (hreserve : ∀ attempt, transaction = .reserve attempt →
      attempt.stepId ∈ launchableStepIds run → Covered active phase attempt)
    (hcovers : ∀ attempt ∈ run.attempts, attempt.state.isActive = true →
      ¬ transaction.settlesAttempt run attempt.id → Covered e.active e.phase attempt →
        Covered active phase attempt)
    (hsettling : ∀ cancelled, phase = .settling cancelled → active = [])
    (hintegrating : ∀ stepId, phase.integrates = some stepId → stepId ∉ activeStepIds next) :
    EngineCovers next ⟨phase, active, aborted⟩ where
  attempts := by
    intro later hlater hactive
    rcases Transaction.apply_active_attempt happly hmark hlater hactive with
      ⟨stored, hstored, hlive, hsettles, hsame⟩ | ⟨hreserved, hlaunch⟩
    · exact (hcovers stored hstored hlive hsettles (h.attempts stored hstored hlive)).same hsame
    · exact hreserve later hreserved hlaunch
  settling := hsettling
  integrating := hintegrating

/-- A write that neither reserves nor settles leaves the engine as it is. -/
private theorem EngineCovers.other_write (h : EngineCovers run e)
    (happly : transaction.apply now run = .ok next)
    (hmark : ∀ attemptId, transaction ≠ .markRunning attemptId)
    (hreserve : ∀ attempt, transaction ≠ .reserve attempt) : EngineCovers next e := by
  have hmarks : ∀ attemptId, transaction = .markRunning attemptId →
      ∀ attempt ∈ run.attempts, attempt.id = attemptId → attempt.state.isActive = true :=
    fun attemptId hyes => absurd hyes (hmark attemptId)
  refine h.write happly hmarks (fun attempt hyes => absurd hyes (hreserve attempt))
    (fun _ _ _ _ hcovered => hcovered) h.settling ?_
  intro stepId hphase
  exact activeStepIds_apply_notMem happly hmarks hreserve (h.integrating stepId hphase)

/-- A write that neither starts nor settles an attempt nor moves the run leaves the process as it is. -/
private theorem ProcessCovers.other_write {process : Process} (h : ProcessCovers run process)
    (happly : transaction.apply now run = .ok next)
    (hmark : ∀ attemptId, transaction ≠ .markRunning attemptId)
    (hreserve : ∀ attempt, transaction ≠ .reserve attempt) (hstate : next.state = run.state) :
    ProcessCovers next process := by
  have hnone := no_active_apply happly (fun attemptId hyes => absurd hyes (hmark attemptId)) hreserve
  cases process with
  | idle | recovering loaded =>
    intro hstopped
    rw [hstate] at hstopped
    exact hnone (h hstopped)
  | relaunching stopped | retrying => exact hnone h
  | engine e => exact EngineCovers.other_write h happly hmark hreserve

/-- The attempts stay answered for when the store refuses a write. -/
private theorem processCovers_refuses {process process' : Process}
    (h : ProcessCovers run process) (htable : AttemptTable run)
    (htracked : ∀ e, process = .engine e → EngineTracked run e)
    (hrefuses : Refuses process transaction process') : ProcessCovers run process' := by
  cases hrefuses with
  | @reserve e attempt queue message hphase =>
    exact EngineCovers.move_to h (by rw [hphase]; exact fun _ _ => False.elim) (by simp)
      (by simp [Phase.integrates])
  | @markRunning e attempt queue message hphase =>
    apply EngineCovers.move_to h _ (by simp) (by simp [Phase.integrates])
    intro stored hstored hcovers
    have hmarked := (htracked e rfl).phase
    rw [hphase] at hmarked hcovers
    obtain ⟨-, other, hother, hsame, -⟩ := hmarked
    have heq : stored = other := List.inj_on_of_nodup_map htable.nodup hstored hother
      (Eq.trans (Eq.symm hcovers) hsame.id.symm)
    rw [heq]
    exact hsame.stepId.symm
  | recordWorker _ | admission => exact h
  | @settleStep e pre post attempt executed routing hactive =>
    have hengine : EngineCovers run e := h
    refine ⟨?_, ?_, hengine.integrating⟩
    · intro stored hstored hlive
      rcases hengine.attempts stored hstored hlive with ⟨entry, hentry, hopen, hid⟩ | hcovers
      · left
        rw [hactive] at hentry
        rcases List.mem_append.mp hentry with hpre | hrest
        · exact ⟨entry, List.mem_append_left _ hpre, hopen, hid⟩
        · rcases List.mem_cons.mp hrest with rfl | hpost
          · exact ⟨⟨attempt, .rejected⟩, List.mem_append_right _ (List.mem_cons_self ..), by simp, hid⟩
          · exact ⟨entry, List.mem_append_right _ (List.mem_cons_of_mem _ hpost), hopen, hid⟩
      · exact Or.inr hcovers
    · intro cancelled hphase
      have hnone := hengine.settling cancelled hphase
      rw [hactive] at hnone
      simp at hnone
  | failLaunch _ | recordIntegrationFailure _ | settleRun _ | failUnrecorded _ =>
    exact EngineCovers.move_to h (fun _ _ _ => trivial) (by simp) (by simp [Phase.integrates])
  | @recordIntegration e ticket commit error hphase =>
    apply EngineCovers.move_to h (by rw [hphase]; exact fun _ _ => False.elim) (by simp)
    intro stepId hstep
    apply EngineCovers.integrating h
    rw [hphase]
    exact hstep
  | recover => exact h
  | relaunch => exact fun _ => h
  | retry => exact fun _ => h

/-- The attempts stay answered for when a process continues from its write. -/
private theorem processCovers_issues {process process' : Process}
    (h : ProcessCovers run process) (hissues : Issues now run next process transaction process')
    (happly : transaction.apply now run = .ok next)
    (hleaves : ¬ transaction.leavesAttempt run)
    (hmark : ∀ attemptId, transaction = .markRunning attemptId →
      ∀ attempt ∈ run.attempts, attempt.id = attemptId → attempt.state.isActive = true) :
    ProcessCovers next process' := by
  cases hissues with
  | @reserved e attempt queue hphase hlaunch =>
    refine EngineCovers.write h happly hmark ?_ ?_ (by simp) (by simp [Phase.integrates])
    · rintro later hlater -
      cases hlater
      exact Or.inr rfl
    · intro stored _ _ _ hcovered
      rw [hphase] at hcovered
      exact Or.inl (hcovered.resolve_right id)
  | @notReserved e attempt queue hphase hnot =>
    refine EngineCovers.write h happly hmark ?_ ?_ (by simp) (by simp [Phase.integrates])
    · intro later hlater hlaunch
      cases hlater
      exact absurd hlaunch hnot
    · intro stored _ _ _ hcovered
      rw [hphase] at hcovered
      exact Or.inl (hcovered.resolve_right id)
  | @markRunning e attempt queue hphase =>
    refine EngineCovers.write h happly hmark (by simp) ?_ (by simp) (by simp [Phase.integrates])
    intro stored _ _ _ hcovered
    rw [hphase] at hcovered
    left
    rcases hcovered with ⟨entry, hentry, hopen, hid⟩ | hid
    · exact ⟨entry, List.mem_append_left _ hentry, hopen, hid⟩
    · exact ⟨⟨attempt, .executing⟩, List.mem_append_right _ (List.mem_singleton_self _), by simp, hid⟩
  | recordWorker _ => exact EngineCovers.other_write h happly (by simp) (by simp)
  | admission =>
    obtain ⟨-, -, -, -, -, -, -, -, -, -, hstate, -⟩ := admitSteps_ok happly
    exact h.other_write happly (by simp) (by simp) hstate
  | @settleStep e pre post attempt executed routing hactive =>
    have hengine : EngineCovers run e := h
    refine hengine.write happly hmark (by simp) ?_ ?_ ?_
    · intro stored _ _ hsettles hcovered
      rcases hcovered with ⟨entry, hentry, hopen, hid⟩ | hphase
      · left
        rw [hactive] at hentry
        rcases List.mem_append.mp hentry with hpre | hrest
        · exact ⟨entry, List.mem_append_left _ hpre, hopen, hid⟩
        · rcases List.mem_cons.mp hrest with rfl | hpost
          · exact absurd hid.symm hsettles
          · exact ⟨entry, List.mem_append_right _ (List.mem_cons_of_mem _ hpost), hopen, hid⟩
      · exact Or.inr hphase
    · intro cancelled hphase
      have hnone := hengine.settling cancelled hphase
      rw [hactive] at hnone
      simp at hnone
    · intro stepId hphase
      exact activeStepIds_apply_notMem happly hmark (by simp) (hengine.integrating stepId hphase)
  | @failLaunch e stepId message hphase =>
    refine EngineCovers.write h happly hmark (by simp) ?_ (by simp) (by simp [Phase.integrates])
    intro stored hstored hlive _ hcovered
    rw [hphase] at hcovered
    left
    apply hcovered.resolve_right
    intro hstep
    exact hleaves (mem_activeStepIds_iff.mpr ⟨stored, hstored, hlive, Eq.symm hstep⟩)
  | @failUnrecorded e stepId hphase =>
    refine EngineCovers.write h happly hmark (by simp) ?_ (by simp) (by simp [Phase.integrates])
    intro stored _ _ _ hcovered
    rw [hphase] at hcovered
    exact Or.inl (hcovered.resolve_right id)
  | @recordIntegration e ticket commit hphase =>
    refine EngineCovers.write h happly hmark (by simp) ?_ (by simp) (by simp [Phase.integrates])
    intro stored _ _ _ hcovered
    rw [hphase] at hcovered
    exact Or.inl (hcovered.resolve_right id)
  | @recordIntegrationFailure e ticket error hphase =>
    refine EngineCovers.write h happly hmark (by simp) ?_ (by simp) (by simp [Phase.integrates])
    intro stored _ _ _ hcovered
    rw [hphase] at hcovered
    exact Or.inl (hcovered.resolve_right id)
  | @settleRun e cancelled hphase =>
    have hengine : EngineCovers run e := h
    intro _
    apply no_active_apply happly hmark (by simp)
    rw [List.eq_nil_iff_forall_not_mem]
    intro stepId hactive
    obtain ⟨stored, hstored, hlive, -⟩ := mem_activeStepIds_iff.mp hactive
    have hcovered := hengine.attempts stored hstored hlive
    rw [hengine.settling cancelled hphase, hphase] at hcovered
    rcases hcovered with ⟨entry, hentry, -⟩ | hno
    · cases hentry
    · cases hno
  | @recover loaded observations recovered _ =>
    have hnone : activeStepIds next = [] := by
      rw [List.eq_nil_iff_forall_not_mem]
      intro stepId hactive
      rcases (Transaction.apply_active happly hmark (by simp) stepId).mp hactive with
        hno | ⟨stored, hstored, hlive, -, hsettles⟩
      · cases hno
      · exact hsettles (List.mem_map.mpr ⟨stored, List.mem_filter.mpr ⟨hstored, hlive⟩, rfl⟩)
    unfold afterRecovery
    split
    · exact hnone
    · split
      · exact engineCovers_start hnone
      · exact fun _ => hnone
  | relaunch => exact engineCovers_start (no_active_apply happly hmark (by simp) h)
  | retry =>
    have hnone := no_active_apply happly hmark (by simp) h
    split
    · exact fun _ => hnone
    · exact engineCovers_start hnone

/-- A write that leaves no attempt behind ends exactly the steps whose attempts it settles. -/
private theorem ends_iff_settles {process process' : Process}
    (h : ProcessCovers run process) (htable : AttemptTable run)
    (hsingle : (activeStepIds run).Nodup) (htracked : ∀ e, process = .engine e → EngineTracked run e)
    (hissues : Issues now run next process transaction process')
    (hleaves : ¬ transaction.leavesAttempt run) :
    ∀ attempt ∈ run.attempts, attempt.state.isActive = true →
      (transaction.settlesAttempt run attempt.id ↔ transaction.endsStep run attempt.stepId) := by
  intro stored hstored hlive
  have hactive : stored.stepId ∈ activeStepIds run :=
    mem_activeStepIds_iff.mpr ⟨stored, hstored, hlive, rfl⟩
  cases hissues with
  | @settleStep e pre post attempt executed routing hentries =>
    have hmem : ⟨attempt, .executing⟩ ∈ e.active := by
      rw [hentries]
      exact List.mem_append_right _ (List.mem_cons_self ..)
    obtain ⟨other, hother, hsame, hrunning⟩ := (htracked e rfl).carried _ hmem
    have hotherLive : other.state.isActive = true := by
      rw [hrunning (by simp)]
      rfl
    constructor
    · intro hid
      have heq : stored = other :=
        List.inj_on_of_nodup_map htable.nodup hstored hother (Eq.trans hid hsame.id.symm)
      rw [heq]
      exact hsame.stepId
    · intro hstep
      have heq : stored = other := by
        apply List.inj_on_of_nodup_map hsingle
        · exact List.mem_filter.mpr ⟨hstored, hlive⟩
        · exact List.mem_filter.mpr ⟨hother, hotherLive⟩
        · exact Eq.trans hstep hsame.stepId.symm
      rw [heq]
      exact hsame.id
  | failLaunch _ | failUnrecorded _ =>
    refine ⟨False.elim, ?_⟩
    intro hstep
    apply hleaves
    rw [Transaction.endsStep] at hstep
    rw [Transaction.leavesAttempt, ← hstep]
    exact hactive
  | @recordIntegrationFailure e ticket error hphase =>
    refine ⟨False.elim, ?_⟩
    intro hstep
    apply EngineCovers.integrating h ticket.stepId (by rw [hphase]; rfl)
    rw [Transaction.endsStep] at hstep
    rw [← hstep]
    exact hactive
  | settleRun _ =>
    refine ⟨False.elim, ?_⟩
    intro hcancelling
    apply hleaves
    refine ⟨hcancelling, ?_⟩
    intro hnone
    rw [activeAttempts_eq_nil_iff.mp hnone] at hactive
    cases hactive
  | recover _ =>
    refine ⟨fun _ => hactive, fun _ => ?_⟩
    exact List.mem_map.mpr ⟨stored, List.mem_filter.mpr ⟨hstored, hlive⟩, rfl⟩
  | _ => exact Iff.rfl

end Covers

variable {accepts : WorkflowRunState → Prop} {world later : World} {action : Action}

/-- A step that leaves no attempt behind keeps the agreement. -/
theorem Agreement.step (h : Agreement world) (hkept : PlanKept world.run) (htracked : Tracked world)
    (hexclusive : Exclusive world.run) (hstep : Step accepts world action later)
    (hfinishes : FinishesAttempts world action) : Agreement later := by
  have hmarks : ∀ transaction, action = .write transaction → ∀ attemptId,
      transaction = .markRunning attemptId → ∀ attempt ∈ world.run.attempts,
        attempt.id = attemptId → attempt.state.isActive = true := by
    rintro transaction rfl attemptId rfl attempt hattempt hid
    rw [htracked.marks_prepared hstep attempt hattempt hid]
    rfl
  cases hstep with
  | @write transaction next process now hissues happly _ =>
    have hmark := hmarks transaction rfl
    constructor
    · apply h.agrees.apply happly hkept hmark
      · rintro attempt rfl
        rw [(reserves_prepared hissues htracked.engine).2]
        rfl
      · exact ends_iff_settles h.process htracked.table hexclusive.single htracked.engine hissues
          hfinishes
    · exact processCovers_issues h.process hissues happly hfinishes hmark
  | @requestCancellation reason next now happly _ =>
    have hmark := hmarks _ rfl
    constructor
    · exact h.agrees.apply happly hkept hmark (by simp) fun _ _ _ => Iff.rfl
    · have hstate : next.state = world.run.state := by
        cases happly
        exact (requestCancellation_rewrites reason now world.run).state
      exact h.process.other_write happly (by simp) (by simp) hstate
  | @settleCancelled next now _ happly _ =>
    have hmark := hmarks _ rfl
    constructor
    · apply h.agrees.apply happly hkept hmark (by simp)
      intro attempt hattempt hlive
      refine ⟨False.elim, ?_⟩
      intro hcancelling
      apply hfinishes
      refine ⟨hcancelling, ?_⟩
      intro hnone
      have hmem := mem_activeStepIds_iff.mpr ⟨attempt, hattempt, hlive, rfl⟩
      rw [activeAttempts_eq_nil_iff.mp hnone] at hmem
      cases hmem
    · have hcovers := h.process
      have hnone := no_active_apply happly hmark (by simp)
      have hstopped : (world.run.state ≠ .running → activeStepIds world.run = []) →
          activeStepIds next = [] := by
        intro hwhen
        apply hnone
        by_cases hrunning : world.run.state = .running
        · rw [← activeAttempts_eq_nil_iff]
          by_contra hsome
          exact hfinishes ⟨by rw [hrunning]; rfl, hsome⟩
        · exact hwhen hrunning
      dsimp only
      cases hprocess : world.process with
      | idle | recovering loaded =>
        rw [hprocess] at hcovers
        exact fun _ => hstopped hcovers
      | relaunching stopped | retrying =>
        rw [hprocess] at hcovers
        exact hnone hcovers
      | engine e =>
        rw [hprocess] at hcovers
        exact EngineCovers.other_write hcovers happly (by simp) (by simp)
  | refuse hrefuses =>
    exact ⟨h.agrees, processCovers_refuses h.process htracked.table htracked.engine hrefuses⟩
  | @move e branch e' hprocess hmoves =>
    have hcovers := h.process
    rw [hprocess] at hcovers
    exact ⟨h.agrees, EngineCovers.moves hcovers h.agrees hmoves⟩
  | dropCanceller _ => exact ⟨h.agrees, h.process⟩
  | resume hprocess =>
    have hcovers := h.process
    rw [hprocess] at hcovers
    exact ⟨h.agrees, hcovers⟩
  | assessRetry _ hassessed _ =>
    refine ⟨h.agrees, ?_⟩
    unfold retryAssessed at hassessed
    rw [Bool.and_eq_true, List.isEmpty_iff] at hassessed
    exact activeAttempts_eq_nil_iff.mp hassessed.1
  | crash _ | stop _ _ _ =>
    refine ⟨h.agrees, ?_⟩
    intro hstopped
    rw [← activeAttempts_eq_nil_iff]
    exact hfinishes.resolve_left hstopped

/-- A created run agrees, and its engine has nothing to answer for. -/
theorem agreement_of_starts (h : Starts PlanValidated accepts world) : Agreement world := by
  obtain ⟨input, -, hcreate⟩ := h.input
  have hcreated := createWorkflowRunState_ok hcreate
  have hnone : activeStepIds world.run = [] := by
    rw [activeStepIds, activeAttempts, hcreated.attempts]
    rfl
  constructor
  · intro stepId
    rw [hnone]
    refine ⟨fun hmem => absurd hmem List.not_mem_nil, ?_⟩
    rintro ⟨record, hrecord, hrunning⟩
    exact absurd hrunning (created_not_running hcreated (planKept_of_starts h) hrecord)
  · rw [h.process]
    exact engineCovers_start hnone

/-- What the agreement says of attempts and steps. -/
structure AttemptsAgree (world : World) : Prop where
  active : ∀ attempt ∈ activeAttempts world.run, StepRunning world.run.steps attempt.stepId
  running : ∀ stepId, StepRunning world.run.steps stepId →
    ((activeAttempts world.run).filter fun attempt => attempt.stepId = stepId).length = 1
  finished : world.run.state ≠ .running → (∀ e, world.process ≠ .engine e) →
    activeAttempts world.run = []
  unclaimed : ∀ stepId record, world.run.steps.get? stepId = some record →
    record.state = .failed → stepId ∉ activeStepIds world.run

private theorem one_active {run : WorkflowRunState} {stepId : String}
    (hsingle : (activeStepIds run).Nodup) (h : stepId ∈ activeStepIds run) :
    ((activeAttempts run).filter fun attempt => attempt.stepId = stepId).length = 1 := by
  have hcount : (activeStepIds run).count stepId = 1 := List.count_eq_one_of_mem hsingle h
  rw [activeStepIds, List.count, List.countP_map, List.countP_eq_length_filter] at hcount
  rw [← hcount]
  congr 1

/-- The run once the launch of `edit` has failed, its attempt still prepared. -/
def abandonedRun : WorkflowRunState :=
  { reservedRun with
    state := .failed
    steps := .ofList [("edit", { editRecord .failed with error := some "disk full" }),
      ("check", { initialStepRecord checkStep with state := .blocked })]
    events := [launchedEvent,
      ⟨2, "2", .stepFailed "edit" "" "disk full" .terminal "the step could not start"⟩,
      ⟨3, "2", .stepBlocked "check" ["edit"]⟩]
    eventSequence := 3
    updatedAt := "2" }

/-- The store refuses to mark the reserved attempt running; the step is failed and the attempt
stays prepared. -/
theorem abandonedRun_reachable (sha256Hex : String → String) :
    (storedEngine sha256Hex).Reachable (engineAt abandonedRun .dispatched []) := by
  have hfailing : (storedEngine sha256Hex).Reachable
      (engineAt reservedRun (.failingLaunch "edit" "disk full") []) :=
    (reservedRun_reachable sha256Hex).step_to (Step.refuse (Refuses.markRunning rfl)) rfl
  have hfail : (Transaction.failStep "edit" "disk full").apply (clock "2") reservedRun =
      .ok abandonedRun := rfl
  have haccepted : Accepts sha256Hex abandonedRun := rfl
  exact hfailing.step_to (Step.write (Issues.failLaunch rfl) hfail fun _ => haccepted) rfl

end BuildConductor.Lifecycle
