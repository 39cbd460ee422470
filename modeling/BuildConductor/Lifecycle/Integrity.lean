import BuildConductor.Engine.Integrations
import BuildConductor.Lifecycle.Agreement
import BuildConductor.Lifecycle.Numbering
import BuildConductor.Storage.Preservation

/-!
# What a stored run keeps true of its steps

A step that succeeded satisfies its dependents for good once its commit is integrated: no write
of the engine touches its result again. So a step that was ever launched has only such
dependencies. Supports `src/src/engine/engine.ts:252-659`, `src/src/engine/scheduler.ts:26-62`,
`src/src/engine/recovery.ts:248-377`.
-/

namespace BuildConductor.Lifecycle

open Base Domain Security Engine Workflows Storage

/-! ## Worlds of the stored engine -/

/-- What every reachable world of the stored engine has. -/
structure Consistent (sha256Hex : String → String) (world : World) : Prop where
  kept : PlanKept world.run
  accepted : RunAccepted sha256Hex world.run world.run.plan
  reconciled : IsReconciled world.run
  tracked : Tracked world
  exclusive : Exclusive world.run
  numbered : Numbered world.run

/-- The store accepts every run it holds. -/
theorem accepts_reachable {starts : CreateWorkflowRunStateInput → Prop}
    {accepts : WorkflowRunState → Prop} {world : World}
    (h : (engineSystem starts accepts).Reachable world) : accepts world.run := by
  apply h.invariant
  · exact fun _ hstarts => hstarts.accepted
  · intro s a t _ hrun hstep
    have hwrite : ∀ next, (next ≠ s.run → accepts next) → accepts next := by
      intro next haccepted
      by_cases hsame : next = s.run
      · rw [hsame]
        exact hrun
      · exact haccepted hsame
    cases hstep with
    | write _ _ haccepted => exact hwrite _ haccepted
    | requestCancellation _ haccepted => exact hwrite _ haccepted
    | settleCancelled _ _ haccepted => exact hwrite _ haccepted
    | refuse _ => exact hrun
    | move _ _ => exact hrun
    | dropCanceller _ => exact hrun
    | resume _ => exact hrun
    | assessRetry _ _ _ => exact hrun
    | crash _ => exact hrun
    | stop _ _ _ => exact hrun

theorem consistent_reachable {sha256Hex : String → String} {world : World}
    (h : (storedEngine sha256Hex).Reachable world) : Consistent sha256Hex world where
  kept := planKept_reachable h
  accepted := by
    obtain ⟨plan, haccepted⟩ := accepts_iff.mp (accepts_reachable h)
    have hplan : plan = world.run.plan :=
      Except.ok.inj (haccepted.reads.symm.trans (planNormal_reachable h))
    rw [hplan] at haccepted
    exact haccepted
  reconciled := isReconciled_reachable h
  tracked := tracked_reachable h
  exclusive := exclusive_reachable h
  numbered := numbered_reachable h

/-- The record of a step of an accepted run is one the store accepts. -/
theorem Consistent.record {sha256Hex : String → String} {world : World}
    (h : Consistent sha256Hex world) {stepId : String} {record : WorkflowStepRecord}
    (hrecord : world.run.steps.get? stepId = some record) :
    StepAccepted world.run.capabilityProfiles record.definition record :=
  (h.accepted.steps.record h.kept.steps hrecord).2.2.2

/-! ## The engine process along a step -/

/-- The writes of a cancelling process. -/
def Transaction.cancels : Transaction → Prop
  | .requestCancellation _ => True
  | .settleRun cancelled => cancelled = true
  | _ => False

/-- What holds of an engine at its start, and is kept by its writes, by those of a cancelling
process, by refusals and by moves, holds of the engine after every step. -/
theorem Step.engine_rule {accepts : WorkflowRunState → Prop} {world later : World} {action : Action}
    {P : WorkflowRunState → EngineProcess → Prop} (hstep : Step accepts world action later)
    (h : ∀ e, world.process = .engine e → P world.run e) (hstart : P later.run .start)
    (hissues : ∀ transaction now e e', world.process = .engine e →
      Issues now world.run later.run (.engine e) transaction (.engine e') →
      transaction.apply now world.run = .ok later.run →
      action = .write transaction → P later.run e')
    (hcancels : ∀ (transaction : Transaction) now e, world.process = .engine e → transaction.cancels →
      transaction.apply now world.run = .ok later.run → P later.run e)
    (hrefuses : ∀ transaction e e', world.process = .engine e →
      Refuses (.engine e) transaction (.engine e') → P world.run e')
    (hmoves : ∀ e e' branch', world.process = .engine e →
      Moves world.run world.branchHead world.branch e branch' e' → P world.run e') :
    ∀ e, later.process = .engine e → P later.run e := by
  intro e' hengine
  cases hstep with
  | @write transaction next process now hissued happly _ =>
    dsimp only at hengine hstart hissues ⊢
    cases hprocess : world.process with
    | engine e =>
      rw [hprocess, hengine] at hissued
      exact hissues transaction now e e' hprocess hissued happly rfl
    | idle =>
      rw [hprocess] at hissued
      cases hissued
      cases hengine
    | recovering loaded =>
      rw [hprocess] at hissued
      cases hissued with
      | admission => cases hengine
      | recover _ =>
        unfold afterRecovery at hengine
        split at hengine
        · cases hengine
        · split at hengine
          · cases hengine
            exact hstart
          · cases hengine
    | relaunching stopped =>
      rw [hprocess] at hissued
      cases hissued with
      | admission => cases hengine
      | relaunch =>
        cases hengine
        exact hstart
    | retrying =>
      rw [hprocess] at hissued
      cases hissued with
      | admission => cases hengine
      | retry =>
        split at hengine
        · cases hengine
        · cases hengine
          exact hstart
  | @requestCancellation reason next now happly _ =>
    exact hcancels (.requestCancellation reason) now e' hengine trivial happly
  | @settleCancelled next now _ happly _ => exact hcancels (.settleRun true) now e' hengine rfl happly
  | @refuse transaction process hrefused =>
    dsimp only at hengine
    cases hprocess : world.process with
    | engine e =>
      rw [hprocess, hengine] at hrefused
      exact hrefuses transaction e e' hprocess hrefused
    | idle | recovering loaded | relaunching stopped | retrying =>
      rw [hprocess] at hrefused
      cases hrefused <;> cases hengine
  | @move e branch moved hprocess hmoved =>
    cases hengine
    exact hmoves e e' branch hprocess hmoved
  | dropCanceller _ => exact h e' hengine
  | resume _ | assessRetry _ _ _ | crash _ | stop _ _ _ => cases hengine

/-! ## Results of steps -/

/-- A recorded step that satisfies its dependents. -/
def Satisfied (run : WorkflowRunState) (stepId : String) : Prop :=
  ∃ record, run.steps.get? stepId = some record ∧
    stepSatisfiesDependents run.capabilityProfiles record = true

/-- A step that succeeded and whose commit is still to be integrated. -/
def AwaitsMerge (run : WorkflowRunState) (stepId : String) : Prop :=
  ∃ record, run.steps.get? stepId = some record ∧ record.state = .succeeded ∧
    stepRequiresIntegration run.capabilityProfiles record.definition = true ∧
    record.integratedCommit = none

/-- A recorded step that has not succeeded. -/
def Unfinished (run : WorkflowRunState) (stepId : String) : Prop :=
  ∃ record, run.steps.get? stepId = some record ∧ record.state ≠ .succeeded

theorem satisfied_iff {profiles : RunCapabilityProfiles} {record : WorkflowStepRecord} :
    stepSatisfiesDependents profiles record = true ↔ record.state = .succeeded ∧
      (stepRequiresIntegration profiles record.definition = true →
        record.integratedCommit ≠ none) := by
  unfold stepSatisfiesDependents
  rw [Bool.and_eq_true, decide_eq_true_eq, Bool.or_eq_true, Bool.not_eq_true',
    Option.isSome_iff_ne_none]
  apply and_congr_right
  intro _
  cases stepRequiresIntegration profiles record.definition <;> simp

theorem Satisfied.not_awaitsMerge {run : WorkflowRunState} {stepId : String}
    (h : Satisfied run stepId) : ¬ AwaitsMerge run stepId := by
  rintro ⟨record, hrecord, -, hrequires, hnone⟩
  obtain ⟨other, hother, hsatisfied⟩ := h
  rw [hrecord, Option.some.injEq] at hother
  rw [← hother] at hsatisfied
  exact (satisfied_iff.mp hsatisfied).2 hrequires hnone

theorem Satisfied.not_unfinished {run : WorkflowRunState} {stepId : String}
    (h : Satisfied run stepId) : ¬ Unfinished run stepId := by
  rintro ⟨record, hrecord, hunfinished⟩
  obtain ⟨other, hother, hsatisfied⟩ := h
  rw [hrecord, Option.some.injEq] at hother
  rw [← hother] at hsatisfied
  exact hunfinished (satisfied_iff.mp hsatisfied).1

/-- What is launched has only dependencies that satisfy it. -/
theorem launchable_dependencies {run : WorkflowRunState} (hreconciled : IsReconciled run)
    {stepId : String} {record : WorkflowStepRecord} (hlaunch : stepId ∈ launchableStepIds run)
    (hrecord : run.steps.get? stepId = some record) :
    ∀ d ∈ record.definition.dependencies, Satisfied run d := by
  obtain ⟨-, -, -, found, hfound, hwaiting, hready⟩ := launchable_facts hlaunch
  rw [hrecord, Option.some.injEq] at hfound
  rw [← hfound] at hwaiting hready
  rw [reconcile_of_isReconciled hreconciled, hrecord, Option.some.injEq] at hready
  have hstate : record.state = .ready := congrArg (·.state) hready
  exact readiness_ready_iff.mp ((hreconciled stepId record hrecord hwaiting).symm.trans hstate)

/-- The steps whose result a write may touch. -/
def Transaction.touchesResult (run : WorkflowRunState) (stepId : String) : Transaction → Prop
  | .settleStep settled _ _ _ => stepId = settled
  | .failStep failed _ => stepId = failed
  | .recordIntegration ticket _ => stepId = ticket.stepId
  | .recordIntegrationFailure ticket _ => stepId = ticket.stepId
  | .recover _ => stepId ∈ activeStepIds run
  | _ => False

section Results

variable {run next : WorkflowRunState} {now : Timestamp} {transaction : Transaction}
  {stepId : String} {record settled later : WorkflowStepRecord}

theorem Reconciles.succeeded_iff (h : Reconciles settled later) :
    later.state = .succeeded ↔ settled.state = .succeeded := by
  obtain ⟨-, hkept | ⟨hwaiting, hlater⟩⟩ := h
  · rw [hkept]
  · have hsettled : settled.state ≠ .succeeded := by
      intro hstate
      rw [hstate] at hwaiting
      cases hwaiting
    have hopen : later.state ≠ .succeeded := by
      rcases hlater with hstate | hstate | hstate <;> rw [hstate] <;> simp
    exact iff_of_false hopen hsettled

private theorem updates_untouched (hupdates : transaction.updates now run stepId record settled)
    (hrecord : run.steps.get? stepId = some record) (h : ¬ transaction.touchesResult run stepId) :
    settled.integratedCommit = record.integratedCommit ∧ settled.definition = record.definition ∧
      (settled.state = .succeeded ↔ record.state = .succeeded) := by
  cases transaction with
  | reserve attempt =>
    rw [Transaction.updates] at hupdates
    rw [hupdates]
    split
    · next hstarts =>
      obtain ⟨-, -, -, found, hfound, hwaiting, -⟩ := launchable_facts hstarts.2
      rw [hrecord, Option.some.injEq] at hfound
      have hopen : record.state ≠ .succeeded := by
        intro hstate
        rw [← hfound, hstate] at hwaiting
        cases hwaiting
      exact ⟨rfl, rfl, iff_of_false (by simp [reservedRecord]) hopen⟩
    · exact ⟨rfl, rfl, Iff.rfl⟩
  | settleStep id attempt executed routing | failStep id message | recordIntegration ticket commit
  | recordIntegrationFailure ticket error =>
    rw [Transaction.touchesResult] at h
    rw [Transaction.updates, if_neg h] at hupdates
    rw [hupdates]
    exact ⟨rfl, rfl, Iff.rfl⟩
  | settleRun cancelled =>
    rw [Transaction.updates] at hupdates
    rw [hupdates]
    split
    · next hopen =>
      have hstate : record.state ≠ .succeeded := by
        intro hstate
        have hyes := hopen.2
        unfold isOpenStep at hyes
        rw [hstate] at hyes
        cases hyes
      exact ⟨rfl, rfl, iff_of_false (by simp) hstate⟩
    · exact ⟨rfl, rfl, Iff.rfl⟩
  | recover decide =>
    rcases hupdates with ⟨attempt, hattempt, hid, -⟩ | ⟨-, hsettled⟩
    · exact absurd (List.mem_map.mpr ⟨attempt, hattempt, hid⟩) h
    · rw [hsettled]
      split
      · next hblocked =>
        exact ⟨rfl, rfl, iff_of_false (by simp) (by simp [hblocked.2])⟩
      · exact ⟨rfl, rfl, Iff.rfl⟩
  | relaunch stopped =>
    rw [Transaction.updates] at hupdates
    rw [hupdates]
    split
    · next hreset =>
      refine ⟨rfl, rfl, iff_of_false (by simp) ?_⟩
      rcases hreset with hstate | ⟨hstate, -⟩ <;> simp [hstate]
    · exact ⟨rfl, rfl, Iff.rfl⟩
  | retry =>
    rw [Transaction.updates] at hupdates
    rw [hupdates]
    split
    · next hreset =>
      refine ⟨rfl, rfl, iff_of_false (by simp) ?_⟩
      rcases hreset with hstate | hstate <;> simp [hstate]
    · exact ⟨rfl, rfl, Iff.rfl⟩
  | requestCancellation reason | markRunning attemptId | recordWorker attemptId workerId
  | admission request =>
    rw [Transaction.updates] at hupdates
    rw [hupdates]
    exact ⟨rfl, rfl, Iff.rfl⟩

/-- A write leaves the result of every step it does not touch. -/
theorem Transaction.apply_untouched (happly : transaction.apply now run = .ok next)
    (hkept : PlanKept run) (hunique : (activeStepIds run).Nodup)
    (hrecord : run.steps.get? stepId = some record) (h : ¬ transaction.touchesResult run stepId) :
    ∃ later, next.steps.get? stepId = some later ∧
      later.integratedCommit = record.integratedCommit ∧ later.definition = record.definition ∧
      (later.state = .succeeded ↔ record.state = .succeeded) := by
  obtain ⟨settled, later, hupdates, hreconciles, hlater⟩ :=
    Transaction.apply_updates happly hkept hunique hrecord
  obtain ⟨hcommit, hdefinition, hstate⟩ := updates_untouched hupdates hrecord h
  refine ⟨later, hlater, ?_, ?_, hreconciles.succeeded_iff.trans hstate⟩
  · rw [hreconciles.1]
    exact hcommit
  · rw [hreconciles.1]
    exact hdefinition

theorem Satisfied.apply (h : Satisfied run stepId) (happly : transaction.apply now run = .ok next)
    (hkept : PlanKept run) (hunique : (activeStepIds run).Nodup)
    (huntouched : ¬ transaction.touchesResult run stepId) : Satisfied next stepId := by
  obtain ⟨record, hrecord, hsatisfied⟩ := h
  obtain ⟨later, hlater, hcommit, hdefinition, hstate⟩ :=
    Transaction.apply_untouched happly hkept hunique hrecord huntouched
  refine ⟨later, hlater, ?_⟩
  rw [satisfied_iff] at hsatisfied ⊢
  rw [hstate, hcommit, hdefinition, (Transaction.apply_header happly).capabilityProfiles]
  exact hsatisfied

theorem AwaitsMerge.apply (h : AwaitsMerge run stepId)
    (happly : transaction.apply now run = .ok next) (hkept : PlanKept run)
    (hunique : (activeStepIds run).Nodup) (huntouched : ¬ transaction.touchesResult run stepId) :
    AwaitsMerge next stepId := by
  obtain ⟨record, hrecord, hsucceeded, hrequires, hnone⟩ := h
  obtain ⟨later, hlater, hcommit, hdefinition, hstate⟩ :=
    Transaction.apply_untouched happly hkept hunique hrecord huntouched
  refine ⟨later, hlater, hstate.mpr hsucceeded, ?_, hcommit.trans hnone⟩
  rw [hdefinition, (Transaction.apply_header happly).capabilityProfiles]
  exact hrequires

theorem Unfinished.apply (h : Unfinished run stepId)
    (happly : transaction.apply now run = .ok next) (hkept : PlanKept run)
    (hunique : (activeStepIds run).Nodup) (huntouched : ¬ transaction.touchesResult run stepId) :
    Unfinished next stepId := by
  obtain ⟨record, hrecord, hopen⟩ := h
  obtain ⟨later, hlater, -, -, hstate⟩ :=
    Transaction.apply_untouched happly hkept hunique hrecord huntouched
  exact ⟨later, hlater, fun hsucceeded => hopen (hstate.mp hsucceeded)⟩

end Results

/-! ## Launched steps -/

/-- What succeeded was attempted and is not attempted again, and what was attempted has only
dependencies that satisfy it. -/
structure StepsSound (run : WorkflowRunState) : Prop where
  unfinished : ∀ stepId ∈ activeStepIds run, Unfinished run stepId
  attempted : ∀ stepId record, run.steps.get? stepId = some record → record.state = .succeeded →
    attemptsOf run stepId ≠ []
  launched : ∀ stepId record, run.steps.get? stepId = some record → attemptsOf run stepId ≠ [] →
    ∀ d ∈ record.definition.dependencies, Satisfied run d

/-- A step in a launch queue: recorded, not succeeded, and without an active attempt. -/
def Unstarted (run : WorkflowRunState) (stepId : String) : Prop :=
  stepId ∉ activeStepIds run ∧ Unfinished run stepId

/-- Steps queued for launch are different and unstarted. -/
def Queued (run : WorkflowRunState) (queue : List String) : Prop :=
  queue.Nodup ∧ ∀ stepId ∈ queue, Unstarted run stepId

/-- What an engine is about to integrate awaits its merge, what it is about to launch is unstarted
and starts from the integration head, and no execution is under way for what it gives up. -/
def PhaseSound (run : WorkflowRunState) (active : List ActiveStep) : Phase → Prop
  | .merging ticket _ => AwaitsMerge run ticket.stepId ∧ ticket.expectedHead = run.integrationHead
  | .recordingIntegration ticket _ => AwaitsMerge run ticket.stepId
  | .failingIntegration ticket _ => AwaitsMerge run ticket.stepId
  | .unrecorded stepId => AwaitsMerge run stepId
  | .dispatching queue => Queued run queue
  | .preparing ticket queue =>
    Queued run (ticket.stepId :: queue) ∧ ticket.startPoint = run.integrationHead
  | .reserving attempt queue =>
    Queued run (attempt.stepId :: queue) ∧ attempt.baseCommit = run.integrationHead
  | .marking attempt queue => Queued run queue ∧ attempt.stepId ∉ queue
  | .failingLaunch stepId _ => Unfinished run stepId ∧
      ∀ entry ∈ active, entry.completion = .executing → entry.attempt.stepId ≠ stepId
  | _ => True

section Soundness

variable {run next : WorkflowRunState} {now : Timestamp} {transaction : Transaction}
  {stepId : String} {record : WorkflowStepRecord}

theorem attemptsOf_ne_nil_iff {run : WorkflowRunState} {stepId : String} :
    attemptsOf run stepId ≠ [] ↔ ∃ attempt ∈ run.attempts, attempt.stepId = stepId := by
  unfold attemptsOf
  rw [Ne, List.filter_eq_nil_iff]
  push Not
  simp only [decide_eq_true_eq]

private theorem attemptsOf_apply_ne_nil (happly : transaction.apply now run = .ok next)
    (h : attemptsOf next stepId ≠ []) : attemptsOf run stepId ≠ [] ∨
      ∃ attempt, transaction = .reserve attempt ∧ attempt.stepId = stepId ∧
        stepId ∈ launchableStepIds run := by
  obtain ⟨later, hlater, rfl⟩ := attemptsOf_ne_nil_iff.mp h
  rcases Transaction.apply_attempt happly hlater with ⟨stored, hstored, hevolves⟩ | ⟨htransaction, hlaunch⟩
  · exact Or.inl (attemptsOf_ne_nil_iff.mpr ⟨stored, hstored, hevolves.same.stepId.symm⟩)
  · exact Or.inr ⟨later, htransaction, rfl, hlaunch⟩

theorem Transaction.apply_attemptsOf_ne_nil (happly : transaction.apply now run = .ok next)
    (h : attemptsOf run stepId ≠ []) : attemptsOf next stepId ≠ [] := by
  obtain ⟨stored, hstored, rfl⟩ := attemptsOf_ne_nil_iff.mp h
  obtain ⟨later, hlater, hevolves⟩ := Transaction.apply_stored happly hstored
  exact attemptsOf_ne_nil_iff.mpr ⟨later, hlater, hevolves.same.stepId⟩

/-- What a write needs to keep the steps sound: it settles only active attempts, and fails or
integrates no step that satisfies its dependents. -/
structure WriteSound (run : WorkflowRunState) (transaction : Transaction) : Prop where
  settles : ∀ id attempt executed routing,
    transaction = .settleStep id attempt executed routing → attempt.stepId = id ∧
      ∃ stored ∈ run.attempts, SameAttempt attempt stored ∧ stored.state.isActive = true
  marks : ∀ attemptId, transaction = .markRunning attemptId →
    ∀ attempt ∈ run.attempts, attempt.id = attemptId → attempt.state.isActive = true
  reserves : ∀ attempt, transaction = .reserve attempt → attempt.state.isActive = true
  fails : ∀ id message, transaction = .failStep id message →
    AwaitsMerge run id ∨ Unfinished run id
  integrates : ∀ ticket commit, transaction = .recordIntegration ticket commit →
    AwaitsMerge run ticket.stepId
  abandons : ∀ ticket error, transaction = .recordIntegrationFailure ticket error →
    AwaitsMerge run ticket.stepId

private theorem WriteSound.untouched (hwrite : WriteSound run transaction) (h : StepsSound run)
    (hsatisfied : Satisfied run stepId) : ¬ transaction.touchesResult run stepId := by
  intro htouched
  cases transaction with
  | settleStep id attempt executed routing =>
    obtain ⟨hid, stored, hstored, hsame, hactive⟩ := hwrite.settles id attempt executed routing rfl
    have hmem : stepId ∈ activeStepIds run := by
      apply mem_activeStepIds_iff.mpr
      exact ⟨stored, hstored, hactive, by rw [hsame.stepId, hid]; exact htouched.symm⟩
    exact hsatisfied.not_unfinished (h.unfinished stepId hmem)
  | failStep id message =>
    have hfails := hwrite.fails id message rfl
    rw [← show stepId = id from htouched] at hfails
    exact hfails.elim hsatisfied.not_awaitsMerge hsatisfied.not_unfinished
  | recordIntegration ticket commit =>
    have hawaits := hwrite.integrates ticket commit rfl
    rw [← show stepId = ticket.stepId from htouched] at hawaits
    exact hsatisfied.not_awaitsMerge hawaits
  | recordIntegrationFailure ticket error =>
    have hawaits := hwrite.abandons ticket error rfl
    rw [← show stepId = ticket.stepId from htouched] at hawaits
    exact hsatisfied.not_awaitsMerge hawaits
  | recover decide => exact hsatisfied.not_unfinished (h.unfinished stepId htouched)
  | _ => cases htouched

theorem AwaitsMerge.not_unfinished (h : AwaitsMerge run stepId) : ¬ Unfinished run stepId := by
  rintro ⟨record, hrecord, hopen⟩
  obtain ⟨other, hother, hsucceeded, -⟩ := h
  rw [hrecord, Option.some.injEq] at hother
  rw [hother] at hopen
  exact hopen hsucceeded

/-- Two active attempts of one step are the same attempt. -/
theorem active_unique {left right : WorkflowStepAttempt} (hunique : (activeStepIds run).Nodup)
    (hleft : left ∈ run.attempts) (hright : right ∈ run.attempts)
    (hleftActive : left.state.isActive = true) (hrightActive : right.state.isActive = true)
    (hstep : left.stepId = right.stepId) : left = right :=
  List.inj_on_of_nodup_map hunique (List.mem_filter.mpr ⟨hleft, hleftActive⟩)
    (List.mem_filter.mpr ⟨hright, hrightActive⟩) hstep

/-- A step that is active after a write was active before it or is launched by it, and the write
does not finish it. -/
private theorem unfinished_apply (h : StepsSound run) (hwrite : WriteSound run transaction)
    (happly : transaction.apply now run = .ok next) (hkept : PlanKept run)
    (hunique : (activeStepIds run).Nodup) (hactive : stepId ∈ activeStepIds next) :
    Unfinished next stepId := by
  rcases (Transaction.apply_active happly hwrite.marks hwrite.reserves stepId).mp hactive with
    hstarts | ⟨attempt, hattempt, hlive, rfl, hsettles⟩
  · cases transaction with
    | reserve attempt =>
      obtain ⟨rfl, hlaunch⟩ := hstarts
      rcases reserveAttempt_ok happly with ⟨hnot, -⟩ | ⟨-, record, hrecord, hrewrites⟩
      · exact absurd hlaunch hnot
      · refine ⟨reservedRecord record attempt.id, ?_, by simp [reservedRecord]⟩
        rw [hrewrites.steps, OrderedRecord.get?_set_self]
    | _ => cases hstarts
  · have hbefore := h.unfinished _ (mem_activeStepIds_iff.mpr ⟨attempt, hattempt, hlive, rfl⟩)
    by_cases htouched : transaction.touchesResult run attempt.stepId
    · cases transaction with
      | settleStep id settled executed routing =>
        obtain ⟨hid, stored, hstored, hsame, hstoredActive⟩ :=
          hwrite.settles id settled executed routing rfl
        exfalso
        apply hsettles
        have heq : stored = attempt := by
          apply active_unique hunique hstored hattempt hstoredActive hlive
          rw [hsame.stepId, hid]
          exact htouched.symm
        rw [Transaction.settlesAttempt, ← heq]
        exact hsame.id
      | failStep id message =>
        obtain ⟨record, hrecord, -⟩ := hbefore
        obtain ⟨settled, later, hupdates, hreconciles, hlater⟩ :=
          Transaction.apply_updates happly hkept hunique hrecord
        rw [Transaction.touchesResult] at htouched
        rw [Transaction.updates, if_pos htouched] at hupdates
        refine ⟨later, hlater, ?_⟩
        rw [Ne, hreconciles.succeeded_iff, hupdates]
        simp
      | recordIntegration ticket commit =>
        have hawaits := hwrite.integrates ticket commit rfl
        rw [← show attempt.stepId = ticket.stepId from htouched] at hawaits
        exact absurd hbefore hawaits.not_unfinished
      | recordIntegrationFailure ticket error =>
        have hawaits := hwrite.abandons ticket error rfl
        rw [← show attempt.stepId = ticket.stepId from htouched] at hawaits
        exact absurd hbefore hawaits.not_unfinished
      | recover decide =>
        exfalso
        apply hsettles
        exact List.mem_map.mpr ⟨attempt, List.mem_filter.mpr ⟨hattempt, hlive⟩, rfl⟩
      | _ => cases htouched
    · exact hbefore.apply happly hkept hunique htouched

/-- What succeeds after a write succeeded before it, or an active attempt of it is settled. -/
private theorem attempted_apply (h : StepsSound run) (hwrite : WriteSound run transaction)
    (happly : transaction.apply now run = .ok next) (hkept : PlanKept run)
    (hunique : (activeStepIds run).Nodup) (hrecord : next.steps.get? stepId = some record)
    (hsucceeded : record.state = .succeeded) : attemptsOf run stepId ≠ [] := by
  rcases Transaction.apply_new_record happly hkept hrecord with ⟨before, hbefore⟩ |
    ⟨-, hadmitted⟩
  · by_cases htouched : transaction.touchesResult run stepId
    · cases transaction with
      | settleStep id settled executed routing =>
        obtain ⟨hid, stored, hstored, hsame, -⟩ := hwrite.settles id settled executed routing rfl
        apply attemptsOf_ne_nil_iff.mpr
        exact ⟨stored, hstored, by rw [hsame.stepId, hid]; exact htouched.symm⟩
      | failStep id message =>
        obtain ⟨settled, later, hupdates, hreconciles, hlater⟩ :=
          Transaction.apply_updates happly hkept hunique hbefore
        rw [Transaction.touchesResult] at htouched
        rw [Transaction.updates, if_pos htouched] at hupdates
        rw [hrecord, Option.some.injEq] at hlater
        rw [hlater, hreconciles.succeeded_iff, hupdates] at hsucceeded
        cases hsucceeded
      | recordIntegration ticket commit =>
        obtain ⟨other, hother, hstate, -⟩ := hwrite.integrates ticket commit rfl
        rw [← show stepId = ticket.stepId from htouched] at hother
        exact h.attempted stepId other hother hstate
      | recordIntegrationFailure ticket error =>
        obtain ⟨other, hother, hstate, -⟩ := hwrite.abandons ticket error rfl
        rw [← show stepId = ticket.stepId from htouched] at hother
        exact h.attempted stepId other hother hstate
      | recover decide =>
        obtain ⟨attempt, hattempt, -, hid⟩ := mem_activeStepIds_iff.mp htouched
        exact attemptsOf_ne_nil_iff.mpr ⟨attempt, hattempt, hid⟩
      | _ => cases htouched
    · obtain ⟨later, hlater, -, -, hstate⟩ :=
        Transaction.apply_untouched happly hkept hunique hbefore htouched
      rw [hrecord, Option.some.injEq] at hlater
      rw [hlater, hstate] at hsucceeded
      exact h.attempted stepId before hbefore hsucceeded
  · rw [hadmitted.succeeded_iff] at hsucceeded
    cases hsucceeded

/-- Every write that settles only what is active, and fails or integrates only what is not
satisfied, keeps the steps sound. -/
theorem StepsSound.apply (h : StepsSound run) (hwrite : WriteSound run transaction)
    (happly : transaction.apply now run = .ok next) (hkept : PlanKept run)
    (hreconciled : IsReconciled run) (htable : AttemptTable run)
    (hunique : (activeStepIds run).Nodup) : StepsSound next := by
  constructor
  · exact fun stepId => unfinished_apply h hwrite happly hkept hunique
  · intro stepId record hrecord hsucceeded
    exact Transaction.apply_attemptsOf_ne_nil happly
      (attempted_apply h hwrite happly hkept hunique hrecord hsucceeded)
  · intro stepId record hrecord hattempts d hd
    have hbefore : ∃ before, run.steps.get? stepId = some before ∧
        ∀ d ∈ before.definition.dependencies, Satisfied run d := by
      rcases attemptsOf_apply_ne_nil happly hattempts with hold | ⟨attempt, -, -, hlaunch⟩
      · obtain ⟨attempt, hattempt, rfl⟩ := attemptsOf_ne_nil_iff.mp hold
        obtain ⟨before, hbefore⟩ := htable.recorded attempt hattempt
        exact ⟨before, hbefore, h.launched attempt.stepId before hbefore hold⟩
      · obtain ⟨-, -, -, before, hbefore, -, -⟩ := launchable_facts hlaunch
        exact ⟨before, hbefore, launchable_dependencies hreconciled hlaunch hbefore⟩
    obtain ⟨before, hbefore, hsatisfied⟩ := hbefore
    obtain ⟨later, hlater, hdefinition⟩ := Transaction.apply_record happly hkept hbefore
    rw [hrecord, Option.some.injEq] at hlater
    rw [hlater, hdefinition] at hd
    have hdependency := hsatisfied d hd
    exact hdependency.apply happly hkept hunique (hwrite.untouched h hdependency)

/-- Only a recorded integration moves the head. -/
theorem Transaction.apply_integrationHead (happly : transaction.apply now run = .ok next)
    (h : ∀ ticket commit, transaction ≠ .recordIntegration ticket commit) :
    next.integrationHead = run.integrationHead := by
  cases transaction with
  | requestCancellation reason =>
    cases happly
    exact (requestCancellation_rewrites reason now run).integrationHead
  | reserve attempt =>
    rcases reserveAttempt_ok happly with ⟨-, rfl⟩ | ⟨-, record, -, hwrite⟩
    · rfl
    · exact hwrite.integrationHead
  | markRunning attemptId =>
    cases happly
    rfl
  | recordWorker attemptId workerId =>
    cases happly
    rfl
  | settleStep id attempt executed routing =>
    obtain ⟨record, artifactIds, -, hwrite⟩ := settleStep_ok happly
    exact hwrite.integrationHead
  | failStep id message =>
    obtain ⟨record, -, hwrite⟩ := failStep_ok happly
    exact hwrite.integrationHead
  | recordIntegration ticket commit => exact absurd rfl (h ticket commit)
  | recordIntegrationFailure ticket error =>
    obtain ⟨record, -, hwrite⟩ := recordIntegrationFailure_ok happly
    exact hwrite.integrationHead
  | settleRun cancelled =>
    cases happly
    exact (settleRun_rewrites cancelled now run).integrationHead
  | recover decide =>
    obtain ⟨⟨settled, recovered⟩, hrecover, rfl⟩ := map_ok_iff.mp happly
    obtain ⟨bound, hbound⟩ := exists_number_bound (activeAttempts run)
    obtain ⟨steps, attempts, -, ⟨-, rfl⟩ | ⟨-, hwrite⟩⟩ := recoverWorkflowRun_ok hbound hrecover
    · rfl
    · exact hwrite.integrationHead
  | relaunch stopped =>
    cases happly
    obtain ⟨bound, hbound⟩ := exists_attemptIds_bound run
    exact (@relaunchSteps_rewrites run now stopped bound hbound).integrationHead
  | retry =>
    obtain ⟨bound, hbound⟩ := exists_attemptIds_bound run
    obtain ⟨-, ⟨-, rfl⟩ | ⟨-, hwrite⟩⟩ := retrySteps_ok hbound happly
    · rfl
    · exact hwrite.integrationHead
  | admission request =>
    obtain ⟨-, authority, plan, -, -, -, -, -, -, -, -, -, -, hhead⟩ := admitSteps_ok happly
    exact hhead

/-! ## The phases of the engine -/

/-- Every execution under way belongs to an active step. -/
def ExecutesActive (run : WorkflowRunState) (active : List ActiveStep) : Prop :=
  ∀ entry ∈ active, entry.completion = .executing → entry.attempt.stepId ∈ activeStepIds run

theorem Carried.executesActive {active : List ActiveStep} (h : Carried run active) :
    ExecutesActive run active := by
  intro entry hentry hexecuting
  obtain ⟨stored, hstored, hsame, hrunning⟩ := h entry hentry
  have hstate : stored.state = .running := hrunning (by simp [hexecuting])
  exact mem_activeStepIds_iff.mpr ⟨stored, hstored, by rw [hstate]; rfl, hsame.stepId⟩

private theorem Unstarted.apply (h : Unstarted run stepId)
    (happly : transaction.apply now run = .ok next) (hkept : PlanKept run)
    (hunique : (activeStepIds run).Nodup) (hmark : ∀ attemptId, transaction = .markRunning attemptId →
      ∀ attempt ∈ run.attempts, attempt.id = attemptId → attempt.state.isActive = true)
    (hreserve : ∀ attempt, transaction = .reserve attempt → stepId ≠ attempt.stepId)
    (huntouched : ¬ transaction.touchesResult run stepId) : Unstarted next stepId := by
  refine ⟨?_, h.2.apply happly hkept hunique huntouched⟩
  intro hactive
  obtain ⟨later, hlater, hlive, hid⟩ := mem_activeStepIds_iff.mp hactive
  rcases Transaction.apply_active_attempt happly hmark hlater hlive with
    ⟨stored, hstored, hbefore, -, hsame⟩ | ⟨hreserved, -⟩
  · exact h.1 (mem_activeStepIds_iff.mpr ⟨stored, hstored, hbefore, hsame.stepId.symm.trans hid⟩)
  · exact hreserve later hreserved hid.symm

private theorem Queued.apply {queue : List String} (h : Queued run queue)
    (happly : transaction.apply now run = .ok next) (hkept : PlanKept run)
    (hunique : (activeStepIds run).Nodup) (hmark : ∀ attemptId, transaction = .markRunning attemptId →
      ∀ attempt ∈ run.attempts, attempt.id = attemptId → attempt.state.isActive = true)
    (hreserve : ∀ attempt, transaction = .reserve attempt → attempt.stepId ∉ queue)
    (huntouched : ∀ stepId ∈ queue, ¬ transaction.touchesResult run stepId) : Queued next queue := by
  refine ⟨h.1, ?_⟩
  intro stepId hstepId
  apply (h.2 stepId hstepId).apply happly hkept hunique hmark
  · rintro attempt hattempt rfl
    exact hreserve attempt hattempt hstepId
  · exact huntouched stepId hstepId

/-- A write that only settles executions under way, and moves no head, keeps the phase sound. -/
private theorem PhaseSound.write {active active' : List ActiveStep} {phase : Phase}
    (h : PhaseSound run active phase) (hsteps : StepsSound run)
    (hexecutes : ExecutesActive run active) (happly : transaction.apply now run = .ok next)
    (hkept : PlanKept run) (hunique : (activeStepIds run).Nodup)
    (hmark : ∀ attemptId, transaction = .markRunning attemptId →
      ∀ attempt ∈ run.attempts, attempt.id = attemptId → attempt.state.isActive = true)
    (hreserve : ∀ attempt, transaction ≠ .reserve attempt)
    (hintegrates : ∀ ticket commit, transaction ≠ .recordIntegration ticket commit)
    (htouches : ∀ stepId, transaction.touchesResult run stepId →
      ∃ entry ∈ active, entry.completion = .executing ∧ entry.attempt.stepId = stepId)
    (hactive : ∀ entry ∈ active', entry.completion = .executing → entry ∈ active) :
    PhaseSound next active' phase := by
  have hawaits : ∀ stepId, AwaitsMerge run stepId → AwaitsMerge next stepId := by
    intro stepId hstep
    apply hstep.apply happly hkept hunique
    intro htouched
    obtain ⟨entry, hentry, hexecuting, rfl⟩ := htouches stepId htouched
    exact hstep.not_unfinished (hsteps.unfinished _ (hexecutes entry hentry hexecuting))
  have hqueued : ∀ queue, Queued run queue → Queued next queue := by
    intro queue hqueue
    apply hqueue.apply happly hkept hunique hmark
    · exact fun attempt hattempt => absurd hattempt (hreserve attempt)
    · intro stepId hstepId htouched
      obtain ⟨entry, hentry, hexecuting, rfl⟩ := htouches stepId htouched
      exact (hqueue.2 _ hstepId).1 (hexecutes entry hentry hexecuting)
  have hhead := Transaction.apply_integrationHead happly hintegrates
  cases phase with
  | merging ticket commit => exact ⟨hawaits _ h.1, h.2.trans hhead.symm⟩
  | recordingIntegration ticket commit | failingIntegration ticket error | unrecorded stepId =>
    exact hawaits _ h
  | dispatching queue => exact hqueued queue h
  | preparing ticket queue => exact ⟨hqueued _ h.1, h.2.trans hhead.symm⟩
  | reserving attempt queue => exact ⟨hqueued _ h.1, h.2.trans hhead.symm⟩
  | marking attempt queue => exact ⟨hqueued _ h.1, h.2⟩
  | failingLaunch stepId message =>
    obtain ⟨hopen, hidle⟩ := h
    refine ⟨hopen.apply happly hkept hunique ?_, ?_⟩
    · intro htouched
      obtain ⟨entry, hentry, hexecuting, hid⟩ := htouches stepId htouched
      exact hidle entry hentry hexecuting hid
    · exact fun entry hentry hexecuting => hidle entry (hactive entry hentry hexecuting) hexecuting
  | _ => trivial

end Soundness

/-- The steps of a stored run are sound, and so is the phase of the engine on it. -/
structure Sound (world : World) : Prop where
  steps : StepsSound world.run
  phase : ∀ e, world.process = .engine e → PhaseSound world.run e.active e.phase

section Runs

variable {sha256Hex : String → String} {world later : World} {action : Action}
  {transaction : Transaction}

/-- A write of a sound world is one that keeps the steps sound. -/
theorem Sound.write {accepts : WorkflowRunState → Prop} (h : Sound world) (htracked : Tracked world)
    (hstep : Step accepts world (.write transaction) later) : WriteSound world.run transaction where
  settles := htracked.settles_active hstep
  marks := htracked.marks_active hstep
  reserves := by
    rintro attempt rfl
    cases hstep with
    | write hissues _ _ =>
      rw [(reserves_prepared hissues htracked.engine).2]
      rfl
  fails := by
    rintro id message rfl
    cases hstep with
    | write hissues _ _ =>
      cases hprocess : world.process with
      | engine e =>
        have hphase := h.phase e hprocess
        rw [hprocess] at hissues
        cases hissues with
        | failLaunch hfailing =>
          rw [hfailing] at hphase
          exact Or.inr hphase.1
        | failUnrecorded hunrecorded =>
          rw [hunrecorded] at hphase
          exact Or.inl hphase
      | idle | recovering loaded | relaunching stopped | retrying =>
        rw [hprocess] at hissues
        cases hissues
  integrates := by
    rintro ticket commit rfl
    cases hstep with
    | write hissues _ _ =>
      cases hprocess : world.process with
      | engine e =>
        have hphase := h.phase e hprocess
        rw [hprocess] at hissues
        cases hissues with
        | recordIntegration hrecording =>
          rw [hrecording] at hphase
          exact hphase
      | idle | recovering loaded | relaunching stopped | retrying =>
        rw [hprocess] at hissues
        cases hissues
  abandons := by
    rintro ticket error rfl
    cases hstep with
    | write hissues _ _ =>
      cases hprocess : world.process with
      | engine e =>
        have hphase := h.phase e hprocess
        rw [hprocess] at hissues
        cases hissues with
        | recordIntegrationFailure hfailing =>
          rw [hfailing] at hphase
          exact hphase
      | idle | recovering loaded | relaunching stopped | retrying =>
        rw [hprocess] at hissues
        cases hissues

private theorem phaseSound_issues {run next : WorkflowRunState} {now : Timestamp}
    {e e' : EngineProcess} (h : PhaseSound run e.active e.phase) (hsteps : StepsSound run)
    (hwrite : WriteSound run transaction)
    (hissues : Issues now run next (.engine e) transaction (.engine e'))
    (happly : transaction.apply now run = .ok next) (hkept : PlanKept run)
    (hexecutes : ExecutesActive run e.active) (hunique : (activeStepIds run).Nodup) :
    PhaseSound next e'.active e'.phase := by
  generalize hprocess : Process.engine e' = process at hissues
  cases hissues with
  | @reserved _ attempt queue hphase hlaunch =>
    cases hprocess
    rw [hphase] at h
    obtain ⟨⟨hnodup, hqueue⟩, -⟩ := h
    rw [List.nodup_cons] at hnodup
    refine ⟨?_, hnodup.1⟩
    apply Queued.apply ⟨hnodup.2, fun id hid => hqueue id (List.mem_cons_of_mem _ hid)⟩ happly hkept
      hunique (by simp)
    · intro other hother
      cases hother
      exact hnodup.1
    · exact fun _ _ => id
  | @markRunning _ attempt queue hphase =>
    cases hprocess
    rw [hphase] at h
    exact h.1.apply happly hkept hunique hwrite.marks (by simp) fun _ _ => id
  | recordWorker _ | admission =>
    cases hprocess
    exact h.write hsteps hexecutes happly hkept hunique (by simp) (by simp) (by simp)
      (fun _ hno => hno.elim) fun _ hentry _ => hentry
  | @settleStep _ pre post attempt executed routing hactive =>
    cases hprocess
    apply h.write hsteps hexecutes happly hkept hunique (by simp) (by simp) (by simp)
    · intro stepId htouched
      refine ⟨⟨attempt, .executing⟩, ?_, rfl, ?_⟩
      · rw [hactive]
        exact List.mem_append_right _ (List.mem_cons_self ..)
      · exact Eq.symm htouched
    · intro entry hentry hexecuting
      rw [hactive]
      rcases List.mem_append.mp hentry with hpre | hrest
      · exact List.mem_append_left _ hpre
      · rcases List.mem_cons.mp hrest with rfl | hpost
        · cases hexecuting
        · exact List.mem_append_right _ (List.mem_cons_of_mem _ hpost)
  | notReserved _ _ | failLaunch _ | failUnrecorded _ | recordIntegration _
  | recordIntegrationFailure _ =>
    cases hprocess
    trivial
  | settleRun _ => cases hprocess

private theorem phaseSound_refuses {run : WorkflowRunState} {e e' : EngineProcess}
    (h : PhaseSound run e.active e.phase) (hsteps : StepsSound run)
    (htracked : EngineTracked run e) (hunique : (activeStepIds run).Nodup)
    (hrefuses : Refuses (.engine e) transaction (.engine e')) :
    PhaseSound run e'.active e'.phase := by
  have hexecutes := htracked.carried.executesActive
  generalize hprocess : Process.engine e' = process at hrefuses
  cases hrefuses with
  | @reserve _ attempt queue message hphase =>
    cases hprocess
    rw [hphase] at h
    obtain ⟨hidle, hopen⟩ := h.1.2 _ (List.mem_cons_self ..)
    refine ⟨hopen, ?_⟩
    intro entry hentry hexecuting hid
    exact hidle (hid ▸ hexecutes entry hentry hexecuting)
  | @markRunning _ attempt queue message hphase =>
    cases hprocess
    have hstored := htracked.phase
    rw [hphase] at hstored
    obtain ⟨-, stored, hstored, hsame, hprepared⟩ := hstored
    have hlive : stored.state.isActive = true := by
      rw [hprepared]
      rfl
    refine ⟨hsteps.unfinished _ (mem_activeStepIds_iff.mpr ⟨stored, hstored, hlive, hsame.stepId⟩), ?_⟩
    intro entry hentry hexecuting hid
    obtain ⟨other, hother, hsameOther, hrunning⟩ := htracked.carried entry hentry
    have hstate : other.state = .running := hrunning (by simp [hexecuting])
    have heq : other = stored := by
      apply active_unique hunique hother hstored (by rw [hstate]; rfl) hlive
      rw [hsameOther.stepId, hsame.stepId, hid]
    rw [heq, hprepared] at hstate
    cases hstate
  | recordWorker _ | admission =>
    cases hprocess
    exact h
  | @settleStep _ pre post attempt executed routing hactive =>
    cases hprocess
    dsimp only
    cases hphase : e.phase with
    | failingLaunch stepId message =>
      rw [hphase] at h
      refine ⟨h.1, ?_⟩
      intro entry hentry hexecuting
      apply h.2 entry _ hexecuting
      rw [hactive]
      rcases List.mem_append.mp hentry with hpre | hrest
      · exact List.mem_append_left _ hpre
      · rcases List.mem_cons.mp hrest with rfl | hpost
        · cases hexecuting
        · exact List.mem_append_right _ (List.mem_cons_of_mem _ hpost)
    | _ =>
      rw [hphase] at h
      exact h
  | recordIntegration hphase =>
    cases hprocess
    rw [hphase] at h
    exact h
  | failLaunch _ | failUnrecorded _ | recordIntegrationFailure _ | settleRun _ =>
    cases hprocess
    trivial

private theorem phaseSound_moves {head : String} {branch branch' : List BranchCommit}
    {e e' : EngineProcess} (h : PhaseSound world.run e.active e.phase)
    (hconsistent : Consistent sha256Hex world) (htracked : EngineTracked world.run e)
    (hmove : Moves world.run head branch e branch' e') : PhaseSound world.run e'.active e'.phase := by
  have hexecutes := htracked.carried.executesActive
  have hawaits : ∀ stepId, nextIntegrableStepId world.run = some stepId →
      AwaitsMerge world.run stepId := by
    intro stepId hnext
    obtain ⟨pre, post, record, -, -, hrecord, ⟨hrequires, hpresent⟩, hsucceeded⟩ :=
      nextIntegrableStepId_some hnext
    refine ⟨record, hrecord, hsucceeded, hrequires, ?_⟩
    have hne := (hconsistent.record hrecord).commit_ne
    cases hcommit : record.integratedCommit with
    | none => rfl
    | some commit =>
      rw [hcommit] at hpresent hne
      simp [present, Option.filter] at hpresent hne
      exact absurd hpresent hne
  cases hmove with
  | load _ =>
    rcases loadPending_cases world.run with ⟨hphase, -⟩ | ⟨stepId, -, hnext, ⟨hphase, -⟩ |
      ⟨attempt, -, ⟨commit, -, hphase⟩ | ⟨-, hphase⟩⟩⟩
    · rw [hphase]
      trivial
    · rw [hphase]
      exact hawaits stepId hnext
    · rw [hphase]
      exact ⟨hawaits stepId hnext, rfl⟩
    · rw [hphase]
      exact hawaits stepId hnext
  | merged hphase _ _ _ _ | mergeFailed hphase =>
    rw [hphase] at h
    exact h.1
  | dispatch _ =>
    rcases dispatchPhase_cases e.aborted _ world.run with hphase | ⟨hphase, -⟩
    · rw [hphase]
      constructor
      · by_cases hrunning : world.run.state = .running
        · exact (launchableStepIds_selects hconsistent.reconciled hrunning).sublist.nodup
            hconsistent.kept.nodup_order
        · rw [launchableStepIds_of_not_running hrunning]
          exact List.nodup_nil
      · intro stepId hstepId
        obtain ⟨-, hidle, -, record, hrecord, hwaiting, -⟩ := launchable_facts hstepId
        refine ⟨hidle, record, hrecord, ?_⟩
        intro hsucceeded
        rw [hsucceeded] at hwaiting
        cases hwaiting
    · rw [hphase]
      trivial
  | @launch stepId queue hphase =>
    rw [hphase] at h
    rcases launchPhase_cases world.run stepId queue with ⟨ticket, hticket, hlaunch⟩ | hlaunch
    · rw [hlaunch]
      unfold launchTicket at hticket
      rw [bind_ok_iff] at hticket
      obtain ⟨record, -, hticket⟩ := hticket
      cases hticket
      exact ⟨h, rfl⟩
    · rw [hlaunch]
      trivial
  | prepared workspace hphase _ _ =>
    rw [hphase] at h
    exact h
  | prepareFailed hphase =>
    rw [hphase] at h
    obtain ⟨hidle, hopen⟩ := h.1.2 _ (List.mem_cons_self ..)
    refine ⟨hopen, ?_⟩
    intro entry hentry hexecuting hid
    exact hidle (hid ▸ hexecutes entry hentry hexecuting)
  | abort => exact h
  | _ => trivial

/-- Every step keeps a sound world sound. -/
theorem Sound.step {accepts : WorkflowRunState → Prop} (h : Sound world)
    (hconsistent : Consistent sha256Hex world) (hstep : Step accepts world action later) :
    Sound later := by
  have hunique := hconsistent.exclusive.single
  constructor
  · rcases Step.run_cases hstep with hrun | ⟨transaction, now, rfl, happly⟩
    · rw [hrun]
      exact h.steps
    · exact h.steps.apply (h.write hconsistent.tracked hstep) happly hconsistent.kept
        hconsistent.reconciled hconsistent.tracked.table hunique
  · apply hstep.engine_rule (P := fun run e => PhaseSound run e.active e.phase) h.phase
    · trivial
    · rintro transaction now e e' hprocess hissues happly rfl
      have hengine := hconsistent.tracked.engine e hprocess
      exact phaseSound_issues (h.phase e hprocess) h.steps (h.write hconsistent.tracked hstep)
        hissues happly hconsistent.kept hengine.carried.executesActive hunique
    · intro transaction now e hprocess hcancels happly
      have hengine := hconsistent.tracked.engine e hprocess
      have htouches : ∀ stepId, ¬ transaction.touchesResult world.run stepId := by
        intro stepId htouched
        cases transaction <;> first | exact hcancels | exact htouched
      apply (h.phase e hprocess).write h.steps hengine.carried.executesActive happly
        hconsistent.kept hunique
      · rintro attemptId rfl
        cases hcancels
      · rintro attempt rfl
        cases hcancels
      · rintro ticket commit rfl
        cases hcancels
      · exact fun stepId htouched => absurd htouched (htouches stepId)
      · exact fun entry hentry _ => hentry
    · intro transaction e e' hprocess hrefuses
      exact phaseSound_refuses (h.phase e hprocess) h.steps (hconsistent.tracked.engine e hprocess)
        hunique hrefuses
    · intro e e' branch' hprocess hmove
      exact phaseSound_moves (h.phase e hprocess) hconsistent
        (hconsistent.tracked.engine e hprocess) hmove

/-- Every reachable world is sound. -/
theorem sound_reachable (h : (storedEngine sha256Hex).Reachable world) : Sound world := by
  apply h.invariant
  · intro s hstarts
    obtain ⟨input, -, hcreate⟩ := hstarts.input
    have hcreated := createWorkflowRunState_ok hcreate
    have hkept := planKept_of_starts hstarts
    have hnone : ∀ stepId, attemptsOf s.run stepId = [] := by
      intro stepId
      rw [attemptsOf, hcreated.attempts]
      rfl
    refine ⟨⟨?_, ?_, ?_⟩, ?_⟩
    · intro stepId hactive
      obtain ⟨attempt, hattempt, -⟩ := mem_activeStepIds_iff.mp hactive
      rw [hcreated.attempts] at hattempt
      cases hattempt
    · intro stepId record hrecord hsucceeded
      rw [hcreated.initial hkept hrecord] at hsucceeded
      unfold initialStepRecord at hsucceeded
      dsimp only at hsucceeded
      split at hsucceeded <;> cases hsucceeded
    · exact fun stepId record _ hattempts => absurd (hnone stepId) hattempts
    · intro e hengine
      rw [hstarts.process] at hengine
      cases hengine
      trivial
  · intro s a t hreach hsound hstep
    exact hsound.step (consistent_reachable hreach) hstep

end Runs

end BuildConductor.Lifecycle
