import BuildConductor.Lifecycle.MutualExclusion
import BuildConductor.Lifecycle.Agreement
import BuildConductor.Lifecycle.Records

/-!
# Numbering of attempts

The attempts of a step are numbered from one in the order the step lists them, and only the
newest may be active: a launch takes its number from the attempts recorded when it starts, and
nothing else adds one before it is reserved. Supports `src/src/engine/engine.ts:252-321`.
-/

namespace BuildConductor.Lifecycle

open Base Domain Security Engine Workflows Storage

/-- Each step lists its attempts, numbered from one, and an active attempt is the newest. -/
structure Numbered (run : WorkflowRunState) : Prop where
  ids : ∀ stepId record, run.steps.get? stepId = some record →
    record.attemptIds = (attemptsOf run stepId).map (·.id)
  numbers : ∀ stepId, (attemptsOf run stepId).map (·.number) =
    List.range' 1 (attemptsOf run stepId).length
  newest : ∀ attempt ∈ run.attempts, attempt.state.isActive = true →
    attempt.number = (attemptsOf run attempt.stepId).length

/-- A launch under way numbers the next attempt of its step. -/
def PhaseNumbered (run : WorkflowRunState) : Phase → Prop
  | .preparing ticket _ => ∃ record, run.steps.get? ticket.stepId = some record ∧
      ticket.attemptNumber = record.attemptIds.length + 1
  | .reserving attempt _ => ∃ record, run.steps.get? attempt.stepId = some record ∧
      attempt.number = record.attemptIds.length + 1
  | _ => True

section Write

variable {run next : WorkflowRunState} {now : Timestamp} {transaction : Transaction}
  {stepId : String} {record settled : WorkflowStepRecord}

/-- A write lists no attempt but the one it reserves. -/
theorem Transaction.updates_attemptIds (h : transaction.updates now run stepId record settled) :
    settled.attemptIds = record.attemptIds ∨
      ∃ attempt, transaction = .reserve attempt ∧ stepId = attempt.stepId ∧
        stepId ∈ launchableStepIds run ∧ settled = reservedRecord record attempt.id := by
  cases transaction with
  | reserve attempt =>
    rw [updates] at h
    split at h
    · next hlaunch => exact Or.inr ⟨attempt, rfl, hlaunch.1, hlaunch.2, h⟩
    · rw [h]
      exact Or.inl rfl
  | settleStep id attempt executed routing =>
    rw [updates] at h
    left
    rw [h]
    split
    · unfold settledRecord
      split
      · rfl
      · split <;> rfl
      · rfl
    · rfl
  | failStep id message | recordIntegration ticket commit | recordIntegrationFailure ticket error
  | settleRun cancelled | relaunch stopped | retry =>
    rw [updates] at h
    left
    rw [h]
    split <;> rfl
  | recover decide =>
    left
    rcases h with ⟨attempt, -, -, settleAttempt, settleRecord, outcome, hsettles, rfl⟩ | ⟨-, rfl⟩
    · cases hsettles <;> rfl
    · split <;> rfl
  | requestCancellation reason | markRunning attemptId | recordWorker attemptId workerId
  | admission request =>
    rw [updates] at h
    rw [h]
    exact Or.inl rfl

private theorem Transaction.apply_attemptIds_of (happly : transaction.apply now run = .ok next)
    (hkept : PlanKept run) (hunique : (activeStepIds run).Nodup)
    (hreserve : ∀ attempt, transaction ≠ .reserve attempt)
    (hrecord : run.steps.get? stepId = some record) :
    ∃ later, next.steps.get? stepId = some later ∧ later.attemptIds = record.attemptIds := by
  obtain ⟨settled, later, hupdates, hreconciles, hlater⟩ :=
    Transaction.apply_updates happly hkept hunique hrecord
  refine ⟨later, hlater, ?_⟩
  rw [hreconciles.1]
  rcases Transaction.updates_attemptIds hupdates with hsame | ⟨attempt, hno, -⟩
  · exact hsame
  · exact absurd hno (hreserve attempt)

/-- The attempts of each step after a write: the ones before, changed one by one, and the one it
reserves. -/
theorem Transaction.apply_attemptsOf (happly : transaction.apply now run = .ok next) :
    (∃ attempt, transaction = .reserve attempt ∧ attempt.stepId ∈ launchableStepIds run ∧
        ∀ stepId, attemptsOf next stepId =
          attemptsOf run stepId ++ if attempt.stepId = stepId then [attempt] else []) ∨
      (∀ attempt, transaction = .reserve attempt → attempt.stepId ∉ launchableStepIds run) ∧
        ∃ f, (∀ x, SameAttempt x (f x)) ∧
          ∀ stepId, attemptsOf next stepId = (attemptsOf run stepId).map f := by
  rcases Transaction.apply_attempts happly with ⟨attempt, htransaction, hlaunch, hattempts⟩ |
    ⟨f, hattempts, hf⟩
  · left
    refine ⟨attempt, htransaction, hlaunch, ?_⟩
    intro stepId
    rw [attemptsOf, hattempts, List.filter_append, List.filter_singleton]
    by_cases hid : attempt.stepId = stepId
    · rw [if_pos hid, decide_eq_true hid, cond_true]
      rfl
    · rw [if_neg hid, decide_eq_false hid, cond_false]
      rfl
  · right
    refine ⟨?_, f, fun x => (hf x).same, ?_⟩
    · rintro attempt rfl hlaunch
      rcases reserveAttempt_ok happly with ⟨hnot, -⟩ | ⟨-, found, -, hwrite⟩
      · exact hnot hlaunch
      · have hlength := congrArg List.length (hwrite.attempts.symm.trans hattempts)
        rw [List.length_append, List.length_map, List.length_singleton] at hlength
        omega
    intro stepId
    rw [attemptsOf, hattempts, List.filter_map, attemptsOf]
    congr 1
    apply List.filter_congr
    intro x _
    rw [Function.comp_apply, (hf x).same.stepId]

private theorem map_same {f : WorkflowStepAttempt → WorkflowStepAttempt}
    (hf : ∀ x, SameAttempt x (f x)) (attempts : List WorkflowStepAttempt) :
    (attempts.map f).map (·.id) = attempts.map (·.id) ∧
      (attempts.map f).map (·.number) = attempts.map (·.number) := by
  rw [List.map_map, List.map_map]
  constructor
  · apply List.map_congr_left
    intro x _
    exact (hf x).id
  · apply List.map_congr_left
    intro x _
    exact (hf x).number

/-- A write keeps the numbering when it reserves an attempt with the next number. -/
theorem Numbered.apply (h : Numbered run) (happly : transaction.apply now run = .ok next)
    (hkept : PlanKept run) (hunique : (activeStepIds run).Nodup)
    (hmark : ∀ attemptId, transaction = .markRunning attemptId →
      ∀ attempt ∈ run.attempts, attempt.id = attemptId → attempt.state.isActive = true)
    (hnumber : ∀ attempt, transaction = .reserve attempt → attempt.stepId ∈ launchableStepIds run →
      attempt.number = (attemptsOf run attempt.stepId).length + 1)
    (hfresh : ∀ stepId, run.steps.get? stepId = none → attemptsOf run stepId = []) :
    Numbered next := by
  have hsplit := Transaction.apply_attemptsOf happly
  constructor
  · intro stepId later hlater
    cases hbefore : run.steps.get? stepId with
    | none =>
      -- An admission adds the step, and it adds no attempt.
      rcases Transaction.apply_new_record happly hkept hlater with
        ⟨record, hrecord⟩ | ⟨⟨request, rfl⟩, hnew⟩
      · rw [hbefore] at hrecord
        cases hrecord
      · rcases hsplit with ⟨attempt, hno, -⟩ | ⟨-, f, -, hattempts⟩
        · cases hno
        · rw [hattempts, hfresh stepId hbefore, hnew.1]
          rfl
    | some record =>
      obtain ⟨settled, found, hupdates, hreconciles, hfound⟩ :=
        Transaction.apply_updates happly hkept hunique hbefore
      rw [hlater, Option.some.injEq] at hfound
      rw [hfound, hreconciles.1]
      dsimp only
      rcases hsplit with ⟨attempt, rfl, hlaunch, hattempts⟩ | ⟨hidle, f, hf, hattempts⟩
      · rw [Transaction.updates] at hupdates
        rw [hattempts, hupdates, List.map_append, ← h.ids stepId record hbefore]
        by_cases hid : stepId = attempt.stepId
        · rw [if_pos ⟨hid, by rw [hid]; exact hlaunch⟩, if_pos hid.symm]
          rfl
        · rw [if_neg (fun hboth => hid hboth.1), if_neg (Ne.symm hid), List.map_nil, List.append_nil]
      · rw [hattempts, (map_same hf _).1, ← h.ids stepId record hbefore]
        rcases Transaction.updates_attemptIds hupdates with hsame | ⟨attempt, rfl, hid, hlaunch, -⟩
        · exact hsame
        · rw [hid] at hlaunch
          exact absurd hlaunch (hidle attempt rfl)
  · intro stepId
    rcases hsplit with ⟨attempt, htransaction, hlaunch, hattempts⟩ | ⟨hidle, f, hf, hattempts⟩
    · rw [hattempts]
      by_cases hid : attempt.stepId = stepId
      · rw [if_pos hid, List.map_append, h.numbers, List.length_append, List.map_singleton,
          hnumber attempt htransaction hlaunch, hid, List.length_singleton, List.range'_concat]
        congr 2
        omega
      · rw [if_neg hid, List.append_nil]
        exact h.numbers stepId
    · rw [hattempts, (map_same hf _).2, List.length_map]
      exact h.numbers stepId
  · intro later hlater hactive
    rcases Transaction.apply_active_attempt happly hmark hlater hactive with
      ⟨stored, hstored, hlive, -, hsame⟩ | ⟨rfl, hlaunch⟩
    · have hnewest := h.newest stored hstored hlive
      rw [hsame.number, hsame.stepId]
      rcases hsplit with ⟨attempt, rfl, hlaunch, hattempts⟩ | ⟨hidle, f, hf, hattempts⟩
      · rw [hattempts, if_neg, List.append_nil]
        · exact hnewest
        · intro hid
          apply (launchable_facts hlaunch).2.1
          rw [hid]
          exact mem_activeStepIds_iff.mpr ⟨stored, hstored, hlive, rfl⟩
      · rw [hattempts, List.length_map]
        exact hnewest
    · rw [hnumber later rfl hlaunch]
      rcases hsplit with ⟨attempt, heq, -, hattempts⟩ | ⟨hidle, f, hf, hattempts⟩
      · cases heq
        rw [hattempts, if_pos rfl, List.length_append, List.length_singleton]
      · exact absurd hlaunch (hidle later rfl)

private theorem PhaseNumbered.write {phase : Phase} (h : PhaseNumbered run phase)
    (happly : transaction.apply now run = .ok next) (hkept : PlanKept run)
    (hunique : (activeStepIds run).Nodup) (hreserve : ∀ attempt, transaction ≠ .reserve attempt) :
    PhaseNumbered next phase := by
  cases phase with
  | preparing ticket queue =>
    obtain ⟨record, hrecord, hnumber⟩ := h
    obtain ⟨later, hlater, hids⟩ :=
      Transaction.apply_attemptIds_of happly hkept hunique hreserve hrecord
    exact ⟨later, hlater, by rw [hids]; exact hnumber⟩
  | reserving attempt queue =>
    obtain ⟨record, hrecord, hnumber⟩ := h
    obtain ⟨later, hlater, hids⟩ :=
      Transaction.apply_attemptIds_of happly hkept hunique hreserve hrecord
    exact ⟨later, hlater, by rw [hids]; exact hnumber⟩
  | _ => trivial

private theorem phaseNumbered_issues {process process' : Process}
    (hissues : Issues now run next process transaction process')
    (happly : transaction.apply now run = .ok next) (hkept : PlanKept run)
    (hunique : (activeStepIds run).Nodup)
    (h : ∀ e, process = .engine e → PhaseNumbered run e.phase) {e' : EngineProcess}
    (hengine : process' = .engine e') : PhaseNumbered next e'.phase := by
  cases hissues with
  | recordWorker _ | admission =>
    cases hengine
    exact PhaseNumbered.write (h _ rfl) happly hkept hunique (by simp)
  | @settleStep e _ _ _ _ _ _ =>
    cases hengine
    have hphase := h e rfl
    exact hphase.write happly hkept hunique (by simp)
  | recover _ =>
    unfold afterRecovery at hengine
    split at hengine
    · cases hengine
    · split at hengine
      · cases hengine
        trivial
      · cases hengine
  | retry =>
    split at hengine
    · cases hengine
    · cases hengine
      trivial
  | settleRun _ => cases hengine
  | _ =>
    cases hengine
    trivial

private theorem PhaseNumbered.moves {e e' : EngineProcess} {head : String}
    {branch branch' : List BranchCommit} (h : PhaseNumbered run e.phase)
    (hmove : Moves run head branch e branch' e') : PhaseNumbered run e'.phase := by
  cases hmove with
  | load _ =>
    rcases loadPending_cases run with ⟨hphase, -⟩ | ⟨stepId, -, -, ⟨hphase, -⟩ |
      ⟨attempt, -, ⟨commit, -, hphase⟩ | ⟨-, hphase⟩⟩⟩ <;> rw [hphase] <;> trivial
  | dispatch _ =>
    rcases dispatchPhase_cases e.aborted _ run with hphase | ⟨hphase, -⟩ <;> rw [hphase] <;> trivial
  | @launch stepId queue _ =>
    rcases launchPhase_cases run stepId queue with ⟨ticket, hticket, hphase⟩ | hphase
    · rw [hphase]
      unfold launchTicket at hticket
      rw [bind_ok_iff] at hticket
      obtain ⟨record, hrecord, hticket⟩ := hticket
      cases hticket
      exact ⟨record, require_ok_iff.mp hrecord, rfl⟩
    · rw [hphase]
      trivial
  | @prepared ticket queue attemptId now workspace hphase _ _ =>
    rw [hphase] at h
    exact h
  | wake _ _ => trivial
  | abort => exact h
  | _ => trivial

end Write

/-! ## Whole runs -/

/-- The attempts of a world are numbered, and so is the launch under way. -/
structure NumberedWorld (world : World) : Prop where
  run : Numbered world.run
  phase : ∀ e, world.process = .engine e → PhaseNumbered world.run e.phase

section Runs

variable {accepts : WorkflowRunState → Prop} {world later : World} {action : Action}

/-- A settlement comes from an execution whose attempt is stored as running. -/
theorem Tracked.settles_running {stepId : String} {attempt : WorkflowStepAttempt}
    {executed : StepExecutionResult} {routing : Except RoutingFailure (List ArtifactSummary)}
    (h : Tracked world)
    (hstep : Step accepts world (.write (.settleStep stepId attempt executed routing)) later) :
    attempt.stepId = stepId ∧
      ∃ stored ∈ world.run.attempts, SameAttempt attempt stored ∧ stored.state = .running := by
  cases hstep with
  | @write _ next process' now hissues _ _ =>
    cases hprocess : world.process with
    | engine e =>
      rw [hprocess] at hissues
      cases hissues with
      | @settleStep _ pre post _ _ _ hactive =>
        obtain ⟨stored, hstored, hsame, hrunning⟩ := (h.engine e hprocess).carried
          ⟨attempt, .executing⟩ (by rw [hactive]; exact List.mem_append_right _ (List.mem_cons_self ..))
        exact ⟨rfl, stored, hstored, hsame, hrunning (by simp)⟩
    | idle | recovering loaded | relaunching stopped | retrying =>
      rw [hprocess] at hissues
      cases hissues

/-- A settlement is of an active attempt. -/
theorem Tracked.settles_active {transaction : Transaction} (h : Tracked world)
    (hstep : Step accepts world (.write transaction) later) (stepId : String)
    (attempt : WorkflowStepAttempt) (executed : StepExecutionResult)
    (routing : Except RoutingFailure (List ArtifactSummary))
    (hsettle : transaction = .settleStep stepId attempt executed routing) :
    attempt.stepId = stepId ∧ ∃ stored ∈ world.run.attempts,
      SameAttempt attempt stored ∧ stored.state.isActive = true := by
  rw [hsettle] at hstep
  obtain ⟨hid, stored, hstored, hsame, hrunning⟩ := h.settles_running hstep
  exact ⟨hid, stored, hstored, hsame, by rw [hrunning]; rfl⟩

/-- Only an active attempt is marked running. -/
theorem Tracked.marks_active {transaction : Transaction} (h : Tracked world)
    (hstep : Step accepts world (.write transaction) later) (attemptId : String)
    (hmark : transaction = .markRunning attemptId) :
    ∀ attempt ∈ world.run.attempts, attempt.id = attemptId → attempt.state.isActive = true := by
  intro attempt hattempt hid
  rw [hmark] at hstep
  rw [h.marks_prepared hstep attempt hattempt hid]
  rfl

private theorem NumberedWorld.step (h : NumberedWorld world) (hkept : PlanKept world.run)
    (htracked : Tracked world) (hunique : (activeStepIds world.run).Nodup)
    (hstep : Step accepts world action later) : NumberedWorld later := by
  have hfresh : ∀ stepId, world.run.steps.get? stepId = none → attemptsOf world.run stepId = [] := by
    intro stepId hnone
    rw [attemptsOf, List.filter_eq_nil_iff]
    intro attempt hattempt hid
    obtain ⟨record, hrecord⟩ := htracked.table.recorded attempt hattempt
    rw [of_decide_eq_true hid, hnone] at hrecord
    cases hrecord
  have hcanceller : ∀ (transaction : Transaction) now next, transaction.apply now world.run = .ok next →
      (∀ attemptId, transaction ≠ .markRunning attemptId) →
      (∀ attempt, transaction ≠ .reserve attempt) → Numbered next ∧
        ∀ e, world.process = .engine e → PhaseNumbered next e.phase := by
    intro transaction now next happly hmark hreserve
    constructor
    · apply h.run.apply happly hkept hunique _ _ hfresh
      · exact fun attemptId heq => absurd heq (hmark attemptId)
      · exact fun attempt heq => absurd heq (hreserve attempt)
    · intro e hengine
      exact (h.phase e hengine).write happly hkept hunique hreserve
  cases hstep with
  | @write transaction next process now hissues happly haccepted =>
    constructor
    · apply h.run.apply happly hkept hunique _ _ hfresh
      · rintro attemptId rfl attempt hattempt hid
        rw [htracked.marks_prepared (Step.write hissues happly haccepted) attempt hattempt hid]
        rfl
      · rintro attempt rfl hlaunch
        cases hprocess : world.process with
        | engine e =>
          rw [hprocess] at hissues
          cases hissues with
          | @reserved _ _ queue hphase _ =>
            have hnumbered := h.phase e hprocess
            rw [hphase] at hnumbered
            obtain ⟨record, hrecord, hnumber⟩ := hnumbered
            rw [hnumber, h.run.ids attempt.stepId record hrecord, List.length_map]
          | notReserved _ hnot => exact absurd hlaunch hnot
        | idle | recovering loaded | relaunching stopped | retrying =>
          rw [hprocess] at hissues
          cases hissues
    · intro e' hengine
      exact phaseNumbered_issues hissues happly hkept hunique h.phase hengine
  | @requestCancellation reason next now happly _ =>
    obtain ⟨hrun, hphase⟩ := hcanceller _ now next happly (by simp) (by simp)
    exact ⟨hrun, hphase⟩
  | @settleCancelled next now _ happly _ =>
    obtain ⟨hrun, hphase⟩ := hcanceller _ now next happly (by simp) (by simp)
    exact ⟨hrun, hphase⟩
  | @refuse transaction process hrefuses =>
    refine ⟨h.run, ?_⟩
    intro e' hengine
    dsimp only at hengine
    cases hprocess : world.process with
    | engine e =>
      rw [hprocess] at hrefuses
      have hphase := h.phase e hprocess
      cases hrefuses <;> cases hengine <;> first | exact hphase | trivial
    | idle | recovering loaded | relaunching stopped | retrying =>
      rw [hprocess] at hrefuses
      cases hrefuses <;> cases hengine
  | @move e branch e' hprocess hmoves =>
    refine ⟨h.run, ?_⟩
    intro other hengine
    cases hengine
    exact (h.phase e hprocess).moves hmoves
  | dropCanceller _ => exact ⟨h.run, h.phase⟩
  | resume _ | assessRetry _ _ _ | crash _ | stop _ _ _ =>
    refine ⟨h.run, ?_⟩
    intro e hengine
    cases hengine

/-- The attempts of every reachable run are numbered. -/
theorem numbered_reachable (h : (engineSystem PlanValidated accepts).Reachable world) :
    Numbered world.run := by
  have hworld : NumberedWorld world := by
    apply h.invariant
    · intro s hstarts
      obtain ⟨input, -, hcreate⟩ := hstarts.input
      have hcreated := createWorkflowRunState_ok hcreate
      have hnone : ∀ stepId, attemptsOf s.run stepId = [] := by
        intro stepId
        rw [attemptsOf, hcreated.attempts]
        rfl
      refine ⟨⟨?_, ?_, ?_⟩, ?_⟩
      · intro stepId record hrecord
        rw [hcreated.initial (planKept_of_starts hstarts) hrecord, hnone]
        rfl
      · intro stepId
        rw [hnone]
        rfl
      · intro attempt hattempt
        rw [hcreated.attempts] at hattempt
        cases hattempt
      · intro e hengine
        rw [hstarts.process] at hengine
        cases hengine
        trivial
    · intro s a t hreach hnumbered hstep
      exact hnumbered.step (planKept_reachable hreach) (tracked_reachable hreach)
        (exclusive_reachable hreach).single hstep
  exact hworld.run

end Runs

end BuildConductor.Lifecycle
