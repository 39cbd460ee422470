import BuildConductor.Lifecycle.Attempts

/-!
# What the engine process holds

The attempt table of a reachable run lists every attempt once, and an engine process carries
exactly stored attempts: each execution under way belongs to an attempt stored as running, and
the attempt of a launch is stored as prepared from its reservation on. Supports
`src/src/engine/engine.ts:252-362,409-537`.
-/

namespace BuildConductor.Lifecycle

open Base Domain Security Engine Workflows Storage

/-- A step leaves the stored run as it is or writes one transaction. -/
theorem Step.run_cases {accepts : WorkflowRunState → Prop} {world later : World} {action : Action}
    (h : Step accepts world action later) :
    later.run = world.run ∨ ∃ transaction now, action = .write transaction ∧
      transaction.apply now world.run = .ok later.run := by
  cases h with
  | write _ happly _ => exact Or.inr ⟨_, _, rfl, happly⟩
  | requestCancellation happly _ => exact Or.inr ⟨_, _, rfl, happly⟩
  | settleCancelled _ happly _ => exact Or.inr ⟨_, _, rfl, happly⟩
  | refuse _ => exact Or.inl rfl
  | move _ _ => exact Or.inl rfl
  | dropCanceller _ => exact Or.inl rfl
  | resume _ => exact Or.inl rfl
  | assessRetry _ _ _ => exact Or.inl rfl
  | crash _ => exact Or.inl rfl
  | stop _ _ _ => exact Or.inl rfl

/-- A write applies its transaction to the stored run. -/
theorem Step.write_applies {accepts : WorkflowRunState → Prop} {world later : World}
    {transaction : Transaction} (h : Step accepts world (.write transaction) later) :
    ∃ now, transaction.apply now world.run = .ok later.run := by
  cases h with
  | write _ happly _ | requestCancellation happly _ | settleCancelled _ happly _ =>
    exact ⟨_, happly⟩

/-- A created run holds the steps of the plan it was created from. -/
theorem planKept_of_starts {accepts : WorkflowRunState → Prop} {world : World}
    (h : Starts PlanValidated accepts world) : PlanKept world.run := by
  obtain ⟨input, ⟨document, hvalid⟩, hcreate⟩ := h.input
  exact PlanKept.of_create hcreate (validateWorkflowPlan_wellFormed hvalid)

/-- Every reachable run keeps its plan. -/
theorem planKept_reachable {accepts : WorkflowRunState → Prop} {world : World}
    (h : (engineSystem PlanValidated accepts).Reachable world) : PlanKept world.run := by
  apply h.invariant
  · exact fun _ => planKept_of_starts
  · intro s a t _ hkept hstep
    rcases Step.run_cases hstep with hrun | ⟨transaction, now, -, happly⟩
    · rw [hrun]
      exact hkept
    · exact Transaction.apply_planKept happly hkept

/-- A write leaves the plan, or grows it into one the validator accepts. -/
theorem Transaction.apply_plan {run next : WorkflowRunState} {now : Timestamp}
    {transaction : Transaction} (h : transaction.apply now run = .ok next) :
    next.plan = run.plan ∨ ∃ request, transaction = .admission request ∧
      grownPlan run request.steps = .ok next.plan := by
  by_cases hadmission : transaction.isAdmission = true
  · cases transaction with
    | admission request =>
      obtain ⟨-, authority, plan, -, hgrown, -, -, hplan, -⟩ := admitSteps_ok h
      exact Or.inr ⟨request, rfl, by rw [hplan]; exact hgrown⟩
    | _ => cases hadmission
  · exact Or.inl (apply_sameDefinitions h (Bool.eq_false_iff.mpr hadmission)).2.1

/-- The plan of every reachable run is one the validator reads as it is. -/
theorem planNormal_reachable {accepts : WorkflowRunState → Prop} {world : World}
    (h : (engineSystem PlanValidated accepts).Reachable world) :
    validateWorkflowPlan world.run.plan.toJson = .ok world.run.plan := by
  apply h.invariant
  · intro s hstarts
    obtain ⟨input, ⟨document, hvalid⟩, hcreate⟩ := hstarts.input
    rw [(createWorkflowRunState_ok hcreate).plan]
    exact validateWorkflowPlan_toJson hvalid
  · intro s a t _ hnormal hstep
    rcases Step.run_cases hstep with hrun | ⟨transaction, now, -, happly⟩
    · rw [hrun]
      exact hnormal
    · rcases Transaction.apply_plan happly with hplan | ⟨request, -, hgrown⟩
      · rw [hplan]
        exact hnormal
      · have hvalid : validateWorkflowPlan (grownDocument s.run.plan request.steps) = .ok t.run.plan := by
          rw [validateWorkflowPlan, (grownPlan_ok hgrown).1]
        exact validateWorkflowPlan_toJson hvalid

/-! ## Stored attempts -/

section Writes

variable {run next : WorkflowRunState} {now : Timestamp} {transaction : Transaction}

/-- A stored attempt stays stored. -/
theorem Transaction.apply_stored (h : transaction.apply now run = .ok next)
    {stored : WorkflowStepAttempt} (hstored : stored ∈ run.attempts) :
    ∃ later ∈ next.attempts, Evolves run transaction stored later := by
  rcases apply_attempts h with ⟨attempt, rfl, -, hattempts⟩ | ⟨f, hattempts, hf⟩
  · rw [hattempts]
    exact ⟨stored, List.mem_append_left _ hstored, SameAttempt.refl stored, False.elim,
      fun _ => Or.inl rfl⟩
  · rw [hattempts]
    exact ⟨f stored, List.mem_map_of_mem hstored, hf stored⟩

/-- An attempt stored after a write was stored before it, or was reserved by it. -/
theorem Transaction.apply_attempt (h : transaction.apply now run = .ok next)
    {later : WorkflowStepAttempt} (hlater : later ∈ next.attempts) :
    (∃ stored ∈ run.attempts, Evolves run transaction stored later) ∨
      transaction = .reserve later ∧ later.stepId ∈ launchableStepIds run := by
  rcases apply_attempts h with ⟨attempt, rfl, hlaunchable, hattempts⟩ | ⟨f, hattempts, hf⟩
  · rw [hattempts] at hlater
    rcases List.mem_append.mp hlater with hold | hnew
    · exact Or.inl ⟨later, hold, SameAttempt.refl later, False.elim, fun _ => Or.inl rfl⟩
    · rw [List.mem_singleton] at hnew
      rw [hnew]
      exact Or.inr ⟨rfl, hlaunchable⟩
  · rw [hattempts] at hlater
    obtain ⟨stored, hstored, rfl⟩ := List.mem_map.mp hlater
    exact Or.inl ⟨stored, hstored, hf stored⟩

/-- Only a reservation adds an attempt id. -/
theorem Transaction.apply_attemptIds (h : transaction.apply now run = .ok next) :
    next.attempts.map (·.id) = run.attempts.map (·.id) ∨
      ∃ attempt, transaction = .reserve attempt ∧ attempt.stepId ∈ launchableStepIds run ∧
        next.attempts = run.attempts ++ [attempt] := by
  rcases apply_attempts h with hreserved | ⟨f, hattempts, hf⟩
  · exact Or.inr hreserved
  · left
    rw [hattempts, List.map_map]
    apply List.map_congr_left
    intro x _
    exact (hf x).same.id

/-- No transaction changes the header of a run. -/
theorem Transaction.apply_header (h : transaction.apply now run = .ok next) :
    SameHeader run next := by
  by_cases hadmission : transaction.isAdmission = true
  · cases transaction with
    | admission request =>
      obtain ⟨-, authority, plan, -, -, -, hheader, -⟩ := admitSteps_ok h
      exact hheader
    | _ => cases hadmission
  · exact (apply_sameDefinitions h (Bool.eq_false_iff.mpr hadmission)).1

/-- A recorded step stays recorded, under its definition. -/
theorem Transaction.apply_record (h : transaction.apply now run = .ok next) (hkept : PlanKept run)
    {stepId : String} {record : WorkflowStepRecord} (hrecord : run.steps.get? stepId = some record) :
    ∃ later, next.steps.get? stepId = some later ∧ later.definition = record.definition := by
  by_cases hadmission : transaction.isAdmission = true
  · cases transaction with
    | admission request =>
      obtain ⟨-, authority, plan, -, hgrown, -, -, -, -, -, -, hsteps, -, -⟩ := admitSteps_ok h
      obtain ⟨hwell, hplan⟩ := grownPlan_steps hgrown
      rw [hsteps]
      have hadmitted := (get?_admittedSteps hkept hwell hplan).mpr (Or.inl hrecord)
      exact (sameDefinitions_of_states (reconciledSteps_sameButStates _ _)).right hadmitted
    | _ => cases hadmission
  · obtain ⟨-, -, hsame⟩ := apply_sameDefinitions h (Bool.eq_false_iff.mpr hadmission)
    exact hsame.right hrecord

end Writes

/-! ## The attempt table -/

/-- Attempt ids are unique and every attempt belongs to a recorded step. -/
structure AttemptTable (run : WorkflowRunState) : Prop where
  nodup : (run.attempts.map (·.id)).Nodup
  recorded : ∀ attempt ∈ run.attempts, ∃ record, run.steps.get? attempt.stepId = some record

/-- The executions of an engine belong to stored attempts, running until their settlement is
stored. -/
def Carried (run : WorkflowRunState) (active : List ActiveStep) : Prop :=
  ∀ entry ∈ active, ∃ stored ∈ run.attempts, SameAttempt entry.attempt stored ∧
    (entry.completion ≠ .resolved → stored.state = .running)

/-- The attempt of a launch is new until it is reserved, and stored as prepared until it is
marked. -/
def PhaseTracked (run : WorkflowRunState) (active : List ActiveStep) : Phase → Prop
  | .reserving attempt _ => attempt.id ∉ run.attempts.map (·.id) ∧ attempt.state = .prepared
  | .marking attempt _ => attempt.id ∉ active.map (·.attempt.id) ∧
      ∃ stored ∈ run.attempts, SameAttempt attempt stored ∧ stored.state = .prepared
  | _ => True

/-- What an engine process holds is stored. -/
structure EngineTracked (run : WorkflowRunState) (e : EngineProcess) : Prop where
  carried : Carried run e.active
  nodup : (e.active.map (·.attempt.id)).Nodup
  phase : PhaseTracked run e.active e.phase

/-- The tables of a world agree with the process that works on it. -/
structure Tracked (world : World) : Prop where
  table : AttemptTable world.run
  engine : ∀ e, world.process = .engine e → EngineTracked world.run e

theorem engineTracked_start (run : WorkflowRunState) : EngineTracked run .start where
  carried := by
    intro entry hentry
    cases hentry
  nodup := List.nodup_nil
  phase := trivial

section Tracking

variable {run next : WorkflowRunState} {now : Timestamp} {transaction : Transaction}
  {e : EngineProcess} {active : List ActiveStep}

private theorem AttemptTable.write (h : AttemptTable run) (hkept : PlanKept run)
    (happly : transaction.apply now run = .ok next)
    (hfresh : ∀ attempt, transaction = .reserve attempt → attempt.stepId ∈ launchableStepIds run →
      attempt.id ∉ run.attempts.map (·.id)) : AttemptTable next := by
  constructor
  · rcases Transaction.apply_attemptIds happly with hids | ⟨attempt, htransaction, hlaunchable, hattempts⟩
    · rw [hids]
      exact h.nodup
    · rw [hattempts, List.map_append, List.nodup_append]
      refine ⟨h.nodup, by simp, ?_⟩
      intro id hid other hother
      rw [List.map_singleton, List.mem_singleton] at hother
      rw [hother]
      rintro rfl
      exact hfresh attempt htransaction hlaunchable hid
  · intro later hlater
    rcases Transaction.apply_attempt happly hlater with ⟨stored, hstored, hevolves⟩ | ⟨-, hlaunchable⟩
    · obtain ⟨record, hrecord⟩ := h.recorded stored hstored
      obtain ⟨after, hafter, -⟩ := Transaction.apply_record happly hkept hrecord
      rw [hevolves.same.stepId]
      exact ⟨after, hafter⟩
    · obtain ⟨-, -, -, record, hrecord, -, -⟩ := launchable_facts hlaunchable
      obtain ⟨after, hafter, -⟩ := Transaction.apply_record happly hkept hrecord
      exact ⟨after, hafter⟩

private theorem Carried.ids (h : Carried run active) {id : String}
    (hid : id ∈ active.map (·.attempt.id)) : id ∈ run.attempts.map (·.id) := by
  obtain ⟨entry, hentry, rfl⟩ := List.mem_map.mp hid
  obtain ⟨stored, hstored, hsame, -⟩ := h entry hentry
  exact List.mem_map.mpr ⟨stored, hstored, hsame.id⟩

private theorem Carried.write (h : Carried run active)
    (happly : transaction.apply now run = .ok next)
    (hsettles : ∀ entry ∈ active, entry.completion ≠ .resolved →
      ¬ transaction.settlesAttempt run entry.attempt.id) : Carried next active := by
  intro entry hentry
  obtain ⟨stored, hstored, hsame, hrunning⟩ := h entry hentry
  obtain ⟨later, hlater, hevolves⟩ := Transaction.apply_stored happly hstored
  refine ⟨later, hlater, hsame.trans hevolves.same, ?_⟩
  intro hopen
  have hnot := hsettles entry hentry hopen
  rw [← hsame.id] at hnot
  rcases hevolves.kept hnot with hstate | ⟨-, hstate⟩
  · rw [hstate]
    exact hrunning hopen
  · exact hstate

private theorem phaseTracked_write {phase : Phase} (h : PhaseTracked run active phase)
    (happly : transaction.apply now run = .ok next)
    (hreserve : ∀ attempt, transaction ≠ .reserve attempt)
    (hmark : ∀ attemptId, transaction ≠ .markRunning attemptId)
    (hsettles : ∀ attemptId, attemptId ∉ active.map (·.attempt.id) →
      ¬ transaction.settlesAttempt run attemptId) :
    PhaseTracked next active phase := by
  cases phase with
  | reserving attempt queue =>
    obtain ⟨hfresh, hprepared⟩ := h
    refine ⟨?_, hprepared⟩
    rcases Transaction.apply_attemptIds happly with hids | ⟨other, hother, -⟩
    · rw [hids]
      exact hfresh
    · exact absurd hother (hreserve other)
  | marking attempt queue =>
    obtain ⟨hapart, stored, hstored, hsame, hprepared⟩ := h
    refine ⟨hapart, ?_⟩
    obtain ⟨later, hlater, hevolves⟩ := Transaction.apply_stored happly hstored
    refine ⟨later, hlater, hsame.trans hevolves.same, ?_⟩
    have hnot := hsettles attempt.id hapart
    rw [← hsame.id] at hnot
    rcases hevolves.kept hnot with hstate | ⟨hyes, -⟩
    · rw [hstate, hprepared]
    · exact absurd hyes (hmark _)
  | _ => trivial

/-- A write that reserves, marks and settles nothing of the engine keeps what it holds. -/
private theorem EngineTracked.other_write (h : EngineTracked run e)
    (happly : transaction.apply now run = .ok next)
    (hreserve : ∀ attempt, transaction ≠ .reserve attempt)
    (hmark : ∀ attemptId, transaction ≠ .markRunning attemptId)
    (hsettles : ∀ attemptId, ¬ transaction.settlesAttempt run attemptId) : EngineTracked next e where
  carried := h.carried.write happly fun entry _ _ => hsettles entry.attempt.id
  nodup := h.nodup
  phase := phaseTracked_write h.phase happly hreserve hmark fun attemptId _ => hsettles attemptId

private theorem EngineTracked.move_to (h : EngineTracked run e) {phase : Phase}
    (hphase : PhaseTracked run e.active phase) : EngineTracked run { e with phase } :=
  ⟨h.carried, h.nodup, hphase⟩

private theorem phaseTracked_loadPending (active : List ActiveStep) :
    PhaseTracked run active (loadPending run) := by
  unfold loadPending
  split
  · trivial
  · split
    · trivial
    · split
      · trivial
      · split <;> trivial

private theorem phaseTracked_dispatchPhase (aborted : Bool) (status : WorkflowRunLifecycleState) :
    PhaseTracked run active (dispatchPhase aborted status run) := by
  unfold dispatchPhase
  split <;> trivial

private theorem phaseTracked_launchPhase (stepId : String) (queue : List String) :
    PhaseTracked run active (launchPhase run stepId queue) := by
  unfold launchPhase
  split <;> trivial

/-- Reading, dispatching and calling git keep what the engine holds. -/
private theorem EngineTracked.moves (h : EngineTracked run e) {head : String}
    {branch branch' : List BranchCommit} {e' : EngineProcess}
    (hmove : Moves run head branch e branch' e') : EngineTracked run e' := by
  cases hmove with
  | load _ => exact h.move_to (phaseTracked_loadPending _)
  | merged _ _ _ _ _ => exact h.move_to trivial
  | mergeFailed _ => exact h.move_to trivial
  | reload _ => exact h.move_to trivial
  | dispatch _ => exact h.move_to (phaseTracked_dispatchPhase _ _)
  | launch _ => exact h.move_to (phaseTracked_launchPhase _ _)
  | dispatched _ => exact h.move_to trivial
  | prepared workspace _ _ hfresh => exact h.move_to ⟨hfresh, rfl⟩
  | prepareFailed _ => exact h.move_to trivial
  | settle _ _ => exact h.move_to trivial
  | wait _ _ => exact h.move_to trivial
  | wakeRejected _ _ => exact h.move_to trivial
  | abort => exact ⟨h.carried, h.nodup, h.phase⟩
  | @wake pre post attempt _ hactive =>
    have hcarried := h.carried
    have hnodup := h.nodup
    rw [hactive] at hcarried hnodup
    refine ⟨?_, ?_, trivial⟩
    · intro entry hentry
      apply hcarried entry
      rcases List.mem_append.mp hentry with hpre | hpost
      · exact List.mem_append_left _ hpre
      · exact List.mem_append_right _ (List.mem_cons_of_mem _ hpost)
    · rw [List.map_append, List.map_cons] at hnodup
      rw [List.map_append]
      exact hnodup.sublist (List.Sublist.append_left (List.sublist_cons_self _ _) _)

/-- An execution under way ends up settled or rejected. -/
private theorem EngineTracked.complete (h : EngineTracked run e) {pre post : List ActiveStep}
    {attempt : WorkflowStepAttempt} {completion : Completion}
    (hactive : e.active = pre ++ ⟨attempt, .executing⟩ :: post)
    (hcarried : Carried next (pre ++ ⟨attempt, completion⟩ :: post))
    (hphase : PhaseTracked next e.active e.phase) :
    EngineTracked next { e with active := pre ++ ⟨attempt, completion⟩ :: post } := by
  have hids : (pre ++ ⟨attempt, completion⟩ :: post).map (·.attempt.id) =
      e.active.map (·.attempt.id) := by
    rw [hactive, List.map_append, List.map_append, List.map_cons, List.map_cons]
  refine ⟨hcarried, ?_, ?_⟩
  · dsimp only
    rw [hids]
    exact h.nodup
  · revert hphase
    dsimp only
    cases e.phase with
    | marking other queue =>
      unfold PhaseTracked
      rw [hids]
      exact id
    | _ => exact id

/-- A refused write leaves the run, and the engine goes on with what it holds. -/
private theorem EngineTracked.refuses (h : EngineTracked run e) {process : Process}
    {e' : EngineProcess} (hrefuses : Refuses (.engine e) transaction process)
    (hengine : process = .engine e') : EngineTracked run e' := by
  cases hrefuses with
  | reserve _ | markRunning _ | failLaunch _ | failUnrecorded _ | recordIntegration _
  | recordIntegrationFailure _ | settleRun _ =>
    cases hengine
    exact h.move_to trivial
  | recordWorker _ | admission =>
    cases hengine
    exact h
  | @settleStep _ pre post attempt executed routing hactive =>
    cases hengine
    apply h.complete hactive _ h.phase
    have hcarried := h.carried
    rw [hactive] at hcarried
    intro entry hentry
    rcases List.mem_append.mp hentry with hpre | hrest
    · exact hcarried entry (List.mem_append_left _ hpre)
    · rcases List.mem_cons.mp hrest with rfl | hpost
      · obtain ⟨stored, hstored, hsame, hrunning⟩ :=
          hcarried ⟨attempt, .executing⟩ (List.mem_append_right _ (List.mem_cons_self ..))
        exact ⟨stored, hstored, hsame, fun _ => hrunning (by simp)⟩
      · exact hcarried entry (List.mem_append_right _ (List.mem_cons_of_mem _ hpost))

/-- An engine continues from a write with what that write stored. -/
private theorem engineTracked_issues {process process' : Process}
    (hissues : Issues now run next process transaction process')
    (happly : transaction.apply now run = .ok next)
    (h : ∀ e, process = .engine e → EngineTracked run e) {e' : EngineProcess}
    (hengine : process' = .engine e') : EngineTracked next e' := by
  cases hissues with
  | @reserved e attempt queue hphase hlaunchable =>
    cases hengine
    obtain ⟨hcarried, hnodup, htracked⟩ := h e rfl
    rw [hphase] at htracked
    obtain ⟨hfresh, hprepared⟩ := htracked
    refine ⟨hcarried.write happly fun _ _ _ => id, hnodup, ?_⟩
    refine ⟨fun hmem => hfresh (hcarried.ids hmem), attempt, ?_, SameAttempt.refl attempt, hprepared⟩
    rcases reserveAttempt_ok happly with ⟨hnot, -⟩ | ⟨-, record, -, hwrite⟩
    · exact absurd hlaunchable hnot
    · rw [hwrite.attempts]
      exact List.mem_append_right _ (List.mem_singleton_self attempt)
  | @notReserved e attempt queue hphase hnot =>
    cases hengine
    obtain ⟨hcarried, hnodup, -⟩ := h e rfl
    exact ⟨hcarried.write happly fun _ _ _ => id, hnodup, trivial⟩
  | @markRunning e attempt queue hphase =>
    cases hengine
    obtain ⟨hcarried, hnodup, htracked⟩ := h e rfl
    rw [hphase] at htracked
    obtain ⟨hapart, stored, hstored, hsame, -⟩ := htracked
    refine ⟨?_, ?_, trivial⟩
    · intro entry hentry
      rcases List.mem_append.mp hentry with hold | hnew
      · exact hcarried.write happly (fun _ _ _ => id) entry hold
      · rw [List.mem_singleton] at hnew
        rw [hnew]
        cases happly
        refine ⟨{ stored with state := .running },
          List.mem_map.mpr ⟨stored, hstored, by rw [if_pos hsame.id]⟩, ?_, fun _ => rfl⟩
        exact ⟨hsame.id, hsame.stepId, hsame.number, hsame.workspaceRequirement,
          hsame.workspacePath, hsame.branch, hsame.baseCommit, hsame.startedAt⟩
    · dsimp only
      rw [List.map_append, List.nodup_append]
      refine ⟨hnodup, by simp, ?_⟩
      intro id hid other hother
      rw [List.map_singleton, List.mem_singleton] at hother
      rw [hother]
      rintro rfl
      exact hapart hid
  | @settleStep e pre post attempt executed routing hactive =>
    cases hengine
    obtain ⟨hcarried, hnodup, htracked⟩ := h e rfl
    have hapart : ∀ entry ∈ pre ++ post, entry.attempt.id ≠ attempt.id := by
      rw [hactive, List.map_append, List.map_cons, List.nodup_middle, List.nodup_cons,
        ← List.map_append] at hnodup
      intro entry hentry hid
      exact hnodup.1 (List.mem_map.mpr ⟨entry, hentry, hid⟩)
    have hmem : attempt.id ∈ e.active.map (·.attempt.id) := by
      rw [hactive, List.map_append, List.map_cons]
      exact List.mem_append_right _ (List.mem_cons_self ..)
    apply (h e rfl).complete hactive
    · rw [hactive] at hcarried
      have hothers : Carried next (pre ++ post) := by
        apply Carried.write _ happly
        · exact fun entry hentry _ => hapart entry hentry
        · intro entry hentry
          apply hcarried entry
          rcases List.mem_append.mp hentry with hpre | hpost
          · exact List.mem_append_left _ hpre
          · exact List.mem_append_right _ (List.mem_cons_of_mem _ hpost)
      intro entry hentry
      rcases List.mem_append.mp hentry with hpre | hrest
      · exact hothers entry (List.mem_append_left _ hpre)
      · rcases List.mem_cons.mp hrest with rfl | hpost
        · obtain ⟨stored, hstored, hsame, -⟩ :=
            hcarried ⟨attempt, .executing⟩ (List.mem_append_right _ (List.mem_cons_self ..))
          obtain ⟨later, hlater, hevolves⟩ := Transaction.apply_stored happly hstored
          exact ⟨later, hlater, hsame.trans hevolves.same, fun hne => absurd rfl hne⟩
        · exact hothers entry (List.mem_append_right _ hpost)
    · apply phaseTracked_write htracked happly
      · simp
      · simp
      · intro attemptId hnot hid
        rw [Transaction.settlesAttempt] at hid
        rw [hid] at hnot
        exact hnot hmem
  | @recordWorker _ attempt workerId _ =>
    cases hengine
    exact (h e' rfl).other_write happly (by simp) (by simp) fun _ => id
  | admission =>
    exact (h e' hengine).other_write happly (by simp) (by simp) fun _ => id
  | @failLaunch e stepId message _ | @failUnrecorded e stepId _ | @recordIntegration e ticket commit _
  | @recordIntegrationFailure e ticket error _ =>
    cases hengine
    exact ((h e rfl).other_write happly (by simp) (by simp) fun _ => id).move_to trivial
  | settleRun _ => cases hengine
  | @recover loaded observations recovered _ =>
    unfold afterRecovery at hengine
    split at hengine
    · cases hengine
    · split at hengine
      · cases hengine
        exact engineTracked_start next
      · cases hengine
  | relaunch =>
    cases hengine
    exact engineTracked_start next
  | retry =>
    split at hengine
    · cases hengine
    · cases hengine
      exact engineTracked_start next

end Tracking

/-- Only a new prepared attempt is reserved. -/
theorem reserves_prepared {run next : WorkflowRunState} {now : Timestamp}
    {process process' : Process} {attempt : WorkflowStepAttempt}
    (hissues : Issues now run next process (.reserve attempt) process')
    (h : ∀ e, process = .engine e → EngineTracked run e) :
    attempt.id ∉ run.attempts.map (·.id) ∧ attempt.state = .prepared := by
  cases hissues with
  | @reserved e _ queue hphase _ =>
    have htracked := (h e rfl).phase
    rw [hphase] at htracked
    exact htracked
  | @notReserved e _ queue hphase _ =>
    have htracked := (h e rfl).phase
    rw [hphase] at htracked
    exact htracked

/-- Every step keeps the tables and the process in agreement. -/
theorem Tracked.step {accepts : WorkflowRunState → Prop} {world later : World} {action : Action}
    (h : Tracked world) (hkept : PlanKept world.run) (hstep : Step accepts world action later) :
    Tracked later := by
  cases hstep with
  | @write transaction next process now hissues happly _ =>
    constructor
    · apply h.table.write hkept happly
      rintro attempt rfl -
      exact (reserves_prepared hissues h.engine).1
    · intro e' hengine
      exact engineTracked_issues hissues happly h.engine hengine
  | @requestCancellation reason next now happly _ =>
    constructor
    · exact h.table.write hkept happly (by simp)
    · intro e hengine
      exact (h.engine e hengine).other_write happly (by simp) (by simp) fun _ => id
  | @settleCancelled next now _ happly _ =>
    constructor
    · exact h.table.write hkept happly (by simp)
    · intro e hengine
      exact (h.engine e hengine).other_write happly (by simp) (by simp) fun _ => id
  | @refuse transaction process hrefuses =>
    refine ⟨h.table, ?_⟩
    intro e' hengine
    dsimp only at hengine
    cases hprocess : world.process with
    | engine e =>
      rw [hprocess] at hrefuses
      exact (h.engine e hprocess).refuses hrefuses hengine
    | idle | recovering loaded | relaunching stopped | retrying =>
      rw [hprocess] at hrefuses
      cases hrefuses <;> cases hengine
  | @move e branch e' hprocess hmoves =>
    refine ⟨h.table, ?_⟩
    intro other hengine
    cases hengine
    exact (h.engine e hprocess).moves hmoves
  | dropCanceller _ => exact ⟨h.table, h.engine⟩
  | resume _ | assessRetry _ _ _ | crash _ | stop _ _ _ =>
    refine ⟨h.table, ?_⟩
    intro e hengine
    cases hengine

/-- What the engine process holds is stored, in every reachable world. -/
theorem tracked_reachable {accepts : WorkflowRunState → Prop} {world : World}
    (h : (engineSystem PlanValidated accepts).Reachable world) : Tracked world := by
  apply h.invariant
  · intro s hstarts
    obtain ⟨input, -, hcreate⟩ := hstarts.input
    have hattempts := (createWorkflowRunState_ok hcreate).attempts
    refine ⟨⟨by rw [hattempts]; exact List.nodup_nil, ?_⟩, ?_⟩
    · intro attempt hattempt
      rw [hattempts] at hattempt
      cases hattempt
    · intro e hengine
      rw [hstarts.process] at hengine
      cases hengine
      exact engineTracked_start s.run
  · intro s a t hreach htracked hstep
    exact htracked.step (planKept_reachable hreach) hstep

/-- Only a prepared attempt is marked running. -/
theorem Tracked.marks_prepared {accepts : WorkflowRunState → Prop} {world later : World}
    {attemptId : String} (h : Tracked world)
    (hstep : Step accepts world (.write (.markRunning attemptId)) later) :
    ∀ attempt ∈ world.run.attempts, attempt.id = attemptId → attempt.state = .prepared := by
  cases hstep with
  | @write _ next process' now hissues _ _ =>
    cases hprocess : world.process with
    | engine e =>
      rw [hprocess] at hissues
      cases hissues with
      | @markRunning _ attempt queue hphase =>
        have htracked := (h.engine e hprocess).phase
        rw [hphase] at htracked
        obtain ⟨-, stored, hstored, hsame, hprepared⟩ := htracked
        intro other hother hid
        have heq : other = stored :=
          List.inj_on_of_nodup_map h.table.nodup hother hstored (hid.trans hsame.id.symm)
        rw [heq]
        exact hprepared
    | idle | recovering loaded | relaunching stopped | retrying =>
      rw [hprocess] at hissues
      cases hissues

end BuildConductor.Lifecycle
