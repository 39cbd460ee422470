import BuildConductor.Lifecycle.Evidence
import BuildConductor.Lifecycle.Growth

/-!
# Sessions

A handler is given a port through which its session proposes steps. A timeout or an abort settles
the attempt without ending the handler, and the port looks only at the state of the step, so a
handler keeps its port while a later attempt of its step runs. `src/src/engine/engine.ts:186-206`,
`src/src/engine/admission.ts:44-61`, `src/src/engine/executor.ts:127-217`.
-/

namespace BuildConductor.Lifecycle

open Base Domain Security Engine Workflows Storage

/-! ## Running steps -/

/-- Every running step has an active attempt. -/
def RunningActive (run : WorkflowRunState) : Prop :=
  ∀ stepId, StepRunning run.steps stepId → stepId ∈ activeStepIds run

section Running

variable {run next : WorkflowRunState} {now : Timestamp} {transaction : Transaction}

/-- A write that settles an attempt ends its step. -/
private theorem Transaction.settles_ends (hwrite : WriteSound run transaction)
    (htable : AttemptTable run) {attempt : WorkflowStepAttempt} (hattempt : attempt ∈ run.attempts)
    (hactive : attempt.state.isActive = true)
    (hsettles : transaction.settlesAttempt run attempt.id) :
    transaction.endsStep run attempt.stepId := by
  cases transaction with
  | settleStep stepId settled executed routing =>
    obtain ⟨hstep, stored, hstored, hsame, -⟩ := hwrite.settles _ _ _ _ rfl
    have heq : attempt = stored :=
      List.inj_on_of_nodup_map htable.nodup hattempt hstored (hsettles.trans hsame.id.symm)
    show attempt.stepId = stepId
    rw [heq, hsame.stepId, hstep]
  | recover decide => exact mem_activeStepIds_iff.mpr ⟨attempt, hattempt, hactive, rfl⟩
  | _ => cases hsettles

theorem RunningActive.apply (h : RunningActive run) (hwrite : WriteSound run transaction)
    (happly : transaction.apply now run = .ok next) (hkept : PlanKept run)
    (htable : AttemptTable run) : RunningActive next := by
  intro stepId hrunning
  rw [Transaction.apply_active happly hwrite.marks hwrite.reserves]
  rcases (Transaction.apply_stepRunning happly hkept stepId).mp hrunning with hstarts | ⟨hbefore, hopen⟩
  · exact Or.inl hstarts
  · obtain ⟨attempt, hattempt, hactive, rfl⟩ := mem_activeStepIds_iff.mp (h stepId hbefore)
    exact Or.inr ⟨attempt, hattempt, hactive, rfl, fun hsettles =>
      hopen (Transaction.settles_ends hwrite htable hattempt hactive hsettles)⟩

theorem runningActive_reachable {sha256Hex : String → String} {world : World}
    (h : (storedEngine sha256Hex).Reachable world) : RunningActive world.run := by
  apply h.invariant (P := fun world => RunningActive world.run)
  · intro world hstarts
    exact fun stepId => ((agreement_of_starts hstarts).agrees stepId).mpr
  · intro world action later hreachable ih hstep
    rcases Step.run_cases hstep with hrun | ⟨transaction, now, rfl, happly⟩
    · rwa [hrun]
    · have hconsistent := consistent_reachable hreachable
      have hwrite := (sound_reachable hreachable).write hconsistent.tracked hstep
      exact ih.apply hwrite happly hconsistent.kept hconsistent.tracked.table

end Running

/-! ## The system with its sessions -/

/-- A world, and the attempts whose handlers have been called and have not ended. -/
structure SessionWorld where
  world : World
  sessions : List WorkflowStepAttempt

/-- The label of a step. -/
inductive SessionAction
  | engine (action : Action)
  /-- The request of a handler goes through. -/
  | admitted (attempt : WorkflowStepAttempt) (request : StepAdmissionRequest)
  /-- The request of a handler is refused. -/
  | refused (attempt : WorkflowStepAttempt) (request : StepAdmissionRequest)
  /-- A handler returns. -/
  | ends (attempt : WorkflowStepAttempt)

/-- What the port of an attempt makes of a request. `src/src/engine/engine.ts:193-206`. -/
def portRequest (attempt : WorkflowStepAttempt) (request : StepAdmissionRequest) :
    StepAdmissionRequest :=
  { request with proposedBy := attempt.stepId }

/-- The step neither calls a handler, nor is a request of one, nor stops a process. -/
def Action.keepsSessions : Action → Prop
  | .write (.markRunning _) => False
  | .write (.admission _) => False
  | .refuse (.admission _) => False
  | .stop => False
  | _ => True

/-- One step. A handler is called once its attempt is marked running. A process that stops may take
its handlers along; those of other processes go on. -/
inductive SessionStep (accepts : WorkflowRunState → Prop) :
    SessionWorld → SessionAction → SessionWorld → Prop
  | starts {world later e attempt queue sessions} : world.process = .engine e →
      e.phase = .marking attempt queue →
      Step accepts world (.write (.markRunning attempt.id)) later →
      SessionStep accepts ⟨world, sessions⟩ (.engine (.write (.markRunning attempt.id)))
        ⟨later, sessions ++ [attempt]⟩
  | moves {world later action sessions} : action.keepsSessions → Step accepts world action later →
      SessionStep accepts ⟨world, sessions⟩ (.engine action) ⟨later, sessions⟩
  | stops {world later sessions survivors} : Step accepts world .stop later →
      survivors.Sublist sessions →
      SessionStep accepts ⟨world, sessions⟩ (.engine .stop) ⟨later, survivors⟩
  | admitted {world later attempt request sessions} : attempt ∈ sessions →
      Step accepts world (.write (.admission (portRequest attempt request))) later →
      SessionStep accepts ⟨world, sessions⟩ (.admitted attempt request) ⟨later, sessions⟩
  | refused {world later attempt request sessions} : attempt ∈ sessions →
      Step accepts world (.refuse (.admission (portRequest attempt request))) later →
      SessionStep accepts ⟨world, sessions⟩ (.refused attempt request) ⟨later, sessions⟩
  | ends {world attempt pre post} :
      SessionStep accepts ⟨world, pre ++ attempt :: post⟩ (.ends attempt) ⟨world, pre ++ post⟩

/-- The engine over its store, with the handlers it called. -/
def sessionEngine (sha256Hex : String → String) : TransitionSystem SessionWorld SessionAction where
  initial := fun s => (storedEngine sha256Hex).initial s.world ∧ s.sessions = []
  step := SessionStep (Accepts sha256Hex)

section Sessions

variable {sha256Hex : String → String} {s later : SessionWorld}

/-- A step with sessions is a step of the engine, or ends a handler. -/
private theorem SessionStep.world {accepts : WorkflowRunState → Prop} {action : SessionAction}
    (h : SessionStep accepts s action later) :
    later.world = s.world ∨ ∃ taken, Step accepts s.world taken later.world := by
  cases h with
  | starts _ _ hstep | moves _ hstep | stops hstep _ | admitted _ hstep | refused _ hstep =>
    exact Or.inr ⟨_, hstep⟩
  | ends => exact Or.inl rfl

theorem sessionEngine_world (h : (sessionEngine sha256Hex).Reachable s) :
    (storedEngine sha256Hex).Reachable s.world := by
  apply h.invariant (P := fun s => (storedEngine sha256Hex).Reachable s.world)
  · exact fun s hinitial => .of_initial hinitial.1
  · intro s action later _ ih hstep
    rcases hstep.world with hsame | ⟨taken, hmove⟩
    · rwa [hsame]
    · exact ih.step hmove

/-- Every handler belongs to a stored attempt. -/
def SessionsStored (s : SessionWorld) : Prop :=
  ∀ attempt ∈ s.sessions, ∃ stored ∈ s.world.run.attempts, SameAttempt attempt stored

private theorem stored_step {accepts : WorkflowRunState → Prop} {world later : World}
    {action : Action} (hstep : Step accepts world action later)
    {attempt stored : WorkflowStepAttempt} (hstored : stored ∈ world.run.attempts)
    (hsame : SameAttempt attempt stored) :
    ∃ stored ∈ later.run.attempts, SameAttempt attempt stored := by
  rcases Step.run_cases hstep with hrun | ⟨transaction, now, -, happly⟩
  · rw [hrun]
    exact ⟨stored, hstored, hsame⟩
  · obtain ⟨after, hafter, hevolves⟩ := Transaction.apply_stored happly hstored
    exact ⟨after, hafter, hsame.trans hevolves.same⟩

private theorem SessionsStored.step {accepts : WorkflowRunState → Prop} {action : SessionAction}
    (h : SessionsStored s) (htracked : Tracked s.world) (hstep : SessionStep accepts s action later) :
    SessionsStored later := by
  intro attempt hattempt
  have hlives : ∀ {world : World}, (∃ taken, Step accepts s.world taken world) → attempt ∈ s.sessions →
      ∃ stored ∈ world.run.attempts, SameAttempt attempt stored := by
    intro world hmove hmem
    obtain ⟨taken, hmove⟩ := hmove
    obtain ⟨stored, hstored, hsame⟩ := h attempt hmem
    exact stored_step hmove hstored hsame
  cases hstep with
  | @starts world after e started queue sessions hprocess hphase hmark =>
    rcases List.mem_append.mp hattempt with hold | hnew
    · exact hlives ⟨_, hmark⟩ hold
    · rw [List.mem_singleton.mp hnew]
      have hmarking := (htracked.engine e hprocess).phase
      rw [hphase] at hmarking
      obtain ⟨-, stored, hstored, hsame, -⟩ := hmarking
      exact stored_step hmark hstored hsame
  | moves _ hmove | admitted _ hmove | refused _ hmove => exact hlives ⟨_, hmove⟩ hattempt
  | stops hmove hsurvivors => exact hlives ⟨_, hmove⟩ (hsurvivors.subset hattempt)
  | ends =>
    apply h attempt
    rcases List.mem_append.mp hattempt with hpre | hpost
    · exact List.mem_append_left _ hpre
    · exact List.mem_append_right _ (List.mem_cons_of_mem _ hpost)

theorem sessionsStored_reachable (h : (sessionEngine sha256Hex).Reachable s) :
    SessionsStored s := by
  apply h.invariant
  · intro s hinitial attempt hattempt
    rw [hinitial.2] at hattempt
    cases hattempt
  · intro s action later hreachable ih hstep
    exact ih.step (consistent_reachable (sessionEngine_world hreachable)).tracked hstep

/-- The attempt is the active attempt of its step. -/
def IsActiveAttempt (run : WorkflowRunState) (attempt : WorkflowStepAttempt) : Prop :=
  ∃ stored ∈ run.attempts, stored.id = attempt.id ∧ stored.state.isActive = true

/-- The attempt is the newest attempt of its step. -/
def IsNewestAttempt (run : WorkflowRunState) (attempt : WorkflowStepAttempt) : Prop :=
  attempt.number = (attemptsOf run attempt.stepId).length

/-- A request of a handler goes through for the active attempt of its step exactly when no later
attempt of the step has been reserved. -/
theorem admitted_active_iff (h : (sessionEngine sha256Hex).Reachable s)
    {attempt : WorkflowStepAttempt} {request : StepAdmissionRequest}
    (hstep : (sessionEngine sha256Hex).step s (.admitted attempt request) later) :
    IsActiveAttempt s.world.run attempt ↔ IsNewestAttempt s.world.run attempt := by
  have hworld := sessionEngine_world h
  have hconsistent := consistent_reachable hworld
  have hnumbered := hconsistent.numbered
  cases hstep with
  | @admitted world later _ _ sessions hsession hmove =>
    obtain ⟨stored, hstored, hsame⟩ := sessionsStored_reachable h attempt hsession
    obtain ⟨now, happly⟩ := Step.write_applies hmove
    have hrunning : StepRunning world.run.steps attempt.stepId := admitSteps_proposer happly
    unfold IsNewestAttempt
    rw [← hsame.number, ← hsame.stepId]
    constructor
    · rintro ⟨active, hactive, hid, hlive⟩
      have heq : active = stored :=
        List.inj_on_of_nodup_map hconsistent.tracked.table.nodup hactive hstored
          (hid.trans hsame.id.symm)
      rw [← heq]
      exact hnumbered.newest active hactive hlive
    · intro hnewest
      obtain ⟨active, hactive, hlive, hof⟩ :=
        mem_activeStepIds_iff.mp (runningActive_reachable hworld _ hrunning)
      rw [← hsame.stepId] at hof
      -- attempts of one step are told apart by their numbers
      have hnodup : ((attemptsOf world.run stored.stepId).map (·.number)).Nodup := by
        rw [hnumbered.numbers]
        exact List.nodup_range'
      have heq : active = stored := by
        apply List.inj_on_of_nodup_map hnodup
        · exact List.mem_filter.mpr ⟨hactive, decide_eq_true hof⟩
        · exact List.mem_filter.mpr ⟨hstored, decide_eq_true rfl⟩
        · rw [hnewest, hnumbered.newest active hactive hlive, hof]
      exact ⟨stored, hstored, hsame.id, by rw [← heq]; exact hlive⟩

end Sessions

/-! ## A request after a timeout

A step that may run twice. Its first attempt times out and is settled, its second is running, and
the handler of the first proposes a step. -/

def retriedStep : StepDefinition := { editStep with retry := some ⟨2⟩ }

def retriedRecord (state : StepRunState) (attemptIds : List String) : WorkflowStepRecord :=
  { initialStepRecord retriedStep with state, attemptIds }

def timedOutAttempt : WorkflowStepAttempt :=
  { editAttempt .failed none with error := some "Step edit timed out after 1000ms" }

private theorem timeout_nonempty : "2" ≠ "" := by decide

/-- What the executor makes of the first attempt. -/
def timedOutResult : StepExecutionResult :=
  ⟨.failed "Step edit timed out after 1000ms" none none, clock "2" timeout_nonempty, true, none⟩

/-- The timeline up to the admission. -/
def sessionEvents : List WorkflowEvent :=
  [launchedEvent,
    ⟨2, "2", .stepFailed "edit" "edit-1" "Step edit timed out after 1000ms" .retryable
      "the step timed out with 1 attempt(s) remaining"⟩,
    ⟨3, "2", .stepRetryScheduled "edit" "edit-1" 2 "the step timed out with 1 attempt(s) remaining"⟩,
    ⟨4, "1", .stepLaunched "edit" "edit-2" 2 .mutable⟩,
    ⟨5, "3", .stepAdmitted "check" "edit" "follow up"⟩]

/-- The authority of the run. -/
def sessionAuthority : FrozenAuthority :=
  { source := .derived
    digest := "dd9ff9a7a22b3ce42d37b956a211d6b5daf6bba93b131837ad249ca72287201f"
    envelope := { smallAuthority.envelope with escalation := ⟨EscalationCondition.all, []⟩ } }

/-- The hash of the one text that is hashed here. -/
def sessionHash (_text : String) : String := sessionAuthority.digest

/-- A run of some of these steps, after the first of these events. -/
def sessionRun (records : List WorkflowStepRecord) (attempts : List WorkflowStepAttempt)
    (events : Nat) (updatedAt : String) : WorkflowRunState :=
  { smallRun (records.map (·.definition)) with
    authority := some sessionAuthority
    steps := .ofList (records.map fun record => (record.definition.id, record))
    attempts
    events := sessionEvents.take events
    eventSequence := events
    updatedAt }

/-- The run before anything ran. -/
def sessionStart : WorkflowRunState := sessionRun [retriedRecord .ready []] [] 0 "0"

/-- The first attempt is reserved, or running. -/
def firstRun (state : AttemptState) : WorkflowRunState :=
  sessionRun [retriedRecord .running ["edit-1"]] [editAttempt state none] 1 "1"

/-- The first attempt has timed out. -/
def timedOutRun : WorkflowRunState :=
  sessionRun [retriedRecord .ready ["edit-1"]] [timedOutAttempt] 3 "2"

/-- The first attempt has timed out, and the second is reserved, or running. -/
def secondRun (state : AttemptState) : WorkflowRunState :=
  sessionRun [retriedRecord .running ["edit-1", "edit-2"]] [timedOutAttempt, secondAttempt state] 4
    "1"

/-- That run with the proposed step. -/
def grownRun : WorkflowRunState :=
  sessionRun [retriedRecord .running ["edit-1", "edit-2"], initialStepRecord checkStep]
    [timedOutAttempt, secondAttempt .running] 5 "3"

private theorem sessionRuns_accepted : ∀ run ∈ [sessionStart, firstRun .prepared, firstRun .running,
    timedOutRun, secondRun .prepared, secondRun .running, grownRun],
    validateRun sessionHash run = .ok () := by
  decide +kernel

/-- The engine at work on a run, with the handlers of some attempts. -/
def sessionAt (run : WorkflowRunState) (phase : Phase) (active : List ActiveStep)
    (sessions : List WorkflowStepAttempt) : SessionWorld :=
  ⟨engineAt run phase active, sessions⟩

private theorem session_move {run : WorkflowRunState} {phase phase' : Phase}
    {active active' : List ActiveStep} {sessions : List WorkflowStepAttempt}
    (h : (sessionEngine sessionHash).Reachable (sessionAt run phase active sessions))
    (hmove : Moves run (engineAt run phase active).branchHead [] ⟨phase, active, false⟩ []
      ⟨phase', active', false⟩) :
    (sessionEngine sessionHash).Reachable (sessionAt run phase' active' sessions) :=
  h.step (@SessionStep.moves _ _ _ .move _ trivial (Step.move rfl hmove))

private theorem session_write {run next : WorkflowRunState} {phase phase' : Phase}
    {active active' : List ActiveStep} {sessions : List WorkflowStepAttempt}
    {transaction : Transaction} {now : Timestamp}
    (h : (sessionEngine sessionHash).Reachable (sessionAt run phase active sessions))
    (happly : transaction.apply now run = .ok next)
    (hkeeps : (Action.write transaction).keepsSessions)
    (hissues : Issues now run next (.engine ⟨phase, active, false⟩) transaction
      (.engine ⟨phase', active', false⟩))
    (haccepted : Accepts sessionHash next) :
    (sessionEngine sessionHash).Reachable (sessionAt next phase' active' sessions) :=
  h.step (SessionStep.moves hkeeps (Step.write hissues happly fun _ => haccepted))

/-- The handler of the first attempt can be running. -/
private theorem firstHandler_reachable : (sessionEngine sessionHash).Reachable
    (sessionAt (firstRun .running) .waiting [⟨editAttempt .prepared none, .executing⟩]
      [editAttempt .prepared none]) := by
  have hstart : (sessionEngine sessionHash).Reachable (sessionAt sessionStart .integrating [] []) :=
    .of_initial ⟨
      { input := ⟨{ smallInput [retriedStep] 2 with authority := some sessionAuthority },
          ⟨(smallPlan [retriedStep]).toJson, by decide +kernel⟩, rfl⟩
        accepted := sessionRuns_accepted sessionStart (List.mem_cons_self ..)
        process := rfl, cancellers := rfl, branch := rfl }, rfl⟩
  have hqueued : (sessionEngine sessionHash).Reachable
      (sessionAt sessionStart (.dispatching ["edit"]) [] []) :=
    session_move (session_move hstart (.load rfl))
      (@Moves.dispatch _ _ _ ⟨.returned .running, [], false⟩ .running rfl)
  have hpreparing : (sessionEngine sessionHash).Reachable
      (sessionAt sessionStart (.preparing ⟨"edit", .mutable, 1, "base"⟩ []) [] []) :=
    session_move hqueued (@Moves.launch _ _ _ ⟨.dispatching ["edit"], [], false⟩ "edit" [] rfl)
  have hreserving : (sessionEngine sessionHash).Reachable
      (sessionAt sessionStart (.reserving (editAttempt .prepared none) []) [] []) :=
    session_move hpreparing
      (@Moves.prepared _ _ _ ⟨.preparing ⟨"edit", .mutable, 1, "base"⟩ [], [], false⟩
        ⟨"edit", .mutable, 1, "base"⟩ [] "edit-1" (clock "1") editWorkspace rfl (by decide)
        (by decide))
  have hreserve : (Transaction.reserve (editAttempt .prepared none)).apply (clock "1") sessionStart =
      .ok (firstRun .prepared) := rfl
  have hreserved : (sessionEngine sessionHash).Reachable
      (sessionAt (firstRun .prepared) (.marking (editAttempt .prepared none) []) [] []) :=
    session_write hreserving hreserve trivial (.reserved rfl (by decide))
      (sessionRuns_accepted _ (by simp))
  have hmarked : (sessionEngine sessionHash).Reachable
      (sessionAt (firstRun .running) (.dispatching []) [⟨editAttempt .prepared none, .executing⟩]
        [editAttempt .prepared none]) :=
    hreserved.step (SessionStep.starts rfl rfl
      (Step.write (.markRunning rfl)
        (show (Transaction.markRunning "edit-1").apply (clock "1") (firstRun .prepared) =
          .ok (firstRun .running) from rfl)
        fun _ => sessionRuns_accepted _ (by simp)))
  exact session_move (session_move hmarked (.dispatched rfl)) (.wait rfl (List.cons_ne_nil _ _))

/-- The first attempt can be settled by a timeout and the second one run, the first handler still
holding its port. -/
private theorem secondHandler_reachable : (sessionEngine sessionHash).Reachable
    (sessionAt (secondRun .running) (.dispatching []) [⟨secondAttempt .prepared, .executing⟩]
      [editAttempt .prepared none, secondAttempt .prepared]) := by
  have hsettle : (Transaction.settleStep "edit" (editAttempt .prepared none) timedOutResult
      (.ok [])).apply (clock "2") (firstRun .running) = .ok timedOutRun := rfl
  have hsettled : (sessionEngine sessionHash).Reachable
      (sessionAt timedOutRun .waiting [⟨editAttempt .prepared none, .resolved⟩]
        [editAttempt .prepared none]) :=
    session_write firstHandler_reachable hsettle trivial
      (@Issues.settleStep (clock "2") _ _ ⟨.waiting, _, false⟩ [] [] _ timedOutResult (.ok []) rfl)
      (sessionRuns_accepted _ (by simp))
  have hloaded : (sessionEngine sessionHash).Reachable
      (sessionAt timedOutRun (.returned .running) [] [editAttempt .prepared none]) :=
    session_move (session_move hsettled (@Moves.wake _ _ _ _ [] [] _ rfl rfl)) (.load rfl)
  have hqueued : (sessionEngine sessionHash).Reachable
      (sessionAt timedOutRun (.dispatching ["edit"]) [] [editAttempt .prepared none]) :=
    session_move hloaded (@Moves.dispatch _ _ _ ⟨.returned .running, [], false⟩ .running rfl)
  have hpreparing : (sessionEngine sessionHash).Reachable
      (sessionAt timedOutRun (.preparing ⟨"edit", .mutable, 2, "base"⟩ []) []
        [editAttempt .prepared none]) :=
    session_move hqueued (@Moves.launch _ _ _ ⟨.dispatching ["edit"], [], false⟩ "edit" [] rfl)
  have hreserving : (sessionEngine sessionHash).Reachable
      (sessionAt timedOutRun (.reserving (secondAttempt .prepared) []) []
        [editAttempt .prepared none]) :=
    session_move hpreparing
      (@Moves.prepared _ _ _ ⟨.preparing ⟨"edit", .mutable, 2, "base"⟩ [], [], false⟩
        ⟨"edit", .mutable, 2, "base"⟩ [] "edit-2" (clock "1") secondWorkspace rfl (by decide)
        (by decide))
  have hreserve : (Transaction.reserve (secondAttempt .prepared)).apply (clock "1") timedOutRun =
      .ok (secondRun .prepared) := rfl
  have hreserved : (sessionEngine sessionHash).Reachable
      (sessionAt (secondRun .prepared) (.marking (secondAttempt .prepared) []) []
        [editAttempt .prepared none]) :=
    session_write hreserving hreserve trivial (.reserved rfl (by decide))
      (sessionRuns_accepted _ (by simp))
  exact hreserved.step (SessionStep.starts rfl rfl
    (Step.write (.markRunning rfl)
      (show (Transaction.markRunning "edit-2").apply (clock "1") (secondRun .prepared) =
        .ok (secondRun .running) from rfl)
      fun _ => sessionRuns_accepted _ (by simp)))

/-- A request of either handler goes through. -/
private theorem secondRun_admits {attempt : WorkflowStepAttempt}
    (hsession : attempt ∈ [editAttempt .prepared none, secondAttempt .prepared])
    (hrequest : portRequest attempt checkProposal = checkProposal) :
    (sessionEngine sessionHash).step
      (sessionAt (secondRun .running) (.dispatching []) [⟨secondAttempt .prepared, .executing⟩]
        [editAttempt .prepared none, secondAttempt .prepared])
      (.admitted attempt checkProposal)
      (sessionAt grownRun (.dispatching []) [⟨secondAttempt .prepared, .executing⟩]
        [editAttempt .prepared none, secondAttempt .prepared]) := by
  have hgrows : (Transaction.admission checkProposal).apply (clock "3") (secondRun .running) =
      .ok grownRun := by decide +kernel
  apply SessionStep.admitted hsession
  rw [hrequest]
  exact Step.write Issues.admission hgrows fun _ => sessionRuns_accepted _ (by simp)

/-- The handler of an attempt that has timed out adds a step to the run. -/
theorem late_request_admitted : ¬ ∀ (sha256Hex : String → String) (s later : SessionWorld)
    (attempt : WorkflowStepAttempt) (request : StepAdmissionRequest),
    (sessionEngine sha256Hex).Reachable s →
    (sessionEngine sha256Hex).step s (.admitted attempt request) later →
    IsActiveAttempt s.world.run attempt := by
  intro h
  obtain ⟨stored, hstored, hid, hactive⟩ := h sessionHash _ _ _ _ secondHandler_reachable
    (secondRun_admits (List.mem_cons_self ..) rfl)
  rcases List.mem_cons.mp hstored with rfl | hrest
  · cases hactive
  · rw [List.mem_singleton.mp hrest] at hid
    revert hid
    decide

theorem admitted_active_iff_secondRun :
    IsActiveAttempt (secondRun .running) (secondAttempt .prepared) ↔
      IsNewestAttempt (secondRun .running) (secondAttempt .prepared) :=
  admitted_active_iff secondHandler_reachable
    (secondRun_admits (List.mem_cons_of_mem _ (List.mem_singleton_self _)) rfl)

end BuildConductor.Lifecycle
