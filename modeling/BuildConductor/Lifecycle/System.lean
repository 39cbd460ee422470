import BuildConductor.Base.TransitionSystem
import BuildConductor.Engine.Admission
import BuildConductor.Storage.WorkflowStateStore
import BuildConductor.Workflows.ChangeRun

/-!
# The engine as a transition system

One stored run and the process that may be working on it. The process moves through the
points at which the source awaits something: between two of them it reads the store, writes
one transaction, or calls git. Every write may be refused by the store, every call may fail,
other processes may cancel the run at any time, and the process may stop anywhere.
`src/src/engine/engine.ts:98-137,208-362,575-659`,
`src/src/workflows/change-run.ts:259-505,512-543`.
-/

namespace BuildConductor.Lifecycle

open Base Domain Engine Storage Workflows

/-- One update of the stored run. -/
inductive Transaction
  | requestCancellation (reason : String)
  | reserve (attempt : WorkflowStepAttempt)
  | markRunning (attemptId : String)
  | recordWorker (attemptId workerId : String)
  | settleStep (stepId : String) (attempt : WorkflowStepAttempt) (executed : StepExecutionResult)
      (routing : Except RoutingFailure (List ArtifactSummary))
  | failStep (stepId message : String)
  | recordIntegration (ticket : IntegrationTicket) (integratedCommit : String)
  | recordIntegrationFailure (ticket : IntegrationTicket) (error : String)
  | settleRun (cancelled : Bool)
  | recover (decide : WorkflowStepAttempt → InterruptedAttemptDecision)
  | relaunch (stopped : List String)
  | retry
  | admission (request : StepAdmissionRequest)

/-- What a transaction makes of the stored run. -/
def Transaction.apply (now : Timestamp) : Transaction → WorkflowRunState →
    Except String WorkflowRunState
  | requestCancellation reason, run => .ok (Engine.requestCancellation reason now run)
  | reserve attempt, run => reserveAttempt attempt now run
  | markRunning attemptId, run => .ok (markAttemptRunning attemptId now run)
  | recordWorker attemptId workerId, run => .ok (Engine.recordWorker attemptId workerId now run)
  | settleStep stepId attempt executed routing, run =>
    Engine.settleStep stepId attempt executed routing now run
  | failStep stepId message, run => Engine.failStep stepId message now run
  | recordIntegration ticket integratedCommit, run =>
    Engine.recordIntegration ticket integratedCommit now run
  | recordIntegrationFailure ticket error, run =>
    Engine.recordIntegrationFailure ticket error now run
  | settleRun cancelled, run => .ok (Engine.settleRun cancelled now run)
  | recover decide, run => (recoverWorkflowRun decide now run).map Prod.fst
  | relaunch stopped, run => .ok (relaunchSteps stopped now run)
  | retry, run => retrySteps now run
  | admission request, run => admitSteps request now run

/-- Where the engine loop stands. -/
inductive Phase
  /-- About to load the run in `integratePendingSteps`. -/
  | integrating
  /-- `integrator.integrate` is moving a commit onto the branch. -/
  | merging (ticket : IntegrationTicket) (commit : String)
  /-- About to record the integrated commit. -/
  | recordingIntegration (ticket : IntegrationTicket) (integratedCommit : String)
  /-- About to record that the integration failed. -/
  | failingIntegration (ticket : IntegrationTicket) (error : String)
  /-- About to fail a step that succeeded without a recorded attempt. -/
  | unrecorded (stepId : String)
  /-- About to load the run `integratePendingSteps` returns after a failure. -/
  | reloading
  /-- `integratePendingSteps` returned a run with this status. -/
  | returned (status : WorkflowRunLifecycleState)
  /-- In `dispatchLaunchableSteps`, with the steps still to launch. -/
  | dispatching (queue : List String)
  /-- Acquiring a workspace in `launchStep`. -/
  | preparing (ticket : LaunchTicket) (queue : List String)
  /-- About to reserve the attempt. -/
  | reserving (attempt : WorkflowStepAttempt) (queue : List String)
  /-- About to mark the reserved attempt running. -/
  | marking (attempt : WorkflowStepAttempt) (queue : List String)
  /-- About to fail a step that could not start. -/
  | failingLaunch (stepId message : String)
  /-- `dispatchLaunchableSteps` returned, or was skipped. -/
  | dispatched
  /-- Waiting for an execution to settle. -/
  | waiting
  /-- About to settle the run. -/
  | settling (cancelled : Bool)
  /-- `run` threw and waits for its executions. -/
  | stopping

/-- The state of the promise of one execution. -/
inductive Completion
  | executing | resolved | rejected
deriving DecidableEq, Repr

/-- An entry of the `active` map. -/
structure ActiveStep where
  attempt : WorkflowStepAttempt
  completion : Completion

/-- `WorkflowEngine.run` under way. -/
structure EngineProcess where
  phase : Phase
  active : List ActiveStep
  aborted : Bool

/-- An engine process at its start. -/
def EngineProcess.start : EngineProcess := ⟨.integrating, [], false⟩

/-- The process that claimed the execution of the run, if any. -/
inductive Process
  | idle
  /-- `recoverWorkflowRun` loaded the run and inspects git. -/
  | recovering (loaded : WorkflowRunState)
  /-- About to run again the steps recovery failed. -/
  | relaunching (stopped : List String)
  /-- A retry was assessed and is about to reset the run. -/
  | retrying
  | engine (state : EngineProcess)

/-- A commit on the integration branch, and the task commit it was picked from. -/
structure BranchCommit where
  source : String
  commit : String
deriving DecidableEq, Repr

/-- The stored run, the process executing it, the cancelling processes that have requested but
not settled, and the commits on the integration branch since its base. -/
structure World where
  run : WorkflowRunState
  process : Process
  cancellers : Nat
  branch : List BranchCommit

/-- `git.branchHead` of the integration branch. -/
def World.branchHead (world : World) : String :=
  (world.branch.getLast?.map (·.commit)).getD world.run.baseCommit

/-! ## Reads -/

/-- One pass of `integratePendingSteps` up to its first effect. `src/src/engine/engine.ts:578-610`. -/
def loadPending (run : WorkflowRunState) : Phase :=
  if run.state ≠ .running then .returned run.state
  else
    match nextIntegrableStepId run with
    | none => .returned run.state
    | some stepId =>
      match latestSucceededAttempt run stepId with
      | none => .unrecorded stepId
      | some attempt =>
        match present attempt.commit with
        | none => .recordingIntegration ⟨stepId, attempt, run.integrationHead⟩ run.integrationHead
        | some commit => .merging ⟨stepId, attempt, run.integrationHead⟩ commit

/-- Whether to dispatch, and what. `src/src/engine/engine.ts:121-124,208-214`. -/
def dispatchPhase (aborted : Bool) (status : WorkflowRunLifecycleState) (run : WorkflowRunState) :
    Phase :=
  if status = .running ∧ aborted = false then .dispatching (launchableStepIds run) else .dispatched

/-- The load of `launchStep`. `src/src/engine/engine.ts:257-266`. -/
def launchPhase (run : WorkflowRunState) (stepId : String) (queue : List String) : Phase :=
  match launchTicket run stepId with
  | .ok ticket => .preparing ticket queue
  | .error _ => .stopping

/-- What `resume` does once recovery is stored. `src/src/workflows/change-run.ts:299-329,347-356`. -/
def afterRecovery (run : WorkflowRunState) (recovered : List RecoveredAttempt) : Process :=
  if stoppedSteps run recovered ≠ [] then .relaunching (stoppedSteps run recovered)
  else if run.state = .running then .engine .start
  else .idle

/-- The part of the retry assessment that looks at attempts: none is active, and the newest of no
step was interrupted. `src/src/inspection/run-control.ts:186-206`. -/
def retryAssessed (run : WorkflowRunState) : Bool :=
  (activeAttempts run).isEmpty &&
    run.steps.keys.all fun stepId =>
      ((attemptsOf run stepId).getLast?.map (·.state)) ≠ some .interrupted

/-! ## Writes -/

/-- A process issues a transaction against the stored run and continues once it is stored. -/
inductive Issues (now : Timestamp) (before after : WorkflowRunState) :
    Process → Transaction → Process → Prop
  | reserved {e attempt queue} : e.phase = .reserving attempt queue →
      attempt.stepId ∈ launchableStepIds before →
      Issues now before after (.engine e) (.reserve attempt)
        (.engine { e with phase := .marking attempt queue })
  | notReserved {e attempt queue} : e.phase = .reserving attempt queue →
      attempt.stepId ∉ launchableStepIds before →
      Issues now before after (.engine e) (.reserve attempt) (.engine { e with phase := .dispatched })
  | markRunning {e attempt queue} : e.phase = .marking attempt queue →
      Issues now before after (.engine e) (.markRunning attempt.id)
        (.engine { e with
          phase := .dispatching queue, active := e.active ++ [⟨attempt, .executing⟩] })
  | recordWorker {e attempt workerId} : ⟨attempt, .executing⟩ ∈ e.active →
      Issues now before after (.engine e) (.recordWorker attempt.id workerId) (.engine e)
  | settleStep {e pre post attempt executed routing} :
      e.active = pre ++ ⟨attempt, .executing⟩ :: post →
      Issues now before after (.engine e) (.settleStep attempt.stepId attempt executed routing)
        (.engine { e with active := pre ++ ⟨attempt, .resolved⟩ :: post })
  /-- A handler proposes steps. A timeout or an abort settles its attempt without waiting for it, so
  nothing ties the request to what the process is doing. `src/src/engine/executor.ts:127-217`. -/
  | admission {process request} : Issues now before after process (.admission request) process
  | failLaunch {e stepId message} : e.phase = .failingLaunch stepId message →
      Issues now before after (.engine e) (.failStep stepId message)
        (.engine { e with phase := .dispatched })
  | failUnrecorded {e stepId} : e.phase = .unrecorded stepId →
      Issues now before after (.engine e)
        (.failStep stepId s!"Step {stepId} succeeded without a recorded attempt")
        (.engine { e with phase := .reloading })
  | recordIntegration {e ticket commit} : e.phase = .recordingIntegration ticket commit →
      Issues now before after (.engine e) (.recordIntegration ticket commit)
        (.engine { e with phase := .integrating })
  | recordIntegrationFailure {e ticket error} : e.phase = .failingIntegration ticket error →
      Issues now before after (.engine e) (.recordIntegrationFailure ticket error)
        (.engine { e with phase := .reloading })
  | settleRun {e cancelled} : e.phase = .settling cancelled →
      Issues now before after (.engine e) (.settleRun cancelled) .idle
  | recover {loaded observations recovered} :
      recoverWorkflowRun (recoveryDecision observations loaded) now before =
        .ok (after, recovered) →
      Issues now before after (.recovering loaded) (.recover (recoveryDecision observations loaded))
        (afterRecovery after recovered)
  | relaunch {stopped} :
      Issues now before after (.relaunching stopped) (.relaunch stopped) (.engine .start)
  | retry : Issues now before after .retrying .retry
      (if retryResetIds before = [] then .idle else .engine .start)

/-- A process continues when the store did not take its transaction. -/
inductive Refuses : Process → Transaction → Process → Prop
  | reserve {e attempt queue message} : e.phase = .reserving attempt queue →
      Refuses (.engine e) (.reserve attempt)
        (.engine { e with phase := .failingLaunch attempt.stepId message })
  | markRunning {e attempt queue message} : e.phase = .marking attempt queue →
      Refuses (.engine e) (.markRunning attempt.id)
        (.engine { e with phase := .failingLaunch attempt.stepId message })
  | recordWorker {e attempt workerId} : ⟨attempt, .executing⟩ ∈ e.active →
      Refuses (.engine e) (.recordWorker attempt.id workerId) (.engine e)
  | settleStep {e pre post attempt executed routing} :
      e.active = pre ++ ⟨attempt, .executing⟩ :: post →
      Refuses (.engine e) (.settleStep attempt.stepId attempt executed routing)
        (.engine { e with active := pre ++ ⟨attempt, .rejected⟩ :: post })
  | admission {process request} : Refuses process (.admission request) process
  | failLaunch {e stepId message} : e.phase = .failingLaunch stepId message →
      Refuses (.engine e) (.failStep stepId message) (.engine { e with phase := .stopping })
  | failUnrecorded {e stepId message} : e.phase = .unrecorded stepId →
      Refuses (.engine e) (.failStep stepId message) (.engine { e with phase := .stopping })
  | recordIntegration {e ticket commit error} : e.phase = .recordingIntegration ticket commit →
      Refuses (.engine e) (.recordIntegration ticket commit)
        (.engine { e with phase := .failingIntegration ticket error })
  | recordIntegrationFailure {e ticket error} : e.phase = .failingIntegration ticket error →
      Refuses (.engine e) (.recordIntegrationFailure ticket error)
        (.engine { e with phase := .stopping })
  | settleRun {e cancelled} : e.phase = .settling cancelled →
      Refuses (.engine e) (.settleRun cancelled) (.engine { e with phase := .stopping })
  | recover {loaded decide} : Refuses (.recovering loaded) (.recover decide) .idle
  | relaunch {stopped} : Refuses (.relaunching stopped) (.relaunch stopped) .idle
  | retry : Refuses .retrying .retry .idle

/-! ## Moves that write nothing -/

/-- The engine moves between two effects, or calls git. -/
inductive Moves (run : WorkflowRunState) (head : String) (branch : List BranchCommit) :
    EngineProcess → List BranchCommit → EngineProcess → Prop
  | load {e} : e.phase = .integrating →
      Moves run head branch e branch { e with phase := loadPending run }
  | merged {e ticket commit hash} : e.phase = .merging ticket commit →
      head = ticket.expectedHead → hash ≠ "" → hash ≠ head → (∀ entry ∈ branch, hash ≠ entry.commit) →
      Moves run head branch e (branch ++ [⟨commit, hash⟩])
        { e with phase := .recordingIntegration ticket hash }
  | mergeFailed {e ticket commit error} : e.phase = .merging ticket commit →
      Moves run head branch e branch { e with phase := .failingIntegration ticket error }
  | reload {e} : e.phase = .reloading →
      Moves run head branch e branch { e with phase := .returned run.state }
  | dispatch {e status} : e.phase = .returned status →
      Moves run head branch e branch { e with phase := dispatchPhase e.aborted status run }
  | launch {e stepId queue} : e.phase = .dispatching (stepId :: queue) →
      Moves run head branch e branch { e with phase := launchPhase run stepId queue }
  | dispatched {e} : e.phase = .dispatching [] →
      Moves run head branch e branch { e with phase := .dispatched }
  | prepared {e ticket queue attemptId now}
      (workspace : Workspace ticket.requirement ticket.startPoint) :
      e.phase = .preparing ticket queue → attemptId ≠ "" → attemptId ∉ run.attempts.map (·.id) →
      Moves run head branch e branch
        { e with phase := .reserving (preparedAttempt ticket workspace attemptId now) queue }
  | prepareFailed {e ticket queue message} : e.phase = .preparing ticket queue →
      Moves run head branch e branch { e with phase := .failingLaunch ticket.stepId message }
  | settle {e} : e.phase = .dispatched → e.active = [] →
      Moves run head branch e branch { e with phase := .settling e.aborted }
  | wait {e} : e.phase = .dispatched → e.active ≠ [] →
      Moves run head branch e branch { e with phase := .waiting }
  | wake {e pre post attempt} : e.phase = .waiting →
      e.active = pre ++ ⟨attempt, .resolved⟩ :: post →
      Moves run head branch e branch { e with phase := .integrating, active := pre ++ post }
  | wakeRejected {e attempt} : e.phase = .waiting → ⟨attempt, .rejected⟩ ∈ e.active →
      Moves run head branch e branch { e with phase := .stopping }
  | abort {e} : Moves run head branch e branch { e with aborted := true }

/-- The label of a step. -/
inductive Action
  | write (transaction : Transaction)
  | refuse (transaction : Transaction)
  | move
  /-- A process starts. -/
  | claim
  /-- The executing process ends without a write: it crashed, or it threw. -/
  | stop
  /-- A cancelling process ends without settling. -/
  | dropCanceller

/-- One step of the system, for a store that takes the runs it accepts. A transaction that
changes nothing is not written, and always goes through. -/
inductive Step (accepts : WorkflowRunState → Prop) : World → Action → World → Prop
  | write {world transaction next process now} :
      Issues now world.run next world.process transaction process →
      transaction.apply now world.run = .ok next → (next ≠ world.run → accepts next) →
      Step accepts world (.write transaction) { world with run := next, process }
  | refuse {world transaction process} : Refuses world.process transaction process →
      Step accepts world (.refuse transaction) { world with process }
  | move {world e branch e'} : world.process = .engine e →
      Moves world.run world.branchHead world.branch e branch e' →
      Step accepts world .move { world with process := .engine e', branch }
  | requestCancellation {world reason next now} :
      (Transaction.requestCancellation reason).apply now world.run = .ok next →
      (next ≠ world.run → accepts next) →
      Step accepts world (.write (.requestCancellation reason))
        { world with run := next, cancellers := world.cancellers + 1 }
  | settleCancelled {world next now} : 0 < world.cancellers →
      (Transaction.settleRun true).apply now world.run = .ok next →
      (next ≠ world.run → accepts next) →
      Step accepts world (.write (.settleRun true))
        { world with run := next, cancellers := world.cancellers - 1 }
  | dropCanceller {world} : 0 < world.cancellers →
      Step accepts world .dropCanceller { world with cancellers := world.cancellers - 1 }
  | resume {world} : world.process = .idle →
      Step accepts world .claim { world with process := .recovering world.run }
  | assessRetry {world} : world.process = .idle → retryAssessed world.run = true →
      world.run.state ≠ .cancelled →
      Step accepts world .claim { world with process := .retrying }
  | crash {world} : world.process ≠ .idle →
      Step accepts world .stop { world with process := .idle }
  | stop {world e} : world.process = .engine e → e.phase = .stopping →
      (∀ entry ∈ e.active, entry.completion ≠ .executing) →
      Step accepts world .stop { world with process := .idle }

/-- A run is created in an accepted state, and the process that created it starts its engine. -/
structure Starts (starts : CreateWorkflowRunStateInput → Prop) (accepts : WorkflowRunState → Prop)
    (world : World) : Prop where
  input : ∃ input, starts input ∧ createWorkflowRunState input = .ok world.run
  accepted : accepts world.run
  process : world.process = .engine .start
  cancellers : world.cancellers = 0
  branch : world.branch = []

/-- The engine over a store, started from some inputs. -/
def engineSystem (starts : CreateWorkflowRunStateInput → Prop) (accepts : WorkflowRunState → Prop) :
    TransitionSystem World Action where
  initial := Starts starts accepts
  step := Step accepts

/-- The input carries a plan the validator produced. -/
def PlanValidated (input : CreateWorkflowRunStateInput) : Prop :=
  ∃ document, validateWorkflowPlan document = .ok input.plan

/-! ## A run up to its first integration

A change step and an investigation that depends on it: the change step runs, succeeds with a
commit, and is about to be integrated. -/

def editStep : StepDefinition := changeStep "edit" [] ["src/a"]

def checkStep : StepDefinition := investigationStep "check" ["edit"]

def editRecord (state : StepRunState) : WorkflowStepRecord :=
  { initialStepRecord editStep with state, attemptIds := ["edit-1"] }

def editAttempt (state : AttemptState) (commit : Option String) : WorkflowStepAttempt :=
  smallAttempt "edit-1" "edit" 1 state commit

def editWorkspace : Workspace .mutable "base" where
  path := "/worktrees/edit-1"
  branch := some "task/edit-1"
  path_empty_iff := by decide
  branch_isSome_iff := by decide
  branch_ne_empty := by decide

def clock (text : String) (h : text ≠ "" := by decide) : Timestamp := ⟨text, h⟩

def launchedEvent : WorkflowEvent := ⟨1, "1", .stepLaunched "edit" "edit-1" 1 .mutable⟩

/-- The run before anything ran. -/
def createdRun : WorkflowRunState := smallRun [editStep, checkStep]

/-- The run with the attempt of `edit` reserved. -/
def reservedRun : WorkflowRunState :=
  { createdRun with
    steps := .ofList [("edit", editRecord .running), ("check", initialStepRecord checkStep)]
    attempts := [editAttempt .prepared none]
    events := [launchedEvent]
    eventSequence := 1
    updatedAt := "1" }

/-- The run with the attempt of `edit` running. -/
def markedRun : WorkflowRunState := { reservedRun with attempts := [editAttempt .running none] }

/-- The run once `edit` has succeeded. -/
def succeededRun : WorkflowRunState :=
  { markedRun with
    steps := .ofList [("edit", editRecord .succeeded), ("check", initialStepRecord checkStep)]
    attempts := [editAttempt .succeeded (some "c1")]
    events := [launchedEvent, ⟨2, "2", .stepSucceeded "edit" "edit-1" none⟩]
    eventSequence := 2
    updatedAt := "2" }

/-- What the engine read before it integrates `edit`. -/
def editTicket : IntegrationTicket := ⟨"edit", editAttempt .succeeded (some "c1"), "base"⟩

/-- A run with an engine process at a phase, nobody cancelling, and nothing integrated. -/
def engineAt (run : WorkflowRunState) (phase : Phase) (active : List ActiveStep) : World :=
  ⟨run, .engine ⟨phase, active, false⟩, 0, []⟩

section Scenario

variable (sha256Hex : String → String)

/-- The engine over the store the source uses. -/
def storedEngine : TransitionSystem World Action :=
  engineSystem PlanValidated (Accepts sha256Hex)

/-- The engine can be about to reserve the attempt of `edit`. -/
theorem createdRun_reachable :
    (storedEngine sha256Hex).Reachable
      (engineAt createdRun (.reserving (editAttempt .prepared none) []) []) := by
  have hcreated : (storedEngine sha256Hex).Reachable (engineAt createdRun .integrating []) :=
    .of_initial
      { input := ⟨smallInput [editStep, checkStep] 2, ⟨(smallPlan [editStep, checkStep]).toJson, rfl⟩,
          rfl⟩
        accepted := rfl, process := rfl, cancellers := rfl, branch := rfl }
  have hreturned : (storedEngine sha256Hex).Reachable (engineAt createdRun (.returned .running) []) :=
    hcreated.step_to (Step.move rfl (Moves.load rfl)) rfl
  have hqueue : (storedEngine sha256Hex).Reachable (engineAt createdRun (.dispatching ["edit"]) []) :=
    hreturned.step_to (Step.move rfl (Moves.dispatch rfl)) rfl
  have hpreparing : (storedEngine sha256Hex).Reachable
      (engineAt createdRun (.preparing ⟨"edit", .mutable, 1, "base"⟩ []) []) :=
    hqueue.step_to (Step.move rfl (Moves.launch rfl)) rfl
  exact hpreparing.step_to (Step.move rfl
    (@Moves.prepared _ _ _ _ _ _ "edit-1" (clock "1") editWorkspace rfl (by decide) (by decide))) rfl

/-- The attempt of `edit` is reserved. -/
theorem createdRun_reserves :
    (storedEngine sha256Hex).step
      (engineAt createdRun (.reserving (editAttempt .prepared none) []) [])
      (.write (.reserve (editAttempt .prepared none)))
      (engineAt reservedRun (.marking (editAttempt .prepared none) []) []) := by
  have hlaunchable : "edit" ∈ launchableStepIds createdRun := by decide
  have hreserve : (Transaction.reserve (editAttempt .prepared none)).apply (clock "1") createdRun =
      .ok reservedRun := rfl
  have haccepted : Accepts sha256Hex reservedRun := rfl
  exact Step.write (Issues.reserved rfl hlaunchable) hreserve fun _ => haccepted

/-- The attempt of `edit` can be reserved and about to be marked running. -/
theorem reservedRun_reachable :
    (storedEngine sha256Hex).Reachable
      (engineAt reservedRun (.marking (editAttempt .prepared none) []) []) :=
  (createdRun_reachable sha256Hex).step (createdRun_reserves sha256Hex)

/-- The integration of `edit` can be under way. -/
theorem succeededRun_reachable :
    (storedEngine sha256Hex).Reachable (engineAt succeededRun (.merging editTicket "c1") []) := by
  have hmark : (Transaction.markRunning "edit-1").apply (clock "1") reservedRun = .ok markedRun := rfl
  have haccepted : Accepts sha256Hex markedRun := rfl
  have hmarked : (storedEngine sha256Hex).Reachable
      (engineAt markedRun (.dispatching []) [⟨editAttempt .prepared none, .executing⟩]) :=
    (reservedRun_reachable sha256Hex).step_to
      (Step.write (Issues.markRunning rfl) hmark fun _ => haccepted) rfl
  have hdispatched : (storedEngine sha256Hex).Reachable
      (engineAt markedRun .dispatched [⟨editAttempt .prepared none, .executing⟩]) :=
    hmarked.step_to (Step.move rfl (Moves.dispatched rfl)) rfl
  have hwaiting : (storedEngine sha256Hex).Reachable
      (engineAt markedRun .waiting [⟨editAttempt .prepared none, .executing⟩]) :=
    hdispatched.step_to (Step.move rfl (Moves.wait rfl (List.cons_ne_nil _ _))) rfl
  have hsettle : (Transaction.settleStep "edit" (editAttempt .prepared none)
      ⟨.succeeded none none (some "c1") none, clock "2", false, none⟩ (.ok [])).apply (clock "2")
        markedRun = .ok succeededRun := rfl
  have haccepted' : Accepts sha256Hex succeededRun := rfl
  have hsettled : (storedEngine sha256Hex).Reachable
      (engineAt succeededRun .waiting [⟨editAttempt .prepared none, .resolved⟩]) :=
    hwaiting.step_to (Step.write (@Issues.settleStep _ _ _ _ [] [] _ _ _ rfl) hsettle
      fun _ => haccepted') rfl
  have hwoken : (storedEngine sha256Hex).Reachable (engineAt succeededRun .integrating []) :=
    hsettled.step_to (Step.move rfl (@Moves.wake _ _ _ _ [] [] _ rfl rfl)) rfl
  exact hwoken.step_to (Step.move rfl (Moves.load rfl)) rfl

end Scenario

end BuildConductor.Lifecycle
