import BuildConductor.Engine.WorkflowState

/-!
# Step outcomes and their classification

What a handler reports about one execution and whether an unsuccessful step may run
again. `src/src/engine/handlers.ts:56-83`, `src/src/engine/retry.ts`.
-/

namespace BuildConductor.Engine

open Domain

/-- What a handler reports, with the artifacts already routed. `src/src/engine/handlers.ts:56-83`. -/
inductive StepOutcome
  | succeeded (summary workerId commit : Option String) (evidence : Option TaskValidationEvidence)
  | failed (error : String) (workerId : Option String) (retryable : Option Bool)
  | cancelled (error : String) (workerId : Option String)
deriving DecidableEq

/-- `outcome.workerId`. -/
def StepOutcome.workerId : StepOutcome → Option String
  | succeeded _ workerId _ _ => workerId
  | failed _ workerId _ => workerId
  | cancelled _ workerId => workerId

/-- The result of one execution. `src/src/engine/executor.ts:58-65`. -/
structure StepExecutionResult where
  outcome : StepOutcome
  finishedAt : Timestamp
  timedOut : Bool
  workspaceReleaseError : Option String

/-- `src/src/engine/retry.ts:10-13`. -/
structure StepFailureClassification where
  failureClass : StepFailureClass
  reason : String
deriving DecidableEq, Repr

/-- The plural ending of a count. -/
def pluralSuffix (count : Nat) : String := if count = 1 then "" else "s"

/-- The classification of an unsuccessful outcome, none for a successful one.
`src/src/engine/retry.ts:22-51`. -/
def classifyStepFailure (outcome : StepOutcome) (timedOut : Bool) (attemptNumber maxAttempts : Nat) :
    Option StepFailureClassification :=
  match outcome with
  | .succeeded _ _ _ _ => none
  | .cancelled _ _ => some ⟨.terminal, "the step was cancelled"⟩
  | .failed _ _ retryable =>
    if retryable = some false then
      some ⟨.terminal, "the failure cannot be resolved by running the step again"⟩
    else if maxAttempts ≤ attemptNumber then
      some ⟨.terminal,
        s!"the retry budget of {maxAttempts} attempt{pluralSuffix maxAttempts} is exhausted"⟩
    else
      some ⟨.retryable,
        if timedOut then
          s!"the step timed out with {maxAttempts - attemptNumber} attempt(s) remaining"
        else s!"the step failed with {maxAttempts - attemptNumber} attempt(s) remaining"⟩

/-- The attempt state an outcome settles to. `src/src/engine/engine.ts:441-446`. -/
def StepOutcome.attemptState : StepOutcome → AttemptState
  | succeeded _ _ _ _ => .succeeded
  | failed _ _ _ => .failed
  | cancelled _ _ => .cancelled

/-- The step state an outcome settles to, when it is not retried. `src/src/engine/engine.ts:470-475`. -/
def StepOutcome.stepState : StepOutcome → StepRunState
  | succeeded _ _ _ _ => .succeeded
  | failed _ _ _ => .failed
  | cancelled _ _ => .cancelled

/-- How routing the artifacts of a successful step can fail: a declared-output violation is
permanent, any other error is not. `src/src/engine/engine.ts:424-436`. -/
inductive RoutingFailure
  | violation (message : String)
  | other (message : String)

/-- The outcome after routing: a step whose outputs could not be stored has failed.
`src/src/engine/engine.ts:415-437`. -/
def routedOutcome (outcome : StepOutcome) (routing : Except RoutingFailure (List ArtifactSummary)) :
    StepOutcome × List ArtifactSummary :=
  match outcome, routing with
  | .succeeded _ _ _ _, .ok summaries => (outcome, summaries)
  | .succeeded _ _ _ _, .error (.violation message) => (.failed message none (some false), [])
  | .succeeded _ _ _ _, .error (.other message) => (.failed message none (some true), [])
  | _, _ => (outcome, [])

end BuildConductor.Engine
