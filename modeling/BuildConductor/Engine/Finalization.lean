import BuildConductor.Engine.WorkflowState
import BuildConductor.Domain.DagOrder
import BuildConductor.Git.History

/-!
# Finalization of a completed run

The commits the workflow contributed, recomputed from the step records. `src/src/engine/finalization.ts`.
-/

namespace BuildConductor.Engine

open Base Domain Git

/-- The last succeeded attempt among those a step lists. `src/src/engine/finalization.ts:74-78`. -/
def succeededAttemptOf (state : WorkflowRunState) (attemptIds : List String) :
    Option WorkflowStepAttempt :=
  state.attempts.findRev? fun candidate => candidate.id ∈ attemptIds && candidate.state = .succeeded

/-- What one step contributed, if it was integrated with a commit. `src/src/engine/finalization.ts:66-91`. -/
def integratedStepEvidence (state : WorkflowRunState) (stepId : String) :
    Except String (Option IntegratedCommitEvidence) :=
  match state.steps.get? stepId with
  | none => pure none
  | some record =>
    if stepRequiresIntegration state.capabilityProfiles record.definition = false then pure none
    else
      match present record.integratedCommit with
      | none => pure none
      | some integratedCommit => do
        let attempt ← require (succeededAttemptOf state record.attemptIds)
          s!"Integrated step {stepId} has no successful attempt"
        pure ((present attempt.commit).map fun sourceCommit =>
          { kind := if stepProfileName record.definition = .repair then .repair else .task
            id := stepId
            sourceCommit
            integratedCommit })

/-- Every commit the workflow contributed, in integration order. `src/src/engine/finalization.ts:61-93`. -/
def integratedCommitEvidence (state : WorkflowRunState) :
    Except String (List IntegratedCommitEvidence) := do
  let evidence ← (topologicalStepIds state.plan).mapM (integratedStepEvidence state)
  pure (evidence.filterMap id)

/-- What finalization asks git to verify. `src/src/engine/finalization.ts:291-299`. -/
def mergeReadyHistoryInput (state : WorkflowRunState) (commits : List IntegratedCommitEvidence) :
    VerifyMergeReadyHistoryInput where
  integrationBranch := state.integrationBranch
  integrationHead := state.integrationHead
  baseBranch := state.baseBranch
  baseCommit := state.baseCommit
  commits

end BuildConductor.Engine
