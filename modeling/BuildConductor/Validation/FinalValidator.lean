import BuildConductor.Review.MergeReadiness
import BuildConductor.Validation.Suites
import BuildConductor.Git.TaskCommits

/-!
# The final validator

The approved suite at the integrated head, in a detached worktree that is verified before the first
command and again behind every one. `src/src/validation/final-validator.ts`.
-/

namespace BuildConductor.Validation

open Base Domain Engine Git Review Security Storage

/-- What happens while the final suite runs: the worktree before it and behind each command. -/
structure FinalSuiteReading where
  before : DetachedReading
  suite : SuiteReading
  after : Nat → DetachedReading
  startedAt : String
  finishedAt : String

/-- How the final suite ends. A `FinalValidationError` carries its evidence. -/
inductive FinalSuiteEnd
  | passed (evidence : FinalValidationEvidence)
  | failed (message : String) (evidence : FinalValidationEvidence)
  | thrown (message : String)

/-- What finalization makes of it. `src/src/engine/finalization.ts:268-275`. -/
def FinalSuiteEnd.answer : FinalSuiteEnd → FinalValidationAnswer
  | passed evidence => .passed evidence
  | failed _ evidence => .failed evidence
  | thrown message => .thrown message

section Validate

variable (commandTimeoutMs : Nat) (policy : Option ValidationBoundary) (integrationCommit : String)
  (commands : List ValidationCommand) (reading : FinalSuiteReading)

/-- The worktree is verified behind every command. `src/src/validation/final-validator.ts:104-126`. -/
def finalSuiteRules : SuiteRules where
  aborted := "Final validation aborted"
  timedOut := s!"Final validation command timed out after {commandTimeoutMs}ms"
  failed := "Final validation command failed"
  afterCommand index command :=
    (verifyDetachedWorktree (reading.after index) integrationCommit).mapError fun _ =>
      s!"Final validation command modified the worktree: {command.command}"

/-- The evidence of some checks. -/
def finalEvidence (passed : Bool) (checks : List ValidationCheckEvidence) :
    FinalValidationEvidence :=
  ⟨reading.startedAt, reading.finishedAt, passed, checks⟩

/-- `src/src/validation/final-validator.ts:63-133`. -/
def validateFinal : FinalSuiteEnd :=
  match verifyDetachedWorktree reading.before integrationCommit with
  | .error _ =>
    .failed "Final validation worktree is not clean at the expected commit"
      (finalEvidence reading false [])
  | .ok () =>
    match runCommands (finalSuiteRules commandTimeoutMs integrationCommit reading) policy
        reading.suite 0 [] commands with
    | .error (.thrown message) => .thrown message
    | .error (.failed message checks) => .failed message (finalEvidence reading false checks)
    | .ok checks => .passed (finalEvidence reading true checks)

end Validate

/-! ## What the evidence says -/

/-- The suite passed at a commit: the worktree was clean there before the first command and behind
every one, and the checks are those of the commands, in order. -/
structure SuiteProves (policy : Option ValidationBoundary) (integrationCommit : String)
    (commands : List ValidationCommand) (reading : FinalSuiteReading)
    (checks : List ValidationCheckEvidence) : Prop where
  before : CleanAt reading.before integrationCommit
  after : ∀ k < commands.length, CleanAt (reading.after k) integrationCommit
  checks : List.Forall₂ (fun command check => Records policy command check ∧ check.passed = true)
    commands checks

/-- The suite stopped: at once in a worktree that was not clean, or at the command of the last check,
which did not pass or left the worktree changed. -/
def SuiteStops (policy : Option ValidationBoundary) (integrationCommit : String)
    (commands : List ValidationCommand) (reading : FinalSuiteReading)
    (checks : List ValidationCheckEvidence) : Prop :=
  (checks = [] ∧ ¬ CleanAt reading.before integrationCommit) ∨
    ∃ pre command post passed last, commands = pre ++ command :: post ∧ checks = passed ++ [last] ∧
      List.Forall₂ (fun command check => Records policy command check ∧ check.passed = true)
        pre passed ∧
      Records policy command last ∧
      (last.passed = false ∨ ¬ CleanAt (reading.after pre.length) integrationCommit)

section Ends

variable {commandTimeoutMs : Nat} {policy : Option ValidationBoundary} {integrationCommit : String}
  {commands : List ValidationCommand} {reading : FinalSuiteReading}

private theorem afterCommand_ok_iff {index : Nat} {command : ValidationCommand} :
    (finalSuiteRules commandTimeoutMs integrationCommit reading).afterCommand index command = .ok () ↔
      CleanAt (reading.after index) integrationCommit := by
  rw [← verifyDetachedWorktree_ok_iff]
  show (verifyDetachedWorktree (reading.after index) integrationCommit).mapError _ = .ok () ↔ _
  cases verifyDetachedWorktree (reading.after index) integrationCommit with
  | error message => exact iff_of_false (by simp [Except.mapError]) (by simp)
  | ok answer => exact iff_of_true rfl rfl

theorem validateFinal_passed {evidence : FinalValidationEvidence}
    (h : validateFinal commandTimeoutMs policy integrationCommit commands reading =
      .passed evidence) :
    evidence.passed = true ∧
      SuiteProves policy integrationCommit commands reading evidence.checks := by
  unfold validateFinal at h
  split at h
  · cases h
  next hbefore =>
  split at h
  · cases h
  · cases h
  next checks hchecks =>
  cases h
  obtain ⟨new, hnew, hrecords, hafter⟩ := runCommands_ok hchecks
  rw [List.nil_append] at hnew
  refine ⟨rfl, verifyDetachedWorktree_ok_iff.mp hbefore, ?_, ?_⟩
  · intro k hk
    have hclean := hafter k commands[k] (List.getElem?_eq_getElem hk)
    rw [Nat.zero_add] at hclean
    exact afterCommand_ok_iff.mp hclean
  · show List.Forall₂ _ commands checks
    rw [hnew]
    exact hrecords

/-- Evidence is dated when its suite ran. -/
theorem validateFinal_times {evidence : FinalValidationEvidence}
    (h : validateFinal commandTimeoutMs policy integrationCommit commands reading =
      .passed evidence) :
    evidence.startedAt = reading.startedAt ∧ evidence.finishedAt = reading.finishedAt := by
  unfold validateFinal at h
  split at h
  · cases h
  split at h
  · cases h
  · cases h
  cases h
  exact ⟨rfl, rfl⟩

theorem validateFinal_failed {message : String} {evidence : FinalValidationEvidence}
    (h : validateFinal commandTimeoutMs policy integrationCommit commands reading =
      .failed message evidence) :
    evidence.passed = false ∧
      SuiteStops policy integrationCommit commands reading evidence.checks := by
  unfold validateFinal at h
  split at h
  · next hbefore =>
    cases h
    refine ⟨rfl, Or.inl ⟨rfl, fun hclean => ?_⟩⟩
    rw [verifyDetachedWorktree_ok_iff.mpr hclean] at hbefore
    cases hbefore
  split at h
  · cases h
  · next checks hchecks =>
    cases h
    obtain ⟨pre, command, post, passed, last, hcommands, hall, hrecords, hlast, hwhy⟩ :=
      runCommands_failed hchecks
    rw [List.nil_append] at hall
    refine ⟨rfl, Or.inr ⟨pre, command, post, passed, last, hcommands, hall, hrecords, hlast, ?_⟩⟩
    refine hwhy.imp_right fun hafter hclean => ?_
    rw [Nat.zero_add, afterCommand_ok_iff.mpr hclean] at hafter
    cases hafter
  · cases h

end Ends

/-! ## Finalization with the validator -/

/-- Finalization runs the validator under the frozen policy. `src/src/engine/finalization.ts:259-267`. -/
def ValidatesLocally (commandTimeoutMs : Nat) (reading : String → FinalSuiteReading)
    (dependencies : WorkflowFinalizationDependencies) : Prop :=
  ∀ worktreePath integrationCommit commands,
    dependencies.validate worktreePath integrationCommit commands =
      (validateFinal commandTimeoutMs (some dependencies.securityPolicy.validation)
        integrationCommit commands (reading worktreePath)).answer

/-- What the result of a finalization says about its suite. -/
structure SpeaksForHead (dependencies : WorkflowFinalizationDependencies) (state : WorkflowRunState)
    (reading : String → FinalSuiteReading) (result : WorkflowFinalizationResult) : Prop where
  /-- Passed evidence proves every approved command at the head, and the store takes it as such. -/
  passed : ∀ evidence, result.evidence = some evidence → evidence.passed = true →
    ∃ worktreePath, result.worktreePath = some worktreePath ∧
      SuiteProves (some dependencies.securityPolicy.validation) state.integrationHead
        state.plan.finalValidationCommands (reading worktreePath) evidence.checks ∧
      RunStore.provesCommands state.plan.finalValidationCommands evidence.checks = true
  /-- Failed evidence ends at what stopped the suite. -/
  failed : ∀ evidence, result.evidence = some evidence → evidence.passed = false →
    result.mergeReady = none ∧ ∃ worktreePath, result.worktreePath = some worktreePath ∧
      SuiteStops (some dependencies.securityPolicy.validation) state.integrationHead
        state.plan.finalValidationCommands (reading worktreePath) evidence.checks
  /-- A merge is offered only with the checks of evidence that passed. -/
  ready : ∀ ready, result.mergeReady = some ready → ∃ evidence, result.evidence = some evidence ∧
    evidence.passed = true ∧ ready.finalChecks = evidence.checks

section Finalization

variable {commandTimeoutMs : Nat} {reading : String → FinalSuiteReading}
  {dependencies : WorkflowFinalizationDependencies} {state : WorkflowRunState}

private theorem runFinalSuite_local (hlocal : ValidatesLocally commandTimeoutMs reading dependencies)
    {worktreePath : String} {evidence : FinalValidationEvidence}
    (h : runFinalSuite dependencies state = .ok (worktreePath, evidence)) :
    (evidence.passed = true ∧ SuiteProves (some dependencies.securityPolicy.validation)
      state.integrationHead state.plan.finalValidationCommands (reading worktreePath)
      evidence.checks) ∨
    (evidence.passed = false ∧ SuiteStops (some dependencies.securityPolicy.validation)
      state.integrationHead state.plan.finalValidationCommands (reading worktreePath)
      evidence.checks) := by
  unfold runFinalSuite at h
  rw [bind_ok_iff] at h
  obtain ⟨path, -, h⟩ := h
  dsimp only at h
  rw [seq_ok_iff, hlocal] at h
  obtain ⟨-, h⟩ := h
  cases hend : validateFinal commandTimeoutMs (some dependencies.securityPolicy.validation)
      state.integrationHead state.plan.finalValidationCommands (reading path) with
  | passed found =>
    rw [hend] at h
    cases h
    exact Or.inl (validateFinal_passed hend)
  | failed message found =>
    rw [hend] at h
    cases h
    exact Or.inr (validateFinal_failed hend)
  | thrown message =>
    rw [hend] at h
    cases h

/-- A suite that passed is the validator's, at the head. -/
theorem runFinalSuite_passed (hlocal : ValidatesLocally commandTimeoutMs reading dependencies)
    {worktreePath : String} {evidence : FinalValidationEvidence}
    (h : runFinalSuite dependencies state = .ok (worktreePath, evidence))
    (hpassed : evidence.passed ≠ false) :
    validateFinal commandTimeoutMs (some dependencies.securityPolicy.validation)
      state.integrationHead state.plan.finalValidationCommands (reading worktreePath) =
        .passed evidence := by
  unfold runFinalSuite at h
  rw [bind_ok_iff] at h
  obtain ⟨path, -, h⟩ := h
  dsimp only at h
  rw [seq_ok_iff, hlocal] at h
  obtain ⟨-, h⟩ := h
  cases hend : validateFinal commandTimeoutMs (some dependencies.securityPolicy.validation)
      state.integrationHead state.plan.finalValidationCommands (reading path) with
  | passed found =>
    rw [hend] at h
    cases h
    exact hend
  | failed message found =>
    rw [hend] at h
    cases h
    exact absurd (validateFinal_failed hend).1 hpassed
  | thrown message =>
    rw [hend] at h
    cases h

private theorem speaksForHead_of_gap {result : WorkflowFinalizationResult}
    (hevidence : result.evidence = none) (hready : result.mergeReady = none) :
    SpeaksForHead dependencies state reading result := by
  refine ⟨?_, ?_, ?_⟩
  · intro evidence hsome
    rw [hevidence] at hsome
    cases hsome
  · intro evidence hsome
    rw [hevidence] at hsome
    cases hsome
  · intro ready hsome
    rw [hready] at hsome
    cases hsome

end Finalization

/-- A worktree that stays clean, and a command that passes. -/
def cleanSuite : FinalSuiteReading where
  before := ⟨.ok "base", .ok "HEAD", .ok ""⟩
  suite := ⟨fun _ _ => .ok ⟨some 0, "", "", false, false⟩, fun _ => "1", fun _ => "2"⟩
  after _ := ⟨.ok "base", .ok "HEAD", .ok ""⟩
  startedAt := "0"
  finishedAt := "3"

/-- The reviewed run, with the validator. -/
def localDependencies : WorkflowFinalizationDependencies :=
  { reviewedDependencies with
    validate := fun _ integrationCommit commands =>
      (validateFinal 1000 (some reviewedDependencies.securityPolicy.validation) integrationCommit
        commands cleanSuite).answer }

example : (validateFinal 1000 none "base" [⟨"true", []⟩]
    { cleanSuite with after := fun _ => ⟨.ok "base", .ok "HEAD", .ok "?? build"⟩ }).answer =
      .failed ⟨"0", "3", false, [⟨"true", [], "1", "2", some 0, "", "", true, some ⟨.none, .host⟩⟩]⟩ :=
  rfl

end BuildConductor.Validation
