import BuildConductor.Domain.Steps
import BuildConductor.Security.Policy
import BuildConductor.Storage.RunRecords

/-!
# Running validation commands

Both validators run the approved commands one after another and stop at the first that does not
pass, so what they record is the commands in order. `src/src/validation/task-validator.ts:186-215`,
`src/src/validation/final-validator.ts:83-128`.
-/

namespace BuildConductor.Validation

open Base Domain Security Storage

/-- What a command ends with. `src/src/validation/command-runner.ts:12-19`. -/
structure ProcessResult where
  exitCode : Option Int
  stdoutTail : String
  stderrTail : String
  timedOut : Bool
  aborted : Bool

/-- `src/src/validation/task-validator.ts:196-197`. -/
def ProcessResult.passed (result : ProcessResult) : Bool :=
  result.exitCode = some 0 && !result.timedOut && !result.aborted

/-- The boundary a command runs inside. `src/src/validation/command-runner.ts:177-183`. -/
def executionBoundary (policy : Option ValidationBoundary) : ValidationExecutionBoundary :=
  match policy with
  | some policy => ⟨policy.sandbox, policy.network⟩
  | none => ⟨.none, .host⟩

/-- The check of a command. `src/src/validation/task-validator.ts:198-208`. -/
def checkEvidence (policy : Option ValidationBoundary) (command : ValidationCommand)
    (result : ProcessResult) (startedAt finishedAt : String) : ValidationCheckEvidence where
  command := command.command
  args := command.args
  startedAt
  finishedAt
  exitCode := result.exitCode
  stdoutTail := result.stdoutTail
  stderrTail := result.stderrTail
  passed := result.passed
  executionBoundary := some (executionBoundary policy)

/-- What happens while some commands run, by the position of each. -/
structure SuiteReading where
  execute : Nat → ValidationCommand → Except String ProcessResult
  startedAt : Nat → String
  finishedAt : Nat → String

/-- How a validator words its failures, and what it looks at after each command. -/
structure SuiteRules where
  aborted : String
  timedOut : String
  failed : String
  afterCommand : Nat → ValidationCommand → Except String Unit

/-- How a suite ends early: with a check that did not pass, or a command that could not be run. -/
inductive SuiteFailure
  | failed (message : String) (checks : List ValidationCheckEvidence)
  | thrown (message : String)

/-- Why a command did not pass. `src/src/validation/task-validator.ts:209-213`. -/
def failureReason (rules : SuiteRules) (command : ValidationCommand) (result : ProcessResult) :
    String :=
  if result.aborted then rules.aborted
  else if result.timedOut then rules.timedOut
  else s!"{rules.failed}: {command.command} " ++ String.intercalate " " command.args

section Suite

variable (rules : SuiteRules) (policy : Option ValidationBoundary) (reading : SuiteReading)

/-- The commands from a position on. -/
def runCommands (index : Nat) (checks : List ValidationCheckEvidence) :
    List ValidationCommand → Except SuiteFailure (List ValidationCheckEvidence)
  | [] => .ok checks
  | command :: rest =>
    match reading.execute index command with
    | .error message => .error (.thrown message)
    | .ok result =>
      let checks := checks ++ [checkEvidence policy command result (reading.startedAt index)
        (reading.finishedAt index)]
      if result.passed then
        match rules.afterCommand index command with
        | .error message => .error (.failed message checks)
        | .ok () => runCommands (index + 1) checks rest
      else .error (.failed (failureReason rules command result) checks)

/-- The check records a command. -/
structure Records (approved : ValidationCommand) (check : ValidationCheckEvidence) : Prop where
  command : check.command = approved.command
  args : check.args = approved.args
  boundary : check.executionBoundary = some (executionBoundary policy)

variable {rules policy reading}

private theorem records_checkEvidence (policy : Option ValidationBoundary)
    (command : ValidationCommand) (result : ProcessResult) (startedAt finishedAt : String) :
    Records policy command (checkEvidence policy command result startedAt finishedAt) :=
  ⟨rfl, rfl, rfl⟩

/-- A suite that ends well ran every command, each of them passed, and nothing was amiss after
any. -/
theorem runCommands_ok {commands : List ValidationCommand} {index : Nat}
    {checks all : List ValidationCheckEvidence}
    (h : runCommands rules policy reading index checks commands = .ok all) :
    ∃ new, all = checks ++ new ∧
      List.Forall₂ (fun command check => Records policy command check ∧ check.passed = true)
        commands new ∧
      ∀ k command, commands[k]? = some command → rules.afterCommand (index + k) command = .ok () := by
  induction commands generalizing index checks with
  | nil =>
    cases h
    exact ⟨[], (List.append_nil _).symm, .nil, nofun⟩
  | cons command rest ih =>
    unfold runCommands at h
    split at h
    · cases h
    · next result hresult =>
      dsimp only at h
      split at h
      · next hpassed =>
        split at h
        · cases h
        · next hafter =>
          obtain ⟨new, hall, hrecords, hrest⟩ := ih h
          have hcheck := And.intro (records_checkEvidence policy command result
            (reading.startedAt index) (reading.finishedAt index)) hpassed
          refine ⟨_, ?_, .cons hcheck hrecords, ?_⟩
          · rw [hall, List.append_assoc, List.singleton_append]
          · intro k other hother
            cases k with
            | zero =>
              cases hother
              exact hafter
            | succ k =>
              rw [Nat.add_succ, ← Nat.succ_add]
              exact hrest k other hother
      · cases h

/-- A suite that fails recorded the commands up to the one it stopped at. -/
theorem runCommands_failed {commands : List ValidationCommand} {index : Nat} {message : String}
    {checks all : List ValidationCheckEvidence}
    (h : runCommands rules policy reading index checks commands = .error (.failed message all)) :
    ∃ pre command post new last, commands = pre ++ command :: post ∧ all = checks ++ new ++ [last] ∧
      List.Forall₂ (fun command check => Records policy command check ∧ check.passed = true)
        pre new ∧
      Records policy command last ∧
      (last.passed = false ∨ rules.afterCommand (index + pre.length) command = .error message) := by
  induction commands generalizing index checks with
  | nil => cases h
  | cons command rest ih =>
    unfold runCommands at h
    split at h
    · cases h
    · next result hresult =>
      dsimp only at h
      split at h
      · next hpassed =>
        split at h
        · next hafter =>
          cases h
          exact ⟨[], command, rest, [], _, rfl, by rw [List.append_nil], .nil, ⟨rfl, rfl, rfl⟩,
            Or.inr hafter⟩
        · next hafter =>
          obtain ⟨pre, stopped, post, new, last, hrest, hall, hrecords, hlast, hwhy⟩ := ih h
          have hcheck := And.intro (records_checkEvidence policy command result
            (reading.startedAt index) (reading.finishedAt index)) hpassed
          refine ⟨command :: pre, stopped, post, _ :: new, last, ?_, ?_, .cons hcheck hrecords, hlast,
            ?_⟩
          · rw [hrest, List.cons_append]
          · rw [hall]
            simp only [List.append_assoc, List.cons_append, List.nil_append]
          · rw [List.length_cons, Nat.add_succ, ← Nat.succ_add]
            exact hwhy
      · next hfailed =>
        cases h
        rw [Bool.not_eq_true] at hfailed
        exact ⟨[], command, rest, [], _, rfl, by rw [List.append_nil], .nil, ⟨rfl, rfl, rfl⟩,
          Or.inl hfailed⟩

end Suite

/-- Checks that record passed commands prove them to the store. -/
theorem provesCommands_of_records {policy : Option ValidationBoundary}
    {commands : List ValidationCommand} {checks : List ValidationCheckEvidence}
    (h : List.Forall₂ (fun command check => Records policy command check ∧ check.passed = true)
      commands checks) : RunStore.provesCommands commands checks = true := by
  unfold RunStore.provesCommands
  rw [decide_eq_true_eq]
  refine ⟨h.length_eq.symm, ?_⟩
  rw [List.all_eq_true]
  rintro ⟨check, command⟩ hpair
  rw [decide_eq_true_eq]
  have hrelated := List.forall₂_zip h.flip hpair
  exact ⟨hrelated.2, hrelated.1.command, hrelated.1.args⟩

end BuildConductor.Validation
