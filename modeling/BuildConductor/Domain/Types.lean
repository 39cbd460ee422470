import BuildConductor.Domain.Json

/-!
# Domain vocabulary

The enumerations and plain records shared by plans, profiles and attempts.
`src/src/domain/types.ts`.
-/

namespace BuildConductor.Domain

/-- Upper bound on `maxConcurrentWorkers` of a stored run. -/
def maxConcurrentWorkersLimit : Nat := 4

/-- `src/src/domain/types.ts:33-41`. -/
inductive AttemptState
  | prepared | launched | running | validating | succeeded | failed | cancelled | interrupted
deriving DecidableEq, Repr

/-- An attempt that still occupies its step. `src/src/domain/types.ts:250-261`. -/
def AttemptState.isActive : AttemptState → Bool
  | .prepared | .launched | .running | .validating => true
  | .succeeded | .failed | .cancelled | .interrupted => false

/-- One executable invocation. `src/src/domain/types.ts:43-46`. -/
structure ValidationCommand where
  command : String
  args : List String
deriving DecidableEq, Repr

/-- The capabilities a step may hold. `src/src/domain/types.ts:53-59`. -/
inductive StepCapability
  | readRepository | mutateRepository | executeCommands
deriving DecidableEq, Repr

namespace StepCapability

/-- `STEP_CAPABILITIES`, in declaration order. -/
def all : List StepCapability := [readRepository, mutateRepository, executeCommands]

/-- The name a document uses. -/
def name : StepCapability → String
  | readRepository => "read-repository"
  | mutateRepository => "mutate-repository"
  | executeCommands => "execute-commands"

/-- The capability with a given name. -/
def ofName? (s : String) : Option StepCapability := all.find? fun c => c.name = s

@[simp] theorem ofName?_name (c : StepCapability) : ofName? c.name = some c := by
  cases c <;> decide

theorem name_of_ofName? {s : String} {c : StepCapability} (h : ofName? s = some c) :
    c.name = s := by
  simpa using List.find?_some h

end StepCapability

/-- `src/src/domain/types.ts:71-80`. -/
inductive CapabilityProfileName
  | investigation | change | command | approval | review | repair
deriving DecidableEq, Repr

namespace CapabilityProfileName

/-- `CAPABILITY_PROFILE_NAMES`, in declaration order. -/
def all : List CapabilityProfileName :=
  [investigation, change, command, approval, review, repair]

/-- The name a document uses. -/
def name : CapabilityProfileName → String
  | investigation => "investigation"
  | change => "change"
  | command => "command"
  | approval => "approval"
  | review => "review"
  | repair => "repair"

/-- The profile with a given name. -/
def ofName? (s : String) : Option CapabilityProfileName := all.find? fun p => p.name = s

@[simp] theorem ofName?_name (p : CapabilityProfileName) : ofName? p.name = some p := by
  cases p <;> decide

end CapabilityProfileName

/-- A frozen worker profile. Resource discovery and external effects admit a single value
each, so they carry no field. `src/src/domain/types.ts:64-69`. -/
structure CapabilityProfile where
  capabilities : List StepCapability
  tools : List String
deriving DecidableEq, Repr

/-- One profile per name. `src/src/domain/types.ts:82-85`. -/
structure RunCapabilityProfiles where
  investigation : CapabilityProfile
  change : CapabilityProfile
  command : CapabilityProfile
  approval : CapabilityProfile
  review : CapabilityProfile
  repair : CapabilityProfile
deriving DecidableEq, Repr

namespace RunCapabilityProfiles

/-- `profiles[name]`. -/
def get (profiles : RunCapabilityProfiles) : CapabilityProfileName → CapabilityProfile
  | .investigation => profiles.investigation
  | .change => profiles.change
  | .command => profiles.command
  | .approval => profiles.approval
  | .review => profiles.review
  | .repair => profiles.repair

/-- The profiles given by one rule for every name. -/
def ofFun (f : CapabilityProfileName → CapabilityProfile) : RunCapabilityProfiles :=
  ⟨f .investigation, f .change, f .command, f .approval, f .review, f .repair⟩

@[simp] theorem get_ofFun (f : CapabilityProfileName → CapabilityProfile)
    (name : CapabilityProfileName) : (ofFun f).get name = f name := by
  cases name <;> rfl

end RunCapabilityProfiles

/-- `src/src/domain/types.ts:87`. -/
inductive ValidationSandboxMode
  | none | nono
deriving DecidableEq, Repr

/-- `"host" | "blocked"`. -/
inductive ValidationNetwork
  | host | blocked
deriving DecidableEq, Repr

/-- `src/src/domain/types.ts:90-94`. -/
structure ValidationExecutionBoundary where
  sandbox : ValidationSandboxMode
  network : ValidationNetwork
deriving DecidableEq, Repr

/-- `src/src/domain/types.ts:129-133`. -/
structure ChangedFileEvidence where
  path : String
  status : String
  previousPath : Option String
deriving DecidableEq, Repr

/-- `src/src/domain/types.ts:135-145`. -/
structure ValidationCheckEvidence where
  command : String
  args : List String
  startedAt : String
  finishedAt : String
  exitCode : Option Int
  stdoutTail : String
  stderrTail : String
  passed : Bool
  executionBoundary : Option ValidationExecutionBoundary
deriving DecidableEq, Repr

/-- The focused checks behind one commit. `src/src/domain/types.ts:147-154`. -/
structure TaskValidationEvidence where
  startedAt : String
  finishedAt : String
  passed : Bool
  changedFiles : List ChangedFileEvidence
  diffHash : String
  checks : List ValidationCheckEvidence
deriving DecidableEq, Repr

/-- An ISO time stamp; the clock never returns an empty one. -/
structure Timestamp where
  text : String
  nonempty : text ≠ ""
deriving DecidableEq

/-- A property spread only when it is truthy: an empty string counts as absent. -/
def present (value : Option String) : Option String := value.filter (· ≠ "")

/-- A present property is never empty. -/
theorem present_ne_empty {value : Option String} {s : String} (h : present value = some s) :
    s ≠ "" := by
  unfold present at h
  rw [Option.filter_eq_some_iff] at h
  simpa using h.2

end BuildConductor.Domain
