import BuildConductor.Security.Capabilities

/-!
# Workspace requirements

How much repository access a step needs, derived from its frozen capability profile,
and what a provider hands out for it. `src/src/engine/workspaces.ts`.
-/

namespace BuildConductor.Engine

open Domain Security

/-- `src/src/engine/workspaces.ts:15`. -/
inductive WorkspaceRequirement
  | none | readOnly | mutable
deriving DecidableEq, Repr

/-- The name stored for a requirement. -/
def WorkspaceRequirement.name : WorkspaceRequirement → String
  | .none => "none"
  | .readOnly => "read-only"
  | .mutable => "mutable"

/-- `src/src/engine/workspaces.ts:23-30`. -/
def workspaceRequirementFor (profile : CapabilityProfile) : WorkspaceRequirement :=
  if StepCapability.mutateRepository ∈ profile.capabilities then .mutable
  else if profile.capabilities = [] then .none
  else .readOnly

/-- `src/src/engine/workspaces.ts:32-37`. -/
def stepWorkspaceRequirement (profiles : RunCapabilityProfiles) (step : StepDefinition) :
    WorkspaceRequirement :=
  workspaceRequirementFor (stepCapabilityProfile profiles step)

/-- `src/src/engine/workspaces.ts:43-48`. -/
def stepConsumesWorkerSlot (profiles : RunCapabilityProfiles) (step : StepDefinition) : Bool :=
  stepWorkspaceRequirement profiles step ≠ .none

/-- `src/src/engine/workspaces.ts:51-56`. -/
def stepRequiresIntegration (profiles : RunCapabilityProfiles) (step : StepDefinition) : Bool :=
  stepWorkspaceRequirement profiles step = .mutable

/-- The workspace a provider acquired for a requirement: a path exactly when there is a
workspace, a branch exactly when it is mutable, and the requested start point as its base.
`src/src/engine/workspaces.ts:66-72`. -/
structure Workspace (requirement : WorkspaceRequirement) (startPoint : String) where
  path : String
  branch : Option String
  path_empty_iff : path = "" ↔ requirement = .none
  branch_isSome_iff : branch.isSome ↔ requirement = .mutable
  branch_ne_empty : branch ≠ some ""

/-- `workspace.baseCommit`: every provider starts at the requested point. -/
def Workspace.baseCommit {requirement : WorkspaceRequirement} {startPoint : String}
    (_workspace : Workspace requirement startPoint) : String := startPoint

/-- The branch spread into an attempt is the provider's branch. -/
theorem Workspace.present_branch {requirement : WorkspaceRequirement} {startPoint : String}
    (workspace : Workspace requirement startPoint) : present workspace.branch = workspace.branch := by
  have hne := workspace.branch_ne_empty
  cases hbranch : workspace.branch with
  | none => rfl
  | some branch =>
    rw [hbranch] at hne
    simpa [present, Option.filter] using hne

end BuildConductor.Engine
