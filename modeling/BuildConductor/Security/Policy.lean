import BuildConductor.Domain.Paths
import BuildConductor.Security.Capabilities

/-!
# The security policy of a run

The boundary workers and checks run inside, and the checks on a stored policy. Fields whose type
admits one value carry no data. `src/src/domain/types.ts:103-127`, `src/src/security/policy.ts`.
-/

namespace BuildConductor.Security

open Base Domain

/-- `src/src/domain/types.ts:104-109`. Version 2 freezes capability profiles. -/
inductive PolicyVersion
  | v1 | v2
deriving DecidableEq, Repr

/-- `"configured" | "legacy-migrated"`. -/
inductive PolicySource
  | configured | legacyMigrated
deriving DecidableEq, Repr

/-- `src/src/domain/types.ts:114-117`. -/
inductive ToolPolicy
  | serverAllowlist | orchestratorAllowlist | legacyUnrestricted
deriving DecidableEq, Repr

/-- `"disabled" | "host"`. -/
inductive ResourceDiscovery
  | disabled | host
deriving DecidableEq, Repr

/-- `src/src/domain/types.ts:242`. -/
inductive BlockedWorkerPolicy
  | decline | cancel
deriving DecidableEq, Repr

/-- `RunSecurityPolicy.workers`. -/
structure WorkerBoundary where
  toolPolicy : ToolPolicy
  resourceDiscovery : ResourceDiscovery
  uiPolicy : BlockedWorkerPolicy
  capabilityProfiles : Option RunCapabilityProfiles
deriving DecidableEq, Repr

/-- `RunSecurityPolicy.validation`. -/
structure ValidationBoundary where
  sandbox : ValidationSandboxMode
  network : ValidationNetwork
  sandboxExecutable : Option String
deriving DecidableEq, Repr

/-- `src/src/domain/types.ts:103-127`. -/
structure RunSecurityPolicy where
  version : PolicyVersion
  source : PolicySource
  workers : WorkerBoundary
  validation : ValidationBoundary
deriving DecidableEq, Repr

/-- `isWorkerAllowlistPolicy`. `src/src/security/policy.ts:34-38`. -/
def ToolPolicy.isAllowlist : ToolPolicy → Bool
  | .serverAllowlist | .orchestratorAllowlist => true
  | .legacyUnrestricted => false

/-- The policy new runs freeze. `src/src/security/policy.ts:82-106`. -/
def configuredPolicy (uiPolicy : BlockedWorkerPolicy) (validation : ValidationBoundary) :
    RunSecurityPolicy :=
  { version := .v2
    source := .configured
    workers := ⟨.serverAllowlist, .disabled, uiPolicy, some defaultCapabilityProfiles⟩
    validation }

/-- `src/src/security/policy.ts:283-298`. -/
def assertValidationBoundary (boundary : ValidationBoundary) (path : String) :
    Except String Unit :=
  match boundary.sandbox with
  | .nono =>
    ensure ((boundary.sandboxExecutable.map posixIsAbsolute).getD false ∧
        boundary.network = .blocked)
      s!"{path}.validation Nono sandbox requires an absolute executable and blocked network"
  | .none =>
    ensure (boundary.sandboxExecutable = none ∧ boundary.network = .host)
      s!"{path}.validation unsandboxed mode requires host network and no sandbox executable"

/-- The checks on values of a stored policy. `src/src/security/policy.ts:210-300`. -/
def assertRunSecurityPolicy (policy : RunSecurityPolicy) (path : String) : Except String Unit := do
  ensure (policy.workers.toolPolicy.isAllowlist = true ↔
      policy.workers.resourceDiscovery = .disabled)
    s!"{path}.workers contains a contradictory tool policy"
  match policy.version with
  | .v2 => do
    let profiles ← require policy.workers.capabilityProfiles
      s!"{path}.workers.capabilityProfiles must be an object"
    assertCapabilityProfiles profiles s!"{path}.workers.capabilityProfiles"
  | .v1 =>
    ensure (policy.workers.capabilityProfiles = none)
      s!"{path}.workers.capabilityProfiles requires policy version 2"
  assertValidationBoundary policy.validation path

end BuildConductor.Security
