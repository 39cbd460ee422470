import BuildConductor.Base.Checks
import BuildConductor.Domain.Steps

/-!
# Capability profiles

The tools behind each capability, the profile a capability set derives, and the
narrowing of a frozen profile to what a step declared. `src/src/security/capabilities.ts`.
-/

namespace BuildConductor.Security

open Base Domain

/-- `CAPABILITY_TOOLS`. `src/src/security/capabilities.ts:21-25`. -/
def capabilityTools : StepCapability → List String
  | .readRepository => ["read", "grep", "find", "ls"]
  | .executeCommands => ["bash"]
  | .mutateRepository => ["edit", "write"]

/-- `CAPABILITY_ORDER`. `src/src/security/capabilities.ts:29-33`. -/
def capabilityOrder : List StepCapability := [.readRepository, .executeCommands, .mutateRepository]

/-- `src/src/security/capabilities.ts:35-43`. -/
def toolCapability (tool : String) : Option StepCapability :=
  capabilityOrder.find? fun capability => tool ∈ capabilityTools capability

/-- `src/src/security/capabilities.ts:45-50`. -/
def orderedCapabilities (capabilities : List StepCapability) : List StepCapability :=
  capabilityOrder.filter (· ∈ capabilities)

/-- The least profile granting exactly these capabilities. The unknown-capability check of the
source never fires on typed capabilities. `src/src/security/capabilities.ts:53-69`. -/
def capabilityProfileFor (capabilities : List StepCapability) : CapabilityProfile :=
  let ordered := orderedCapabilities capabilities
  ⟨ordered, ordered.flatMap capabilityTools⟩

/-- `src/src/security/capabilities.ts:76-93`. -/
def narrowCapabilityProfile (profile : CapabilityProfile) (declared : List StepCapability) :
    CapabilityProfile :=
  let kept := profile.capabilities.filter (· ∈ declared)
  ⟨orderedCapabilities kept, profile.tools.filter fun tool =>
    match toolCapability tool with
    | some capability => capability ∈ kept
    | none => false⟩

/-- `CAPABILITY_PROFILE_MAXIMA`. `src/src/security/capabilities.ts:100-110`. -/
def capabilityProfileMaxima : CapabilityProfileName → List StepCapability
  | .investigation => StepKind.investigation.capabilityMaxima
  | .change => StepKind.change.capabilityMaxima
  | .command => StepKind.command.capabilityMaxima
  | .approval => StepKind.approval.capabilityMaxima
  | .review => [.readRepository]
  | .repair => [.readRepository, .mutateRepository, .executeCommands]

/-- `src/src/security/capabilities.ts:113-119`. -/
def defaultCapabilityProfiles : RunCapabilityProfiles :=
  .ofFun fun name => capabilityProfileFor (capabilityProfileMaxima name)

/-- The frozen authority of one step. `src/src/security/capabilities.ts:125-132`. -/
def stepCapabilityProfile (profiles : RunCapabilityProfiles) (step : StepDefinition) :
    CapabilityProfile :=
  let name := stepProfileName step
  narrowCapabilityProfile (profiles.get name) (step.capabilities.getD (capabilityProfileMaxima name))

/-- Text of the error a crossed boundary raises. -/
def capabilityViolation (profile : CapabilityProfile) (changedPaths : List String) : String :=
  let approved := ", ".intercalate (profile.capabilities.map (·.name))
  let approved := if approved = "" then "none" else approved
  let paths := ", ".intercalate changedPaths.eraseDups
  s!"Observed repository mutations without the mutate-repository capability (approved: {approved}): {paths}"

/-- A worker without `mutate-repository` leaves the repository untouched.
`src/src/security/capabilities.ts:157-170`. -/
def assertCapabilityBoundary (profile : CapabilityProfile) (changedPaths : List String) :
    Except String Unit :=
  ensure (changedPaths = [] ∨ StepCapability.mutateRepository ∈ profile.capabilities)
    (capabilityViolation profile changedPaths)

/-- The checks on one stored profile. `src/src/security/capabilities.ts:203-250`. -/
def assertCapabilityProfile (path : String) (profiles : RunCapabilityProfiles)
    (name : CapabilityProfileName) : Except String Unit := do
  let profile := profiles.get name
  let profilePath := s!"{path}.{name.name}"
  forM profile.capabilities fun capability =>
    ensure (capability ∈ capabilityProfileMaxima name)
      s!"{profilePath}.capabilities exceeds the {name.name} profile authority"
  ensure profile.capabilities.Nodup s!"{profilePath}.capabilities must not contain duplicates"
  ensure profile.tools.Nodup s!"{profilePath}.tools must not contain duplicates"
  forM profile.tools fun tool => do
    let capability ← require (toolCapability tool)
      s!"{profilePath}.tools contains a tool outside the capability vocabulary: {tool}"
    ensure (capability ∈ profile.capabilities)
      s!"{profilePath}.tools grants {tool} without the {capability.name} capability"

/-- `src/src/security/capabilities.ts:177-251`. -/
def assertCapabilityProfiles (profiles : RunCapabilityProfiles) (path : String) :
    Except String Unit :=
  forM CapabilityProfileName.all (assertCapabilityProfile path profiles)

end BuildConductor.Security
