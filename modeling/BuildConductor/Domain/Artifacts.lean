import BuildConductor.Base.Checks
import BuildConductor.Domain.Types

/-!
# Artifacts

The identity an artifact is stored under and the summary a write returns.
`src/src/domain/artifacts.ts`.
-/

namespace BuildConductor.Domain

open Base

/-- `ARTIFACT_KINDS`. `src/src/domain/artifacts.ts:11-19`. -/
inductive ArtifactKind
  | report | decision | findings | testEvidence | patch | commit | mergeCandidate
deriving DecidableEq, Repr

/-- `src/src/domain/artifacts.ts:62-66`. -/
structure ArtifactIdentity where
  stepId : String
  output : String
  attempt : Nat
deriving DecidableEq, Repr

/-- `MAX_ARTIFACT_ID_LENGTH`. -/
def maxArtifactIdLength : Nat := 200

/-- `MAX_ARTIFACT_ATTEMPT`. -/
def maxArtifactAttempt : Nat := 9999

/-- `src/src/domain/artifacts.ts:89-95`. -/
def assertName (value label : String) : Except String Unit :=
  ensure (matchesIdPattern value) s!"{label} {quote value} must match {idPatternText}"

/-- The canonical id `<stepId>.<output>.<attempt>`. `src/src/domain/artifacts.ts:110-121`. -/
def artifactIdFor (identity : ArtifactIdentity) : Except String String := do
  assertName identity.stepId "artifact stepId"
  assertName identity.output "artifact output"
  ensure (1 ≤ identity.attempt ∧ identity.attempt ≤ maxArtifactAttempt)
    s!"artifact attempt must be an integer from 1 to {maxArtifactAttempt}"
  let id := s!"{identity.stepId}.{identity.output}.{identity.attempt}"
  ensure (id.length ≤ maxArtifactIdLength)
    s!"artifact id {quote id} exceeds {maxArtifactIdLength} characters"
  pure id

/-- What a write returns about one stored artifact. The size was counted by the store, so it is
an exactly represented number. `src/src/domain/artifacts.ts:69-87`. -/
structure ArtifactSummary where
  id : String
  output : String
  kind : ArtifactKind
  sizeBytes : Nat
  sizeBytes_safe : sizeBytes ≤ maxSafeInteger

end BuildConductor.Domain
