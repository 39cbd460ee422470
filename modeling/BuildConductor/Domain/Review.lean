import Mathlib.Data.List.Basic

/-!
# Reviews

The categories every change workflow is reviewed for, and the findings of a review.
`src/src/domain/types.ts:273-301`, `src/src/review/review-policy.ts:23-29`.
-/

namespace BuildConductor.Domain

/-- `REVIEW_CATEGORIES`. -/
inductive ReviewCategory
  | correctness | security | maintainability | tests | documentation
deriving DecidableEq, Repr

/-- `ReviewSeverity`. -/
inductive ReviewSeverity
  | critical | high | medium | low
deriving DecidableEq, Repr

/-- `ReviewConfidence`. -/
inductive ReviewConfidence
  | high | medium | low
deriving DecidableEq, Repr

/-- `ReviewFindingStatus`. -/
inductive ReviewFindingStatus
  | repairRequired | deferred | repaired | unresolved
deriving DecidableEq, Repr

namespace ReviewCategory

/-- The name a document uses. -/
def name : ReviewCategory → String
  | correctness => "correctness"
  | security => "security"
  | maintainability => "maintainability"
  | tests => "tests"
  | documentation => "documentation"

/-- The categories in the order the source lists them. -/
def all : List ReviewCategory := [correctness, security, maintainability, tests, documentation]

theorem mem_all (category : ReviewCategory) : category ∈ all := by
  cases category <;> decide

end ReviewCategory
end BuildConductor.Domain
