import Mathlib.Data.List.Basic
import Mathlib.Data.Option.Basic

/-!
# Merging two changes of one value

Two sides change a value of a common base. Where at most one of them changed it, or both made the
same change, the merge takes the changed value. Of keyed lists the order of the keys and the value
of each key are merged on their own; without a disagreement the two merges fit together.
-/

namespace BuildConductor.Base

universe u v

variable {α : Type u}

/-- Both sides changed the value, in different ways. -/
def Disagree (base ours theirs : α) : Prop := ours ≠ base ∧ theirs ≠ base ∧ ours ≠ theirs

instance [DecidableEq α] (base ours theirs : α) : Decidable (Disagree base ours theirs) :=
  inferInstanceAs (Decidable (_ ∧ _ ∧ _))

/-- A value is the one of the side that changed the base, or of both that made one change. -/
structure Merges (base ours theirs merged : α) : Prop where
  ofOurs : ours ≠ base → merged = ours
  ofTheirs : theirs ≠ base → merged = theirs
  ofNeither : ours = base → theirs = base → merged = base

/-- Take our value where we changed it, and theirs elsewhere. -/
def preferOurs [DecidableEq α] (base ours theirs : α) : α := if ours = base then theirs else ours

section Values

variable [DecidableEq α]

@[simp] theorem preferOurs_base (base theirs : α) : preferOurs base base theirs = theirs :=
  if_pos rfl

@[simp] theorem preferOurs_unchanged (base ours : α) : preferOurs base ours base = ours := by
  unfold preferOurs
  split
  · next h => exact h.symm
  · rfl

/-- Our value is preferred to theirs, so it merges what does not disagree. -/
theorem merges_preferOurs {base ours theirs : α} (h : ¬ Disagree base ours theirs) :
    Merges base ours theirs (preferOurs base ours theirs) := by
  unfold preferOurs
  by_cases hours : ours = base
  · rw [if_pos hours]
    exact ⟨fun hchanged => absurd hours hchanged, fun _ => rfl, fun _ htheirs => htheirs⟩
  · rw [if_neg hours]
    refine ⟨fun _ => rfl, fun htheirs => ?_, fun hsame => absurd hsame hours⟩
    by_contra hdifferent
    exact h ⟨hours, htheirs, hdifferent⟩

end Values

/-- Without a disagreement on the order of the keys or on a key, the keys that keep a value are
those of the merged order. -/
theorem isSome_preferOurs_iff {κ : Type v} [DecidableEq κ] [DecidableEq α] {base ours theirs : List κ}
    {inBase inOurs inTheirs : κ → Option α} (hbase : ∀ k, k ∈ base ↔ (inBase k).isSome)
    (hours : ∀ k, k ∈ ours ↔ (inOurs k).isSome) (htheirs : ∀ k, k ∈ theirs ↔ (inTheirs k).isSome)
    (horder : ¬ Disagree base ours theirs)
    (hvalues : ∀ k, ¬ Disagree (inBase k) (inOurs k) (inTheirs k)) (k : κ) :
    (preferOurs (inBase k) (inOurs k) (inTheirs k)).isSome ↔ k ∈ preferOurs base ours theirs := by
  -- A side whose order is that of another has the same keys.
  have hkeys : ∀ {xs ys : List κ} {f g : κ → Option α}, (∀ k, k ∈ xs ↔ (f k).isSome) →
      (∀ k, k ∈ ys ↔ (g k).isSome) → xs = ys → ((f k).isSome ↔ (g k).isSome) := by
    intro xs ys f g hf hg hsame
    rw [← hf, ← hg, hsame]
  have hmerges := merges_preferOurs (hvalues k)
  by_cases hordered : ours = base
  · rw [hordered, preferOurs_base, htheirs]
    by_cases hvalue : inOurs k = inBase k
    · rw [hvalue, preferOurs_base]
    · rw [hmerges.ofOurs hvalue]
      by_cases hother : inTheirs k = inBase k
      · rw [hkeys hours hbase hordered, hother]
      · rw [← hmerges.ofOurs hvalue, hmerges.ofTheirs hother]
  · have htheirsOrder : theirs = base ∨ ours = theirs := by
      by_contra hboth
      rw [not_or] at hboth
      exact horder ⟨hordered, hboth.1, hboth.2⟩
    unfold preferOurs
    rw [if_neg hordered, hours]
    by_cases hvalue : inOurs k = inBase k
    · rw [if_pos hvalue]
      rcases htheirsOrder with hsame | hsame
      · rw [hkeys htheirs hbase hsame, hvalue]
      · rw [hkeys hours htheirs hsame]
    · rw [if_neg hvalue]

end BuildConductor.Base
