import Mathlib.Data.List.Basic
import Mathlib.Data.List.Pairwise

/-!
# Delivery past a watermark

Snapshots of a growing collection arrive in any order. Each delivers what it holds past the highest
mark seen so far, and then raises the mark to its own. What is delivered has increasing numbers, and
an item is delivered exactly when the first snapshot that reaches its number still holds it.
-/

namespace BuildConductor.Base

universe u

/-- Some numbered items and a mark no number passes. -/
structure Snapshot (α : Type u) where
  items : List α
  mark : Nat

namespace Snapshot

variable {α : Type u} (number : α → Nat)

/-- The items are in the order of their numbers, up to the mark. -/
structure Ordered (snapshot : Snapshot α) : Prop where
  increasing : snapshot.items.Pairwise fun earlier later => number earlier < number later
  bounded : ∀ x ∈ snapshot.items, number x ≤ snapshot.mark

/-- What a snapshot delivers past a mark. -/
def past (reached : Nat) (snapshot : Snapshot α) : List α :=
  snapshot.items.filter fun x => decide (reached < number x)

/-- What a list of snapshots delivers past a mark that each of them raises. -/
def deliver : Nat → List (Snapshot α) → List α
  | _, [] => []
  | reached, snapshot :: rest =>
    past number reached snapshot ++ deliver (max reached snapshot.mark) rest

variable {number}

@[simp] theorem deliver_nil (reached : Nat) :
    deliver number reached ([] : List (Snapshot α)) = [] := rfl

@[simp] theorem deliver_cons (reached : Nat) (snapshot : Snapshot α)
    (rest : List (Snapshot α)) :
    deliver number reached (snapshot :: rest) =
      past number reached snapshot ++ deliver number (max reached snapshot.mark) rest := rfl

theorem mem_past_iff {reached : Nat} {snapshot : Snapshot α} {x : α} :
    x ∈ past number reached snapshot ↔ x ∈ snapshot.items ∧ reached < number x := by
  unfold past
  rw [List.mem_filter, decide_eq_true_eq]

/-- A snapshot whose mark is not past the one reached delivers nothing. -/
theorem past_eq_nil {reached : Nat} {snapshot : Snapshot α} (h : snapshot.Ordered number)
    (hmark : snapshot.mark ≤ reached) : past number reached snapshot = [] := by
  unfold past
  rw [List.filter_eq_nil_iff]
  intro x hx
  have hbound := h.bounded x hx
  rw [decide_eq_true_eq]
  omega

/-- The first snapshot that reaches a number. -/
def firstReaching (number : Nat) (snapshots : List (Snapshot α)) : Option (Snapshot α) :=
  snapshots.find? fun snapshot => decide (number ≤ snapshot.mark)

theorem mem_deliver_iff {reached : Nat} {snapshots : List (Snapshot α)} {x : α}
    (h : ∀ snapshot ∈ snapshots, snapshot.Ordered number) :
    x ∈ deliver number reached snapshots ↔ reached < number x ∧
      ∃ snapshot, firstReaching (number x) snapshots = some snapshot ∧ x ∈ snapshot.items := by
  induction snapshots generalizing reached with
  | nil =>
    unfold firstReaching
    simp
  | cons snapshot rest ih =>
    have hrest := @ih (max reached snapshot.mark) fun other hother =>
      h other (List.mem_cons_of_mem _ hother)
    rw [deliver_cons, List.mem_append, mem_past_iff, hrest]
    unfold firstReaching
    by_cases hreaches : number x ≤ snapshot.mark
    · rw [List.find?_cons_of_pos (by simpa using hreaches)]
      constructor
      · rintro (⟨hmem, hpast⟩ | ⟨hpast, -⟩)
        · exact ⟨hpast, snapshot, rfl, hmem⟩
        · omega
      · rintro ⟨hpast, _, hfirst, hmem⟩
        cases hfirst
        exact Or.inl ⟨hmem, hpast⟩
    · rw [List.find?_cons_of_neg (by simpa using hreaches)]
      constructor
      · rintro (⟨hmem, -⟩ | ⟨hpast, hfirst⟩)
        · exact absurd ((h snapshot List.mem_cons_self).bounded x hmem) hreaches
        · exact ⟨by omega, hfirst⟩
      · rintro ⟨hpast, hfirst⟩
        exact Or.inr ⟨by omega, hfirst⟩

theorem deliver_increasing {reached : Nat} {snapshots : List (Snapshot α)}
    (h : ∀ snapshot ∈ snapshots, snapshot.Ordered number) :
    (deliver number reached snapshots).Pairwise
      fun earlier later => number earlier < number later := by
  induction snapshots generalizing reached with
  | nil => exact List.Pairwise.nil
  | cons snapshot rest ih =>
    have hordered := h snapshot List.mem_cons_self
    have hrest : ∀ other ∈ rest, other.Ordered number := fun other hother =>
      h other (List.mem_cons_of_mem _ hother)
    rw [deliver_cons, List.pairwise_append]
    refine ⟨hordered.increasing.filter _, ih hrest, ?_⟩
    intro earlier hearlier later hlater
    have hbound := hordered.bounded earlier (mem_past_iff.mp hearlier).1
    have hpast := ((mem_deliver_iff hrest).mp hlater).1
    omega

end Snapshot

end BuildConductor.Base
