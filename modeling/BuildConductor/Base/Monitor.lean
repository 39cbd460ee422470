import Mathlib.Data.List.Induction

/-!
# Monitors

A monitor watches a trace entry by entry and says which entries may come next. A trace follows the
monitor when each entry was allowed where it stands; what is shown of allowed entries one at a time
then holds of every trace that follows.
-/

namespace BuildConductor.Base

universe u v

/-- A state that watches a trace, and the entries it allows. -/
structure Monitor (σ : Type u) (ε : Type v) where
  start : σ
  allows : σ → ε → Prop
  next : σ → ε → σ

namespace Monitor

variable {σ : Type u} {ε : Type v} (M : Monitor σ ε)

/-- The state after a trace. -/
def observe (trace : List ε) : σ := trace.foldl M.next M.start

/-- Every entry was allowed behind those before it. -/
def Follows (trace : List ε) : Prop :=
  ∀ before entry after, trace = before ++ entry :: after → M.allows (M.observe before) entry

@[simp] theorem observe_nil : M.observe [] = M.start := rfl

@[simp] theorem observe_concat (trace : List ε) (entry : ε) :
    M.observe (trace ++ [entry]) = M.next (M.observe trace) entry := by
  unfold observe
  rw [List.foldl_append]
  rfl

@[simp] theorem follows_nil : M.Follows [] := by
  intro before entry after h
  have hlength := congrArg List.length h
  simp at hlength

variable {M}

/-- A trace that follows was followed before any part of its end. -/
theorem Follows.of_append {trace entries : List ε} (h : M.Follows (trace ++ entries)) :
    M.Follows trace := by
  intro before entry after heq
  apply h before entry (after ++ entries)
  rw [heq, List.append_assoc, List.cons_append]

theorem follows_concat_iff {trace : List ε} {entry : ε} :
    M.Follows (trace ++ [entry]) ↔ M.Follows trace ∧ M.allows (M.observe trace) entry := by
  constructor
  · intro h
    exact ⟨h.of_append, h trace entry [] rfl⟩
  · rintro ⟨hfollows, hallowed⟩ before other after heq
    rcases List.eq_nil_or_concat after with rfl | ⟨rest, last, rfl⟩
    · obtain ⟨rfl, hsame⟩ := List.append_inj' heq rfl
      rw [← (List.cons.inj hsame).1]
      exact hallowed
    · rw [List.concat_eq_append, ← List.cons_append, ← List.append_assoc] at heq
      obtain ⟨rfl, -⟩ := List.append_inj' heq rfl
      exact hfollows before other rest rfl

/-- What starts true and stays true behind every allowed entry holds of every trace that follows. -/
theorem Follows.induction {P : List ε → Prop} (hnil : P [])
    (hconcat : ∀ trace entry, M.Follows trace → P trace → M.allows (M.observe trace) entry →
      P (trace ++ [entry])) {trace : List ε} (h : M.Follows trace) : P trace := by
  induction trace using List.reverseRecOn with
  | nil => exact hnil
  | append_singleton trace entry ih =>
    rw [follows_concat_iff] at h
    exact hconcat trace entry h.1 (ih h.1) h.2

end Monitor

end BuildConductor.Base
