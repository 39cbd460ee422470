import BuildConductor.Base.TransitionSystem
import Mathlib.Data.List.Basic

/-!
# Computations with effects

A computation on a state may refuse, and what it did before stays done. A computation goes along a
transition system when every run of it is a run of the system, whether it returns or refuses; the
rules follow the program.
-/

namespace BuildConductor.Base

universe u v

/-- A computation that changes a state and returns a value or refuses. -/
def Effect (σ : Type u) (α : Type v) := σ → Except String α × σ

namespace Effect

variable {σ : Type u} {α β : Type v}

instance : Monad (Effect σ) where
  pure a := fun s => (.ok a, s)
  bind m f := fun s =>
    match m s with
    | (.ok a, t) => f a t
    | (.error message, t) => (.error message, t)

/-- Observe the state. -/
def read (observe : σ → α) : Effect σ α := fun s => (.ok (observe s), s)

/-- Change the state. -/
def change (f : σ → σ) : Effect σ PUnit := fun s => (.ok ⟨⟩, f s)

/-- A check that does not look at the state. -/
def lift (x : Except String α) : Effect σ α := fun s => (x, s)

/-- Run a computation and tell whether it returned. -/
def attempt {σ : Type u} (m : Effect σ Unit) : Effect σ Bool := fun s =>
  match m s with
  | (.ok _, t) => (.ok true, t)
  | (.error _, t) => (.ok false, t)

variable {s t : σ} {a c : α} {b : β}

/-- A sequence returns `b` exactly when its first part returns and the rest, from the state it left,
returns `b`. -/
theorem bind_ok_iff {m : Effect σ α} {f : α → Effect σ β} :
    (m >>= f) s = (.ok b, t) ↔ ∃ a u, m s = (.ok a, u) ∧ f a u = (.ok b, t) := by
  show (match m s with
    | (.ok a, t) => f a t
    | (.error message, t) => (.error message, t)) = _ ↔ _
  split
  · next a u hm =>
    rw [hm]
    constructor
    · intro h
      exact ⟨a, u, rfl, h⟩
    · rintro ⟨a', u', hm', h⟩
      cases hm'
      exact h
  · next message u hm =>
    rw [hm]
    constructor
    · intro h
      cases h
    · rintro ⟨a', u', hm', -⟩
      cases hm'

@[simp] theorem pure_ok_iff : (pure a : Effect σ α) s = (.ok c, t) ↔ a = c ∧ t = s := by
  show (Except.ok a, s) = _ ↔ _
  rw [Prod.mk.injEq, Except.ok.injEq, @eq_comm _ s]

@[simp] theorem read_ok_iff {observe : σ → α} :
    read observe s = (.ok a, t) ↔ observe s = a ∧ t = s := by
  show (Except.ok (observe s), s) = _ ↔ _
  rw [Prod.mk.injEq, Except.ok.injEq, @eq_comm _ s]

@[simp] theorem change_ok_iff {f : σ → σ} {u : PUnit} : change f s = (.ok u, t) ↔ t = f s := by
  show (Except.ok PUnit.unit, f s) = _ ↔ _
  rw [Prod.mk.injEq, @eq_comm _ (f s)]
  exact and_iff_right rfl

@[simp] theorem lift_ok_iff {x : Except String α} :
    lift x s = (.ok a, t) ↔ x = .ok a ∧ t = s := by
  show (x, s) = _ ↔ _
  rw [Prod.mk.injEq, @eq_comm _ s]

/-- A sequence ends with a property when it would end with it after its first part, and does after
the rest. -/
theorem bind_ends {P : σ → Prop} {m : Effect σ α} {f : α → Effect σ β} (hfirst : P (m s).2)
    (hrest : ∀ a t, m s = (.ok a, t) → P (f a t).2) : P ((m >>= f) s).2 := by
  show P (match m s with
    | (.ok a, t) => f a t
    | (.error message, t) => (.error message, t)).2
  split
  · next a t hm => exact hrest a t hm
  · next message t hm =>
    rw [hm] at hfirst
    exact hfirst

/-- A sequence ends with a property behind a check that leaves the state. -/
theorem lift_ends {P : σ → Prop} {x : Except String α} {f : α → Effect σ β} (hs : P s)
    (hrest : ∀ a, x = .ok a → P (f a s).2) : P ((lift x >>= f) s).2 := by
  apply bind_ends hs
  intro a t hlift
  rw [lift_ok_iff] at hlift
  rw [hlift.2]
  exact hrest a hlift.1

end Effect

open Effect

section Rules

variable {σ : Type u} {α β : Type v} {ℓ : Type u} {S : TransitionSystem σ ℓ} {I P : σ → Prop}

/-- From states with a property, every run of the computation is a run of the system. -/
def Along (S : TransitionSystem σ ℓ) (P : σ → Prop) (m : Effect σ α) : Prop :=
  ∀ s, P s → S.Runs s (m s).2

/-- The computation goes along the system and keeps an invariant, also when it refuses. -/
def Keeps (S : TransitionSystem σ ℓ) (I : σ → Prop) (m : Effect σ α) : Prop :=
  ∀ s, I s → S.Runs s (m s).2 ∧ I (m s).2

theorem Keeps.along {m : Effect σ α} (h : Keeps S I m) : Along S I m := fun s hs => (h s hs).1

theorem Along.of_imp {m : Effect σ α} (h : Along S P m) (himp : ∀ s, I s → P s) : Along S I m :=
  fun s hs => h s (himp s hs)

theorem Keeps.pure (a : α) : Keeps S I (pure a : Effect σ α) :=
  fun s hs => ⟨.refl s, hs⟩

theorem Keeps.lift (x : Except String α) : Keeps S I (lift x) :=
  fun s hs => ⟨.refl s, hs⟩

theorem Keeps.read (observe : σ → α) : Keeps S I (read observe) :=
  fun s hs => ⟨.refl s, hs⟩

/-- A computation that changes nothing or makes one step that keeps the invariant. -/
theorem Keeps.of_step {m : Effect σ α}
    (h : ∀ s, I s → (m s).2 = s ∨ (∃ a, S.step s a (m s).2) ∧ I (m s).2) : Keeps S I m := by
  intro s hs
  rcases h s hs with hsame | ⟨⟨a, hstep⟩, hkept⟩
  · rw [hsame]
    exact ⟨.refl s, hs⟩
  · exact ⟨.snoc (.refl s) hstep, hkept⟩

theorem Keeps.bind {m : Effect σ α} {f : α → Effect σ β} (hm : Keeps S I m)
    (hf : ∀ a, Keeps S I (f a)) : Keeps S I (m >>= f) := by
  intro s hs
  obtain ⟨hruns, hkept⟩ := hm s hs
  show S.Runs s ((m >>= f) s).2 ∧ I ((m >>= f) s).2
  simp only [Bind.bind]
  cases hresult : m s with
  | mk result t =>
    rw [hresult] at hruns hkept
    cases result with
    | ok a =>
      obtain ⟨hrest, hend⟩ := hf a t hkept
      exact ⟨hruns.trans hrest, hend⟩
    | error message => exact ⟨hruns, hkept⟩

theorem Keeps.attempt {m : Effect σ Unit} (h : Keeps S I m) : Keeps S I (attempt m) := by
  intro s hs
  obtain ⟨hruns, hkept⟩ := h s hs
  unfold Effect.attempt
  cases hresult : m s with
  | mk result t =>
    rw [hresult] at hruns hkept
    cases result <;> exact ⟨hruns, hkept⟩

/-- A loop keeps what each of its passes keeps. -/
theorem Keeps.foldlM {γ : Type v} {body : β → γ → Effect σ β} {xs : List γ}
    (h : ∀ x ∈ xs, ∀ b, Keeps S I (body b x)) (b : β) : Keeps S I (xs.foldlM body b) := by
  induction xs generalizing b with
  | nil => exact Keeps.pure b
  | cons x xs ih =>
    rw [List.foldlM_cons]
    exact (h x List.mem_cons_self b).bind
      fun next => ih (fun y hy => h y (List.mem_cons_of_mem _ hy)) next

/-- A computation that keeps an invariant may go first. -/
theorem Along.bind {m : Effect σ α} {f : α → Effect σ β} (hm : Keeps S I m)
    (hf : ∀ a, Along S I (f a)) : Along S I (m >>= f) := by
  intro s hs
  obtain ⟨hruns, hkept⟩ := hm s hs
  show S.Runs s ((m >>= f) s).2
  simp only [Bind.bind]
  cases hresult : m s with
  | mk result t =>
    rw [hresult] at hruns hkept
    cases result with
    | ok a => exact hruns.trans (hf a t hkept)
    | error message => exact hruns

/-- After an observation, what was observed is known. -/
theorem Along.read {observe : σ → α} {f : α → Effect σ β}
    (h : ∀ a, Along S (fun s => I s ∧ observe s = a) (f a)) : Along S I (read observe >>= f) :=
  fun s hs => h (observe s) s ⟨hs, rfl⟩

end Rules

end BuildConductor.Base
