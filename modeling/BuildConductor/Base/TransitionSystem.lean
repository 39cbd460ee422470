/-!
# Labelled transition systems

Runs of a system that moves by labelled steps, the states it reaches, and the rules that
carry an invariant along a run. A system may be restricted to the steps a condition allows.
-/

namespace BuildConductor.Base

universe u v

/-- States to start in and labelled steps between states. -/
structure TransitionSystem (σ : Type u) (α : Type v) where
  initial : σ → Prop
  step : σ → α → σ → Prop

namespace TransitionSystem

variable {σ : Type u} {α : Type v}

/-- One state leads to another by finitely many steps. -/
inductive Runs (S : TransitionSystem σ α) : σ → σ → Prop
  | refl (s : σ) : Runs S s s
  | snoc {s t u : σ} {a : α} : Runs S s t → S.step t a u → Runs S s u

/-- A state some run reaches from an initial state. -/
def Reachable (S : TransitionSystem σ α) (s : σ) : Prop := ∃ s₀, S.initial s₀ ∧ S.Runs s₀ s

/-- The system with only the steps a condition on the state and the label allows. -/
def restrict (S : TransitionSystem σ α) (allowed : σ → α → Prop) : TransitionSystem σ α where
  initial := S.initial
  step := fun s a t => allowed s a ∧ S.step s a t

variable {S : TransitionSystem σ α}

theorem Runs.trans {s t u : σ} (h : S.Runs s t) (h' : S.Runs t u) : S.Runs s u := by
  induction h' with
  | refl => exact h
  | snoc _ hstep ih => exact Runs.snoc ih hstep

theorem Reachable.of_initial {s : σ} (h : S.initial s) : S.Reachable s := ⟨s, h, Runs.refl s⟩

theorem Reachable.runs {s t : σ} (h : S.Reachable s) (h' : S.Runs s t) : S.Reachable t := by
  obtain ⟨s₀, hinitial, hruns⟩ := h
  exact ⟨s₀, hinitial, hruns.trans h'⟩

theorem Reachable.step {s t : σ} {a : α} (h : S.Reachable s) (h' : S.step s a t) :
    S.Reachable t :=
  h.runs (Runs.snoc (Runs.refl s) h')

/-- A step to a state given by an equation. -/
theorem Reachable.step_to {s t t' : σ} {a : α} (h : S.Reachable s) (h' : S.step s a t)
    (heq : t = t') : S.Reachable t' := by
  rw [← heq]
  exact h.step h'

/-- What every step preserves holds at the end of a run when it holds at its start. -/
theorem Runs.preserves {P : σ → Prop} (hstep : ∀ s a t, P s → S.step s a t → P t) {s t : σ}
    (h : S.Runs s t) (hs : P s) : P t := by
  induction h with
  | refl => exact hs
  | snoc _ hlast ih => exact hstep _ _ _ ih hlast

/-- What holds initially and is preserved by the steps of reachable states holds of every
reachable state. -/
theorem Reachable.invariant {P : σ → Prop} (hinitial : ∀ s, S.initial s → P s)
    (hstep : ∀ s a t, S.Reachable s → P s → S.step s a t → P t) {s : σ} (h : S.Reachable s) :
    P s := by
  obtain ⟨s₀, hs₀, hruns⟩ := h
  induction hruns with
  | refl => exact hinitial _ hs₀
  | snoc hruns hlast ih => exact hstep _ _ _ ⟨s₀, hs₀, hruns⟩ ih hlast

/-- A restricted system reaches no more. -/
theorem Reachable.of_restrict {allowed : σ → α → Prop} {s : σ}
    (h : (S.restrict allowed).Reachable s) : S.Reachable s := by
  apply h.invariant
  · intro t hinitial
    exact Reachable.of_initial hinitial
  · intro t a u _ hreach hstep
    exact hreach.step hstep.2

/-- What fewer steps reach, more steps reach. -/
theorem Reachable.restrict_mono {allowed more : σ → α → Prop} {s : σ}
    (hmore : ∀ s a, allowed s a → more s a) (h : (S.restrict allowed).Reachable s) :
    (S.restrict more).Reachable s := by
  apply h.invariant
  · exact fun s hinitial => .of_initial hinitial
  · exact fun s a t _ hs hstep => hs.step ⟨hmore s a hstep.1, hstep.2⟩

end TransitionSystem

end BuildConductor.Base
