import Mathlib.Data.List.Basic
import Mathlib.Data.List.Forall2

/-!
# Checked computations

A check either passes or refuses with a message; a sequence of checks refuses with
the first message. Acceptance is the only observation later modules reason about, so
each combinator has one law saying when it returns normally.
-/

namespace BuildConductor.Base

universe u v w

/-- Refuse with `message` unless `p` holds. -/
def ensure (p : Prop) [Decidable p] (message : String) : Except String Unit :=
  if p then .ok () else .error message

/-- Require a value, refusing with `message` when it is absent. -/
def require {α : Type u} (value : Option α) (message : String) : Except String α :=
  match value with
  | some a => .ok a
  | none => .error message

/-- Visit every element together with the elements before it. -/
def forEachAfter {α : Type u} (check : List α → α → Except String Unit) :
    List α → List α → Except String Unit
  | _, [] => .ok ()
  | before, a :: rest => do
    check before a
    forEachAfter check (before ++ [a]) rest

variable {ε : Type u} {α β : Type v}

/-- A sequence returns `b` exactly when its first part returns and the rest returns `b`. -/
theorem bind_ok_iff {x : Except ε α} {f : α → Except ε β} {b : β} :
    (x >>= f) = .ok b ↔ ∃ a, x = .ok a ∧ f a = .ok b := by
  cases x with
  | error e => simp [bind, Except.bind]
  | ok a => simp [bind, Except.bind]

/-- Mapping returns `b` exactly when the source returns a preimage of `b`. -/
theorem map_ok_iff {x : Except ε α} {f : α → β} {b : β} :
    (f <$> x) = .ok b ↔ ∃ a, x = .ok a ∧ f a = b := by
  cases x with
  | error e => simp [Functor.map, Except.map]
  | ok a => simp [Functor.map, Except.map]

/-- A check passes exactly when its proposition holds. -/
@[simp] theorem ensure_ok_iff {p : Prop} [Decidable p] {message : String} {u : Unit} :
    ensure p message = .ok u ↔ p := by
  unfold ensure
  split <;> simp_all

/-- A requirement returns exactly the value present. -/
@[simp] theorem require_ok_iff {α : Type u} {value : Option α} {message : String} {a : α} :
    require value message = .ok a ↔ value = some a := by
  cases value <;> simp [require]

/-- A check returns one value only, so a statement about its result is about that value. -/
theorem exists_unit_iff {p : PUnit → Prop} : (∃ u, p u) ↔ p ⟨⟩ :=
  ⟨fun ⟨⟨⟩, h⟩ => h, fun h => ⟨⟨⟩, h⟩⟩

/-- A sequence of unit checks passes exactly when both parts pass. -/
theorem seq_ok_iff {x : Except ε PUnit} {y : Except ε β} {b : β} :
    (x >>= fun _ => y) = .ok b ↔ x = .ok ⟨⟩ ∧ y = .ok b := by
  rw [bind_ok_iff]
  exact ⟨fun ⟨_, hx, hy⟩ => ⟨hx, hy⟩, fun ⟨hx, hy⟩ => ⟨⟨⟩, hx, hy⟩⟩

/-- A check over a list passes exactly when it passes at every element. -/
theorem forM_ok_iff {α : Type u} {check : α → Except String PUnit} {xs : List α} :
    forM xs check = .ok ⟨⟩ ↔ ∀ a ∈ xs, check a = .ok ⟨⟩ := by
  induction xs with
  | nil => simp [pure, Except.pure]
  | cons a rest ih =>
    rw [List.forM_cons, seq_ok_iff, ih]
    simp

/-- Mapping a computation over a list returns the list of what it returns for each. -/
theorem mapM_ok_iff {α : Type u} {β : Type v} {f : α → Except String β} {xs : List α} {ys : List β} :
    xs.mapM f = .ok ys ↔ List.Forall₂ (fun x y => f x = .ok y) xs ys := by
  induction xs generalizing ys with
  | nil =>
    rw [List.mapM_nil, List.forall₂_nil_left_iff]
    constructor
    · rintro ⟨⟩
      rfl
    · rintro rfl
      rfl
  | cons x rest ih =>
    rw [List.mapM_cons, bind_ok_iff]
    simp only [bind_ok_iff, ih]
    constructor
    · rintro ⟨y, hy, more, hmore, hys⟩
      cases hys
      exact .cons hy hmore
    · rintro ⟨⟩
      next y more hy hmore => exact ⟨y, hy, more, hmore, rfl⟩

theorem toOption_eq_some_iff {ε : Type u} {α : Type v} {x : Except ε α} {a : α} :
    x.toOption = some a ↔ x = .ok a := by
  cases x <;> simp [Except.toOption]

/-- Every element on the right is related to one on the left. -/
theorem exists_left_of_forall₂ {α : Type u} {β : Type v} {R : α → β → Prop} {xs : List α}
    {ys : List β} (h : List.Forall₂ R xs ys) {y : β} (hy : y ∈ ys) : ∃ x ∈ xs, R x y := by
  induction h with
  | nil => cases hy
  | @cons x _ _ _ hrelated _ ih =>
    rw [List.mem_cons] at hy
    rcases hy with rfl | hy
    · exact ⟨x, List.mem_cons_self, hrelated⟩
    · obtain ⟨other, hother, hrelated⟩ := ih hy
      exact ⟨other, List.mem_cons_of_mem _ hother, hrelated⟩

/-- Every element on the left is related to one on the right. -/
theorem exists_right_of_forall₂ {α : Type u} {β : Type v} {R : α → β → Prop} {xs : List α}
    {ys : List β} (h : List.Forall₂ R xs ys) {x : α} (hx : x ∈ xs) : ∃ y ∈ ys, R x y :=
  exists_left_of_forall₂ h.flip hx

/-- Lists related in two stages are related through a list in between. -/
theorem forall₂_split {α : Type u} {β : Type v} {γ : Type w} {R : α → β → Prop}
    {S : β → γ → Prop} {xs : List α} {zs : List γ}
    (h : List.Forall₂ (fun x z => ∃ y, R x y ∧ S y z) xs zs) :
    ∃ ys, List.Forall₂ R xs ys ∧ List.Forall₂ S ys zs := by
  induction h with
  | nil => exact ⟨[], .nil, .nil⟩
  | cons hrelated _ ih =>
    obtain ⟨y, hleft, hright⟩ := hrelated
    obtain ⟨ys, hlefts, hrights⟩ := ih
    exact ⟨y :: ys, .cons hleft hlefts, .cons hright hrights⟩

/-- A check that sees its predecessors passes exactly when it passes at every split. -/
theorem forEachAfter_ok_iff {α : Type u} {check : List α → α → Except String Unit}
    {before xs : List α} :
    forEachAfter check before xs = .ok () ↔
      ∀ pre a post, xs = pre ++ a :: post → check (before ++ pre) a = .ok () := by
  induction xs generalizing before with
  | nil => simp [forEachAfter]
  | cons x rest ih =>
    rw [forEachAfter, seq_ok_iff, ih]
    constructor
    · rintro ⟨hx, hrest⟩ pre a post hsplit
      cases pre with
      | nil =>
        obtain ⟨rfl, rfl⟩ : x = a ∧ rest = post := by simpa using hsplit
        simpa using hx
      | cons p pre =>
        obtain ⟨rfl, htail⟩ : x = p ∧ rest = pre ++ a :: post := by simpa using hsplit
        simpa using hrest pre a post htail
    · intro h
      refine ⟨by simpa using h [] x rest rfl, ?_⟩
      intro pre a post hsplit
      simpa using h (x :: pre) a post (by simp [hsplit])

/-- Checked elements stay checked once rewritten, when every rewriting keeps its own check. -/
theorem forEachAfter_map {α : Type u} {γ : Type v} {check : List α → α → Except String Unit}
    {check' : List γ → γ → Except String Unit} {f : α → γ} {xs : List α}
    (hkeeps : ∀ before a, a ∈ xs → check before a = .ok () → check' (before.map f) (f a) = .ok ())
    (h : forEachAfter check [] xs = .ok ()) : forEachAfter check' [] (xs.map f) = .ok () := by
  rw [forEachAfter_ok_iff] at h ⊢
  intro pre b post hsplit
  rw [List.map_eq_append_iff] at hsplit
  obtain ⟨left, right, rfl, rfl, hright⟩ := hsplit
  rw [List.map_eq_cons_iff] at hright
  obtain ⟨a, rest, rfl, rfl, rfl⟩ := hright
  rw [List.nil_append]
  apply hkeeps
  · simp
  · have ha := h left a rest rfl
    rwa [List.nil_append] at ha

end BuildConductor.Base
