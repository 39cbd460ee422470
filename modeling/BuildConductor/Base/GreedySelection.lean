import Mathlib.Data.List.Induction
import Mathlib.Data.List.Pairwise

/-!
# Greedy selection

One pass over a list takes every item that is eligible, compatible with what is held or
already taken, and within a capacity when it costs. What is taken is compatible as a whole,
within the capacity, and maximal.
-/

namespace BuildConductor.Base

universe u

/-- The rules of a selection: what may be taken, what excludes what, what costs, what is held
already, and how much may be spent. -/
structure SelectionRules (α : Type u) where
  eligible : α → Bool
  conflict : α → α → Bool
  costs : α → Bool
  held : List α
  capacity : Nat

namespace SelectionRules

variable {α : Type u} (rules : SelectionRules α)

/-- How much some items cost. -/
def spent (taken : List α) : Nat := (taken.filter rules.costs).length

/-- Whether an item can be taken after some others. -/
def admits (taken : List α) (x : α) : Bool :=
  rules.eligible x && !((rules.held ++ taken).any (rules.conflict x)) &&
    !(rules.costs x && decide (rules.capacity ≤ rules.spent taken))

/-- Take an item when it can be taken. -/
def take (taken : List α) (x : α) : List α :=
  if rules.admits taken x then taken ++ [x] else taken

/-- Take what can be taken, in one pass. -/
def greedy (xs : List α) : List α := xs.foldl rules.take []

/-- What one pass guarantees about the items it took from those it saw. -/
structure Selects (xs taken : List α) : Prop where
  sublist : taken.Sublist xs
  eligible : ∀ x ∈ taken, rules.eligible x = true
  held : ∀ x ∈ taken, ∀ y ∈ rules.held, rules.conflict x y = false
  pairwise : taken.Pairwise fun earlier later => rules.conflict later earlier = false
  capacity : rules.spent taken ≤ rules.capacity
  maximal : ∀ x ∈ xs, rules.eligible x = true → x ∉ taken →
    (∃ y ∈ rules.held ++ taken, rules.conflict x y = true) ∨
      (rules.costs x = true ∧ rules.spent taken = rules.capacity)

variable {rules}

theorem admits_iff {taken : List α} {x : α} :
    rules.admits taken x = true ↔ rules.eligible x = true ∧
      (∀ y ∈ rules.held ++ taken, rules.conflict x y = false) ∧
      (rules.costs x = true → rules.spent taken < rules.capacity) := by
  unfold admits
  simp only [Bool.and_eq_true, Bool.not_eq_true', List.any_eq_false, Bool.not_eq_true,
    Bool.and_eq_false_iff, decide_eq_false_iff_not, Nat.not_le, and_assoc]
  constructor
  · rintro ⟨heligible, hconflict, hcost⟩
    refine ⟨heligible, hconflict, ?_⟩
    intro hcosts
    rcases hcost with hno | hlt
    · rw [hcosts] at hno
      cases hno
    · exact hlt
  · rintro ⟨heligible, hconflict, hcost⟩
    refine ⟨heligible, hconflict, ?_⟩
    cases hcosts : rules.costs x with
    | false => exact Or.inl rfl
    | true => exact Or.inr (hcost hcosts)

private theorem spent_append (taken : List α) (x : α) :
    rules.spent (taken ++ [x]) = rules.spent taken + if rules.costs x then 1 else 0 := by
  unfold spent
  rw [List.filter_append, List.length_append]
  cases h : rules.costs x <;> simp [h]

/-- Seeing one more item keeps the guarantees. -/
theorem Selects.take {xs taken : List α} (h : rules.Selects xs taken) (x : α) :
    rules.Selects (xs ++ [x]) (rules.take taken x) := by
  unfold SelectionRules.take
  split
  · next hadmits =>
    obtain ⟨heligible, hcompatible, hcost⟩ := admits_iff.mp hadmits
    constructor
    · exact h.sublist.append (List.Sublist.refl [x])
    · intro y hy
      rcases List.mem_append.mp hy with hold | hnew
      · exact h.eligible y hold
      · rw [List.mem_singleton.mp hnew]
        exact heligible
    · intro y hy z hz
      rcases List.mem_append.mp hy with hold | hnew
      · exact h.held y hold z hz
      · rw [List.mem_singleton.mp hnew]
        exact hcompatible z (List.mem_append_left _ hz)
    · rw [List.pairwise_append]
      refine ⟨h.pairwise, List.pairwise_singleton _ _, ?_⟩
      intro y hy z hz
      rw [List.mem_singleton.mp hz]
      exact hcompatible y (List.mem_append_right _ hy)
    · rw [spent_append]
      split
      · next hcosts => exact hcost hcosts
      · exact h.capacity
    · intro y hy hy' hnot
      rw [List.mem_append, not_or, List.mem_singleton] at hnot
      rcases List.mem_append.mp hy with hold | hnew
      · rcases h.maximal y hold hy' hnot.1 with ⟨z, hz, hconflict⟩ | ⟨hcosts, hspent⟩
        · refine Or.inl ⟨z, ?_, hconflict⟩
          rw [← List.append_assoc]
          exact List.mem_append_left _ hz
        · right
          refine ⟨hcosts, ?_⟩
          rw [spent_append]
          split
          · next hx =>
            have hlt := hcost hx
            omega
          · exact hspent
      · exact absurd (List.mem_singleton.mp hnew) hnot.2
  · next hrefused =>
    constructor
    · exact h.sublist.trans (List.sublist_append_left _ _)
    · exact h.eligible
    · exact h.held
    · exact h.pairwise
    · exact h.capacity
    · intro y hy hy' hnot
      rcases List.mem_append.mp hy with hold | hnew
      · exact h.maximal y hold hy' hnot
      · rw [List.mem_singleton] at hnew
        subst hnew
        by_cases hconflict : ∃ z ∈ rules.held ++ taken, rules.conflict y z = true
        · exact Or.inl hconflict
        · right
          have hcompatible : ∀ z ∈ rules.held ++ taken, rules.conflict y z = false := by
            intro z hz
            rw [Bool.eq_false_iff]
            intro hyes
            exact hconflict ⟨z, hz, hyes⟩
          have hcapacity := h.capacity
          by_cases hlt : rules.spent taken < rules.capacity
          · exact absurd (admits_iff.mpr ⟨hy', hcompatible, fun _ => hlt⟩) hrefused
          · refine ⟨?_, by omega⟩
            by_contra hfree
            exact hrefused (admits_iff.mpr ⟨hy', hcompatible, fun hcosts => absurd hcosts hfree⟩)

/-- Conflicts that go both ways occur between no two items taken. -/
theorem Selects.compatible {xs taken : List α} (h : rules.Selects xs taken)
    (hcomm : ∀ x y, rules.conflict x y = rules.conflict y x) {x y : α} (hx : x ∈ taken)
    (hy : y ∈ taken) (hne : x ≠ y) : rules.conflict x y = false := by
  have hsymm : Std.Symm fun earlier later => rules.conflict later earlier = false := by
    constructor
    intro a b hab
    rw [hcomm]
    exact hab
  exact h.pairwise.forall hy hx hne.symm

/-- One pass over a list selects from it. -/
theorem greedy_selects (rules : SelectionRules α) (xs : List α) :
    rules.Selects xs (rules.greedy xs) := by
  have hfold : ∀ ys pre taken, rules.Selects pre taken →
      rules.Selects (pre ++ ys) (ys.foldl rules.take taken) := by
    intro ys
    induction ys with
    | nil =>
      intro pre taken h
      rwa [List.append_nil]
    | cons y rest ih =>
      intro pre taken h
      have hrest := ih (pre ++ [y]) (rules.take taken y) (h.take y)
      rwa [List.append_assoc] at hrest
  apply hfold xs [] []
  exact ⟨List.Sublist.refl _, by simp, by simp, List.Pairwise.nil, by simp [spent], by simp⟩

/-- Where eligible items all cost and never conflict, one pass takes the first ones that fit. -/
theorem greedy_eq_take {xs : List α}
    (hcosts : ∀ x ∈ xs, rules.eligible x = true → rules.costs x = true)
    (hheld : ∀ x ∈ xs, rules.eligible x = true → ∀ y ∈ rules.held, rules.conflict x y = false)
    (hpairs : (xs.filter rules.eligible).Pairwise fun earlier later =>
      rules.conflict later earlier = false) :
    rules.greedy xs = (xs.filter rules.eligible).take rules.capacity := by
  induction xs using List.reverseRecOn with
  | nil => simp [greedy]
  | append_singleton xs x ih =>
    have hlast : rules.greedy (xs ++ [x]) = rules.take (rules.greedy xs) x := by
      unfold greedy
      rw [List.foldl_append]
      rfl
    rw [List.filter_append] at hpairs
    rw [hlast, ih (fun y hy => hcosts y (List.mem_append_left _ hy))
      (fun y hy => hheld y (List.mem_append_left _ hy)) (List.pairwise_append.mp hpairs).1]
    have hspent : rules.spent ((xs.filter rules.eligible).take rules.capacity) =
        min rules.capacity (xs.filter rules.eligible).length := by
      unfold spent
      rw [← List.length_take, List.filter_eq_self.mpr]
      intro y hy
      have hmem := List.mem_filter.mp (List.mem_of_mem_take hy)
      exact hcosts y (List.mem_append_left _ hmem.1) hmem.2
    unfold SelectionRules.take
    rw [List.filter_append]
    cases heligible : rules.eligible x with
    | false =>
      have hrefused : ¬ rules.admits ((xs.filter rules.eligible).take rules.capacity) x = true := by
        rw [admits_iff, heligible]
        simp
      rw [if_neg hrefused]
      simp [heligible]
    | true =>
      have hx : rules.costs x = true := hcosts x (by simp) heligible
      have hcompatible : ∀ y ∈ rules.held ++ (xs.filter rules.eligible).take rules.capacity,
          rules.conflict x y = false := by
        intro y hy
        rcases List.mem_append.mp hy with hy | hy
        · exact hheld x (by simp) heligible y hy
        · exact (List.pairwise_append.mp hpairs).2.2 y (List.mem_of_mem_take hy) x
            (by simp [heligible])
      rw [show [x].filter rules.eligible = [x] by simp [heligible]]
      by_cases hroom : (xs.filter rules.eligible).length < rules.capacity
      · have hadmits : rules.admits ((xs.filter rules.eligible).take rules.capacity) x = true := by
          rw [admits_iff]
          exact ⟨heligible, hcompatible, fun _ => by omega⟩
        rw [if_pos hadmits, List.take_of_length_le (by omega), List.take_of_length_le]
        rw [List.length_append, List.length_singleton]
        omega
      · have hrefused :
            ¬ rules.admits ((xs.filter rules.eligible).take rules.capacity) x = true := by
          rw [admits_iff]
          intro hadmits
          have hlt := hadmits.2.2 hx
          omega
        rw [if_neg hrefused, List.take_append_of_le_length (by omega)]

end SelectionRules

end BuildConductor.Base
