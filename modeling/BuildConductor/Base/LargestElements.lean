import Mathlib.Data.Finset.Card
import Mathlib.Data.Finset.Max
import Mathlib.Data.List.Basic

/-!
# The largest elements of a finite set

The `n` largest elements of a set are the elements with fewer than `n` larger ones. Keeping only
them loses nothing: what is kept after one more element arrives is the same whether the others were
dropped before or not.
-/

namespace BuildConductor.Base

variable {α : Type*} [LinearOrder α]

/-- The elements of `s` above `a`. -/
def above (s : Finset α) (a : α) : Finset α := s.filter (a < ·)

/-- The `n` largest elements, all of them when there are fewer. -/
def largest (n : Nat) (s : Finset α) : Finset α := s.filter fun a => (above s a).card < n

@[simp] theorem mem_above {s : Finset α} {a b : α} : b ∈ above s a ↔ b ∈ s ∧ a < b := by
  simp [above]

theorem mem_largest {n : Nat} {s : Finset α} {a : α} :
    a ∈ largest n s ↔ a ∈ s ∧ (above s a).card < n := by
  simp [largest]

theorem largest_subset (n : Nat) (s : Finset α) : largest n s ⊆ s := Finset.filter_subset _ _

theorem above_mono {s t : Finset α} (h : s ⊆ t) (a : α) : above s a ⊆ above t a :=
  Finset.filter_subset_filter _ h

@[simp] theorem largest_zero (s : Finset α) : largest 0 s = ∅ := by
  ext a
  simp [mem_largest]

/-- A set that is small enough is kept whole. -/
theorem largest_of_card_le {n : Nat} {s : Finset α} (h : s.card ≤ n) : largest n s = s := by
  ext a
  rw [mem_largest, and_iff_left_iff_imp]
  intro ha
  have hlt : (above s a).card < s.card := by
    apply Finset.card_lt_card
    unfold above
    rw [Finset.ssubset_iff_of_subset (Finset.filter_subset _ _)]
    exact ⟨a, ha, by simp⟩
  omega

/-- An element below all others is kept only when there is room for it. -/
private theorem largest_insert_min {n : Nat} {s : Finset α} {a : α} (ha : ∀ b ∈ s, a < b) :
    largest n (insert a s) = if s.card < n then insert a (largest n s) else largest n s := by
  have haboveSelf : above (insert a s) a = s := by
    ext b
    rw [mem_above, Finset.mem_insert]
    constructor
    · rintro ⟨rfl | hb, hlt⟩
      · exact absurd hlt (lt_irrefl b)
      · exact hb
    · exact fun hb => ⟨.inr hb, ha b hb⟩
  have haboveOther : ∀ b ∈ s, above (insert a s) b = above s b := by
    intro b hb
    ext c
    rw [mem_above, mem_above, Finset.mem_insert]
    constructor
    · rintro ⟨rfl | hc, hlt⟩
      · exact absurd hlt (lt_asymm (ha b hb))
      · exact ⟨hc, hlt⟩
    · exact fun hc => ⟨.inr hc.1, hc.2⟩
  ext b
  rw [mem_largest, Finset.mem_insert]
  by_cases hb : b ∈ s
  · have hne : b ≠ a := (ha b hb).ne'
    rw [haboveOther b hb]
    split
    · simp [hb, hne, mem_largest]
    · simp [hb, mem_largest]
  · have hnot : b ∉ largest n s := fun h => hb (largest_subset n s h)
    by_cases hba : b = a
    · subst hba
      rw [haboveSelf]
      split
      · next h => simp [h]
      · next h => simp [h, hnot]
    · split <;> simp [hb, hba, hnot]

theorem card_largest (n : Nat) (s : Finset α) : (largest n s).card = min n s.card := by
  induction s using Finset.induction_on_min with
  | empty => simp [largest]
  | insert a s ha ih =>
    have hnot : a ∉ s := fun h => lt_irrefl a (ha a h)
    rw [largest_insert_min ha, Finset.card_insert_of_notMem hnot]
    split
    · rw [Finset.card_insert_of_notMem fun h => hnot (largest_subset n s h), ih]
      omega
    · rw [ih]
      omega

/-- Above any element, the largest elements are the largest of those above it. -/
theorem above_largest (n : Nat) (s : Finset α) (a : α) :
    above (largest n s) a = largest n (above s a) := by
  have habove : ∀ b, a < b → above (above s a) b = above s b := by
    intro b hab
    ext c
    simp only [mem_above]
    constructor
    · exact fun h => ⟨h.1.1, h.2⟩
    · exact fun h => ⟨⟨h.1, hab.trans h.2⟩, h.2⟩
  ext b
  rw [mem_above, mem_largest, mem_largest, mem_above]
  by_cases hab : a < b
  · rw [habove b hab]
    tauto
  · tauto

/-- What is kept after one more element arrives does not depend on what was dropped before. -/
theorem largest_insert_largest (n : Nat) (a : α) (s : Finset α) :
    largest n (insert a (largest n s)) = largest n (insert a s) := by
  have hsub : insert a (largest n s) ⊆ insert a s :=
    Finset.insert_subset_insert a (largest_subset n s)
  -- fewer than `n` elements above `b` are all kept
  have hkept : ∀ b, (above s b).card ≤ n → above (largest n s) b = above s b := by
    intro b hb
    rw [above_largest, largest_of_card_le hb]
  ext b
  rw [mem_largest, mem_largest]
  constructor
  · rintro ⟨hmem, hcard⟩
    refine ⟨hsub hmem, ?_⟩
    have hfew : (above s b).card ≤ n := by
      have hle : (above (largest n s) b).card ≤ (above (insert a (largest n s)) b).card :=
        Finset.card_le_card (above_mono (Finset.subset_insert a _) b)
      rw [above_largest, card_largest] at hle
      omega
    have heq : above (insert a (largest n s)) b = above (insert a s) b := by
      unfold above at *
      rw [Finset.filter_insert, Finset.filter_insert, hkept b hfew]
    rwa [heq] at hcard
  · rintro ⟨hmem, hcard⟩
    have hle : (above (insert a (largest n s)) b).card ≤ (above (insert a s) b).card :=
      Finset.card_le_card (above_mono hsub b)
    refine ⟨?_, by omega⟩
    rw [Finset.mem_insert] at hmem ⊢
    rcases hmem with rfl | hmem
    · exact .inl rfl
    · have hs : (above s b).card ≤ (above (insert a s) b).card :=
        Finset.card_le_card (above_mono (Finset.subset_insert a s) b)
      exact .inr (mem_largest.mpr ⟨hmem, by omega⟩)

/-- The front of a list in descending order holds its largest elements. -/
theorem toFinset_take {l : List α} (h : l.Pairwise (· > ·)) (n : Nat) :
    (l.take n).toFinset = largest n l.toFinset := by
  induction l generalizing n with
  | nil =>
    rw [List.take_nil, List.toFinset_nil, largest_of_card_le (by simp)]
  | cons a rest ih =>
    rw [List.pairwise_cons] at h
    cases n with
    | zero => simp
    | succ n =>
      rw [List.take_succ_cons, List.toFinset_cons, List.toFinset_cons, ih h.2]
      have hself : above (insert a rest.toFinset) a = ∅ := by
        ext b
        rw [mem_above, Finset.mem_insert, List.mem_toFinset]
        constructor
        · rintro ⟨rfl | hb, hlt⟩
          · exact absurd hlt (lt_irrefl b)
          · exact absurd hlt (lt_asymm (h.1 b hb))
        · simp
      have hother : ∀ b ∈ rest, (above (insert a rest.toFinset) b).card =
          (above rest.toFinset b).card + 1 := by
        intro b hb
        have hnot : a ∉ above rest.toFinset b := by
          rw [mem_above, List.mem_toFinset]
          exact fun hmem => lt_irrefl a (h.1 a hmem.1)
        have hinsert : above (insert a rest.toFinset) b = insert a (above rest.toFinset b) := by
          unfold above
          rw [Finset.filter_insert, if_pos (h.1 b hb)]
        rw [hinsert, Finset.card_insert_of_notMem hnot]
      ext b
      rw [Finset.mem_insert, mem_largest, mem_largest, Finset.mem_insert, List.mem_toFinset]
      constructor
      · rintro (rfl | ⟨hb, hcard⟩)
        · rw [hself]
          simp
        · rw [hother b hb]
          exact ⟨.inr hb, by omega⟩
      · rintro ⟨rfl | hb, hcard⟩
        · exact .inl rfl
        · rw [hother b hb] at hcard
          exact .inr ⟨hb, by omega⟩

end BuildConductor.Base
