import BuildConductor.Base.Utf8

/-!
# Framing by separators

A text that arrives in parts is cut into its ended records and an open rest. The rest of one part is
put before the next, and so the records do not depend on where the text was cut.
-/

namespace BuildConductor.Base

section

variable {α : Type} [DecidableEq α]

/-- The records of a text that are ended, and what follows the last separator. -/
def splitLines (separator : α) : List α → List (List α) × List α
  | [] => ([], [])
  | x :: xs =>
    let (records, rest) := splitLines separator xs
    if x = separator then ([] :: records, rest)
    else
      match records with
      | [] => ([], x :: rest)
      | record :: records => ((x :: record) :: records, rest)

@[simp] theorem splitLines_nil (separator : α) : splitLines separator [] = ([], []) := rfl

theorem splitLines_separator (separator : α) (xs : List α) :
    splitLines separator (separator :: xs) =
      ([] :: (splitLines separator xs).1, (splitLines separator xs).2) :=
  if_pos rfl

/-- Elements before a text that are no separators open its first record. -/
theorem splitLines_append_of_not_mem {separator : α} {xs : List α} (h : separator ∉ xs)
    (ys : List α) :
    splitLines separator (xs ++ ys) =
      match splitLines separator ys with
      | ([], rest) => ([], xs ++ rest)
      | (record :: records, rest) => ((xs ++ record) :: records, rest) := by
  induction xs with
  | nil =>
    rw [List.nil_append]
    obtain ⟨_ | ⟨record, records⟩, rest⟩ := splitLines separator ys <;> rfl
  | cons x xs ih =>
    rw [List.mem_cons, not_or] at h
    simp only [List.cons_append, splitLines, ih h.2, if_neg (Ne.symm h.1)]
    obtain ⟨_ | ⟨record, records⟩, rest⟩ := splitLines separator ys <;> rfl

/-- The rest is open. -/
theorem separator_not_mem_rest (separator : α) (xs : List α) :
    separator ∉ (splitLines separator xs).2 := by
  induction xs with
  | nil => exact List.not_mem_nil
  | cons x xs ih =>
    by_cases hx : x = separator
    · rw [hx, splitLines_separator]
      exact ih
    · simp only [splitLines, if_neg hx]
      split
      · rw [List.mem_cons, not_or]
        exact ⟨Ne.symm hx, ih⟩
      · exact ih

/-- A text that goes on has the records it had, and then those of its rest. -/
theorem splitLines_append (separator : α) (xs ys : List α) :
    splitLines separator (xs ++ ys) =
      ((splitLines separator xs).1 ++
          (splitLines separator ((splitLines separator xs).2 ++ ys)).1,
        (splitLines separator ((splitLines separator xs).2 ++ ys)).2) := by
  induction xs with
  | nil => rfl
  | cons x xs ih =>
    by_cases hx : x = separator
    · rw [List.cons_append, hx, splitLines_separator, splitLines_separator, ih]
      rfl
    · have hopen := separator_not_mem_rest separator xs
      rw [List.cons_append]
      simp only [splitLines, if_neg hx, ih]
      cases hrecords : (splitLines separator xs).1 with
      | cons record records => rfl
      | nil =>
        simp only [List.nil_append, List.cons_append, splitLines, if_neg hx]

/-! ## Records that are small -/

/-- Every record of a text, and its rest, is small. -/
def AllRecords (separator : α) (small : List α → Prop) (xs : List α) : Prop :=
  (∀ record ∈ (splitLines separator xs).1, small record) ∧ small (splitLines separator xs).2

/-- The records of a text are small while it arrives, when what a record starts with is. -/
theorem AllRecords.of_append {separator : α} {small : List α → Prop} {xs ys : List α}
    (hsmall : ∀ start rest, small (start ++ rest) → small start)
    (h : AllRecords separator small (xs ++ ys)) :
    AllRecords separator small xs ∧
      AllRecords separator small ((splitLines separator xs).2 ++ ys) := by
  unfold AllRecords at h
  rw [splitLines_append] at h
  obtain ⟨hrecords, hrest⟩ := h
  refine ⟨⟨?_, ?_⟩, ?_, hrest⟩
  · exact fun record hrecord => hrecords record (List.mem_append_left _ hrecord)
  · have hopen := separator_not_mem_rest separator xs
    rw [splitLines_append_of_not_mem hopen] at hrecords hrest
    split at hrest
    · exact hsmall _ _ hrest
    · next record records rest hsplit =>
      rw [hsplit] at hrecords
      exact hsmall _ _ (hrecords _ (List.mem_append_right _ List.mem_cons_self))
  · exact fun record hrecord => hrecords record (List.mem_append_right _ hrecord)

end

end BuildConductor.Base
