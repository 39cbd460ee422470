import Mathlib.Data.List.Basic

/-!
# Self-delimiting tokens

Tokens joined by a separator. When the writing of a token shows where it ends, before a separator
and at the end of the text, a text is read back to one list of tokens only.
-/

namespace BuildConductor.Base

universe u v

variable {α : Type u} {γ : Type v}

/-- What may follow a token: nothing, or a separator and more. -/
def Ends (separator : γ) (rest : List γ) : Prop := rest = [] ∨ ∃ more, rest = separator :: more

/-- The writing of a token determines the token and what follows it. -/
def SelfDelimiting (separator : γ) (write : α → List γ) : Prop :=
  ∀ a b rest rest', Ends separator rest → Ends separator rest' →
    write a ++ rest = write b ++ rest' → a = b ∧ rest = rest'

/-- The tokens after the first, each behind a separator. -/
def laterTokens (separator : γ) (write : α → List γ) (tokens : List α) : List γ :=
  tokens.flatMap fun token => separator :: write token

variable {separator : γ} {write : α → List γ}

/-- Joined tokens are the first token and then the later ones. -/
theorem intercalate_eq_laterTokens (token : α) (tokens : List α) :
    [separator].intercalate ((token :: tokens).map write) =
      write token ++ laterTokens separator write tokens := by
  induction tokens generalizing token with
  | nil => simp [laterTokens]
  | cons next rest ih =>
    rw [List.map_cons, List.map_cons, List.intercalate_cons_cons, ← List.map_cons, ih]
    simp [laterTokens]

theorem ends_laterTokens (tokens : List α) : Ends separator (laterTokens separator write tokens) := by
  cases tokens with
  | nil => exact Or.inl rfl
  | cons token rest => exact Or.inr ⟨write token ++ laterTokens separator write rest, rfl⟩

namespace SelfDelimiting

theorem laterTokens_injective (h : SelfDelimiting separator write) {tokens tokens' : List α}
    (heq : laterTokens separator write tokens = laterTokens separator write tokens') :
    tokens = tokens' := by
  induction tokens generalizing tokens' with
  | nil =>
    cases tokens' with
    | nil => rfl
    | cons token rest => cases heq
  | cons token rest ih =>
    cases tokens' with
    | nil => cases heq
    | cons token' rest' =>
      have htail : write token ++ laterTokens separator write rest =
          write token' ++ laterTokens separator write rest' := (List.cons.inj heq).2
      obtain ⟨rfl, hrest⟩ :=
        h token token' _ _ (ends_laterTokens rest) (ends_laterTokens rest') htail
      rw [ih hrest]

/-- A text is that of one list of tokens only, which is not empty. -/
theorem intercalate_injective (h : SelfDelimiting separator write) {token token' : α}
    {tokens tokens' : List α}
    (heq : [separator].intercalate ((token :: tokens).map write) =
      [separator].intercalate ((token' :: tokens').map write)) :
    token = token' ∧ tokens = tokens' := by
  rw [intercalate_eq_laterTokens, intercalate_eq_laterTokens] at heq
  obtain ⟨htoken, hrest⟩ :=
    h token token' _ _ (ends_laterTokens tokens) (ends_laterTokens tokens') heq
  exact ⟨htoken, h.laterTokens_injective hrest⟩

end SelfDelimiting

/-- A token whose characters are none of a separator ends before it. -/
theorem append_inj_of_ends {xs ys rest rest' : List γ} (hx : separator ∉ xs) (hy : separator ∉ ys)
    (hrest : Ends separator rest) (hrest' : Ends separator rest')
    (heq : xs ++ rest = ys ++ rest') : xs = ys ∧ rest = rest' := by
  induction xs generalizing ys with
  | nil =>
    cases ys with
    | nil => exact ⟨rfl, heq⟩
    | cons y ys =>
      rw [List.nil_append] at heq
      rcases hrest with rfl | ⟨more, rfl⟩
      · cases heq
      · rw [List.cons_append, List.cons.injEq] at heq
        rw [← heq.1] at hy
        exact absurd List.mem_cons_self hy
  | cons x xs ih =>
    cases ys with
    | nil =>
      rw [List.nil_append] at heq
      rcases hrest' with rfl | ⟨more, rfl⟩
      · cases heq
      · rw [List.cons_append, List.cons.injEq] at heq
        rw [heq.1] at hx
        exact absurd List.mem_cons_self hx
    | cons y ys =>
      rw [List.cons_append, List.cons_append, List.cons.injEq] at heq
      rw [List.mem_cons, not_or] at hx hy
      obtain ⟨rfl, htail⟩ := heq
      obtain ⟨rfl, hmore⟩ := ih hx.2 hy.2 htail
      exact ⟨rfl, hmore⟩

/-! ## Ended fields -/

/-- A text that is cut off ends inside the first field, or the field is whole. -/
theorem prefix_append_cons_iff {cut field tail : List γ} :
    cut <+: field ++ separator :: tail ↔
      cut <+: field ∨ ∃ behind, cut = field ++ separator :: behind ∧ behind <+: tail := by
  constructor
  · intro h
    rcases List.prefix_or_prefix_of_prefix h (List.prefix_append field _) with hfield | ⟨more, rfl⟩
    · exact Or.inl hfield
    · rw [List.prefix_append_right_inj, List.prefix_cons_iff] at h
      rcases h with rfl | ⟨behind, rfl, hbehind⟩
      · rw [List.append_nil]
        exact Or.inl (List.prefix_refl field)
      · exact Or.inr ⟨behind, rfl, hbehind⟩
  · rintro (hfield | ⟨behind, rfl, hbehind⟩)
    · exact hfield.trans (List.prefix_append field _)
    · rw [List.prefix_append_right_inj, List.prefix_cons_inj]
      exact hbehind

section

variable [DecidableEq γ]

/-- The field before the next separator and what follows the separator, when there is one. -/
def readField (separator : γ) : List γ → Option (List γ × List γ)
  | [] => none
  | x :: rest =>
    if x = separator then some ([], rest)
    else (readField separator rest).map fun read => (x :: read.1, read.2)

/-- An ended field is read whole, whatever follows it. -/
theorem readField_append {field : List γ} (h : separator ∉ field) (rest : List γ) :
    readField separator (field ++ separator :: rest) = some (field, rest) := by
  induction field with
  | nil => exact if_pos rfl
  | cons x field ih =>
    rw [List.mem_cons, not_or] at h
    rw [List.cons_append, readField, if_neg (Ne.symm h.1), ih h.2]
    rfl

/-- A field that is not ended is not read. -/
theorem readField_eq_none {text : List γ} (h : separator ∉ text) : readField separator text = none := by
  induction text with
  | nil => rfl
  | cons x text ih =>
    rw [List.mem_cons, not_or] at h
    rw [readField, if_neg (Ne.symm h.1), ih h.2]
    rfl

/-- What follows a field that is read is shorter than the text. -/
theorem length_lt_of_readField {text field rest : List γ}
    (h : readField separator text = some (field, rest)) : rest.length < text.length := by
  induction text generalizing field with
  | nil => cases h
  | cons x text ih =>
    rw [readField] at h
    split at h
    · next =>
      cases h
      exact Nat.lt_succ_self _
    · next =>
      cases hread : readField separator text with
      | none =>
        rw [hread] at h
        cases h
      | some read =>
        rw [hread] at h
        cases h
        exact Nat.lt_succ_of_lt (ih hread)

end

end BuildConductor.Base
