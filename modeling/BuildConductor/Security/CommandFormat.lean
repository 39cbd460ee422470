import BuildConductor.Base.SelfDelimiting
import BuildConductor.Security.Authority

/-!
# The text of a command

A command is shown to the user with its arguments plain where that is safe and as JSON string
literals elsewhere. The text determines the command, so what is approved is what runs.
`src/src/domain/command-format.ts`.
-/

namespace BuildConductor.Security

open Base Domain

/-! ## String literals -/

/-- The value of a hexadecimal digit. -/
private def hexValue (c : Char) : Nat :=
  if c.isDigit then c.toNat - '0'.toNat else c.toNat - 'a'.toNat + 10

/-- The character a string literal goes on with, and the rest of the literal. -/
private def readEscaped : List Char → Option (Char × List Char)
  | '\\' :: 'n' :: rest => some ('\n', rest)
  | '\\' :: 'r' :: rest => some ('\r', rest)
  | '\\' :: 't' :: rest => some ('\t', rest)
  | '\\' :: 'b' :: rest => some (Char.ofNat 0x08, rest)
  | '\\' :: 'f' :: rest => some (Char.ofNat 0x0C, rest)
  | '\\' :: 'u' :: '0' :: '0' :: high :: low :: rest =>
    some (Char.ofNat (16 * hexValue high + hexValue low), rest)
  | '\\' :: c :: rest => some (c, rest)
  | c :: rest => some (c, rest)
  | [] => none

private theorem hexValue_hexDigit (n : Nat) : hexValue (hexDigit n) = n % 16 := by
  have hall : ∀ k < 16, hexValue (("0123456789abcdef".toList)[k]?.getD '0') = k := by decide +kernel
  exact hall (n % 16) (Nat.mod_lt n (by omega))

/-- A control character is written with the two digits of its code. -/
private theorem readEscaped_control {c : Char} (hcontrol : c.toNat < 0x20) (rest : List Char) :
    readEscaped ('\\' :: 'u' :: '0' :: '0' :: hexDigit (c.toNat / 16) :: hexDigit c.toNat :: rest) =
      some (c, rest) := by
  have hcode : 16 * (c.toNat / 16 % 16) + c.toNat % 16 = c.toNat := by omega
  show some (Char.ofNat (16 * hexValue (hexDigit (c.toNat / 16)) + hexValue (hexDigit c.toNat)), rest) =
    some (c, rest)
  rw [hexValue_hexDigit, hexValue_hexDigit, hcode, Char.ofNat_toNat]

private theorem readEscaped_plain {c : Char} (hbackslash : c ≠ '\\') (rest : List Char) :
    readEscaped (c :: rest) = some (c, rest) := by
  unfold readEscaped
  split <;> simp_all

/-- A written character is read back, whatever follows it. -/
private theorem readEscaped_escapeChar (c : Char) (rest : List Char) :
    readEscaped (escapeChar c ++ rest) = some (c, rest) := by
  unfold escapeChar
  by_cases hquote : c = '"'
  · subst hquote
    rfl
  by_cases hbackslash : c = '\\'
  · subst hbackslash
    rfl
  rw [if_neg hquote, if_neg hbackslash]
  split
  · next h => rw [h]; rfl
  split
  · next h => rw [h]; rfl
  split
  · next h => rw [h]; rfl
  split
  · next h => rw [← Char.ofNat_toNat c, h]; rfl
  split
  · next h => rw [← Char.ofNat_toNat c, h]; rfl
  split
  · next h => exact readEscaped_control h rest
  · exact readEscaped_plain hbackslash rest

/-- A written character is never mistaken for the end of the literal. -/
private theorem escapeChar_append_ne_quote (c : Char) (rest more : List Char) :
    escapeChar c ++ rest ≠ '"' :: more := by
  intro heq
  have hread := readEscaped_escapeChar c rest
  rw [heq, readEscaped_plain (by decide), Option.some.injEq, Prod.mk.injEq] at hread
  obtain ⟨rfl, rfl⟩ := hread
  have hlength := congrArg List.length heq
  rw [List.length_append, List.length_cons] at hlength
  have htwo : (escapeChar '"').length = 2 := rfl
  omega

/-- The body of a literal and what follows it are read off its text. -/
private theorem literal_injective {cs ds rest rest' : List Char}
    (heq : cs.flatMap escapeChar ++ '"' :: rest = ds.flatMap escapeChar ++ '"' :: rest') :
    cs = ds ∧ rest = rest' := by
  induction cs generalizing ds with
  | nil =>
    cases ds with
    | nil => exact ⟨rfl, (List.cons.inj heq).2⟩
    | cons d ds =>
      rw [List.flatMap_cons, List.append_assoc] at heq
      exact absurd heq.symm (escapeChar_append_ne_quote d _ _)
  | cons c cs ih =>
    cases ds with
    | nil =>
      rw [List.flatMap_cons, List.append_assoc] at heq
      exact absurd heq (escapeChar_append_ne_quote c _ _)
    | cons d ds =>
      rw [List.flatMap_cons, List.flatMap_cons, List.append_assoc, List.append_assoc] at heq
      have hread := congrArg readEscaped heq
      rw [readEscaped_escapeChar, readEscaped_escapeChar, Option.some.injEq, Prod.mk.injEq] at hread
      obtain ⟨rfl, htail⟩ := hread
      obtain ⟨rfl, hrest⟩ := ih htail
      exact ⟨rfl, hrest⟩

/-! ## Arguments -/

private theorem isPlainArgument_spec {value : String} (h : isPlainArgument value = true) :
    ' ' ∉ value.toList ∧ value.toList.head? ≠ some '"' ∧ value.toList ≠ [] := by
  unfold isPlainArgument at h
  rw [Bool.and_eq_true, decide_eq_true_eq, List.all_eq_true] at h
  obtain ⟨hne, hall⟩ := h
  refine ⟨fun hmem => absurd (hall ' ' hmem) (by decide), fun hhead => ?_, fun hnil => ?_⟩
  · exact absurd (hall '"' (List.mem_of_mem_head? hhead)) (by decide)
  · exact hne (String.toList_eq_nil_iff.mp hnil)

private theorem quote_toList (value : String) :
    (quote value).toList = '"' :: (value.toList.flatMap escapeChar ++ ['"']) := by
  unfold quote
  rw [String.toList_ofList]
  rfl

/-- A plain argument never starts as a literal does. -/
private theorem plain_ne_literal {value other : String} {rest rest' : List Char}
    (h : isPlainArgument value = true) : value.toList ++ rest ≠ (quote other).toList ++ rest' := by
  intro heq
  obtain ⟨-, hhead, hne⟩ := isPlainArgument_spec h
  rw [quote_toList] at heq
  obtain ⟨c, cs, hvalue⟩ := List.exists_cons_of_ne_nil hne
  rw [hvalue] at heq hhead
  exact hhead (congrArg some (List.cons.inj heq).1)

/-- The text of an argument shows where it ends, in either form. -/
theorem quoteArgument_selfDelimiting :
    SelfDelimiting ' ' fun value => (quoteArgument value).toList := by
  intro value other rest rest' hrest hrest' heq
  dsimp only at heq
  unfold quoteArgument at heq
  cases hvalue : isPlainArgument value with
  | true =>
    cases hother : isPlainArgument other with
    | true =>
      rw [if_pos hvalue, if_pos hother] at heq
      obtain ⟨hsame, hmore⟩ := append_inj_of_ends (isPlainArgument_spec hvalue).1
        (isPlainArgument_spec hother).1 hrest hrest' heq
      exact ⟨String.toList_inj.mp hsame, hmore⟩
    | false =>
      rw [if_pos hvalue, if_neg (by rw [hother]; simp)] at heq
      exact absurd heq (plain_ne_literal hvalue)
  | false =>
    cases hother : isPlainArgument other with
    | true =>
      rw [if_neg (by rw [hvalue]; simp), if_pos hother] at heq
      exact absurd heq.symm (plain_ne_literal hother)
    | false =>
      rw [if_neg (by rw [hvalue]; simp), if_neg (by rw [hother]; simp), quote_toList, quote_toList,
        List.cons_append, List.cons_append, List.cons.injEq, List.append_assoc, List.append_assoc] at heq
      obtain ⟨hsame, hmore⟩ := literal_injective heq.2
      exact ⟨String.toList_inj.mp hsame, hmore⟩

/-- Two commands with the same text are the same command with the same arguments. -/
theorem formatCommand_injective : Function.Injective formatCommand := by
  intro left right heq
  have htext : [' '].intercalate
        ((left.command :: left.args).map fun value => (quoteArgument value).toList) =
      [' '].intercalate
        ((right.command :: right.args).map fun value => (quoteArgument value).toList) := by
    have hlist := congrArg String.toList heq
    unfold formatCommand at hlist
    rw [String.toList_intercalate, String.toList_intercalate, List.map_map, List.map_map] at hlist
    exact hlist
  obtain ⟨hcommand, hargs⟩ := quoteArgument_selfDelimiting.intercalate_injective htext
  cases left
  cases right
  cases hcommand
  cases hargs
  rfl

end BuildConductor.Security
