import BuildConductor.Base.Utf8

/-!
# Decoding bytes chunk by chunk

Bytes that are cut where a character starts decode part by part. Bytes that are cut inside a
character do not: each part has a replacement character of its own, and the text gets longer.
-/

namespace BuildConductor.Base

/-! ## The first character of some bytes -/

/-- The first character some bytes decode to, and how many of them it takes. -/
def firstUnit (bytes : List UInt8) : Char × Nat :=
  match bytes.toByteArray.utf8DecodeChar? 0 with
  | some c => (c, c.utf8Size)
  | none => ('\uFFFD', malformedLength bytes)

/-- Bytes that start with a character are its bytes and others. -/
private theorem append_of_decodeChar {bytes : List UInt8} {c : Char}
    (h : bytes.toByteArray.utf8DecodeChar? 0 = some c) :
    ∃ rest, bytes = String.utf8EncodeChar c ++ rest := by
  obtain ⟨rest, hrest⟩ := ByteArray.exists_of_utf8DecodeChar?_eq_some h
  refine ⟨rest.data.toList, ?_⟩
  have hdata := congrArg (fun array : ByteArray => array.data.toList) hrest
  simpa using hdata

private theorem decodeChar_append (c : Char) (rest : List UInt8) :
    (String.utf8EncodeChar c ++ rest).toByteArray.utf8DecodeChar? 0 = some c := by
  rw [List.toByteArray_append]
  exact ByteArray.utf8DecodeChar?_utf8EncodeChar_append

private theorem malformedLength_pos (bytes : List UInt8) : 0 < malformedLength bytes := by
  unfold malformedLength
  split
  · split
    · split <;> omega
    · omega
  · split <;> omega
  · omega

private theorem malformedLength_le {bytes : List UInt8} (h : bytes ≠ []) :
    malformedLength bytes ≤ bytes.length := by
  unfold malformedLength
  split
  · simp only [List.length_cons]
    split
    · split <;> omega
    · omega
  · simp only [List.length_cons, List.length_nil]
    split <;> omega
  · exact List.length_pos_iff.mpr h

theorem firstUnit_pos (bytes : List UInt8) : 0 < (firstUnit bytes).2 := by
  unfold firstUnit
  split
  · exact Char.utf8Size_pos _
  · exact malformedLength_pos bytes

theorem firstUnit_le {bytes : List UInt8} (h : bytes ≠ []) : (firstUnit bytes).2 ≤ bytes.length := by
  unfold firstUnit
  split
  · next c hc =>
    obtain ⟨rest, rfl⟩ := append_of_decodeChar hc
    rw [List.length_append, String.length_utf8EncodeChar]
    omega
  · exact malformedLength_le h

private theorem decodeBytes_firstUnit (fuel : Nat) {bytes : List UInt8} (h : bytes ≠ []) :
    decodeBytes (fuel + 1) bytes =
      (firstUnit bytes).1 :: decodeBytes fuel (bytes.drop (firstUnit bytes).2) := by
  cases bytes with
  | nil => exact absurd rfl h
  | cons byte rest =>
    rw [decodeBytes]
    unfold firstUnit
    cases (byte :: rest).toByteArray.utf8DecodeChar? 0 with
    | none => rfl
    | some c => rfl

private theorem decodeBytes_eq {fuel : Nat} {bytes : List UInt8} (h : bytes.length ≤ fuel) :
    decodeBytes fuel bytes = decodeUtf8 bytes := by
  induction fuel using Nat.strongRecOn generalizing bytes with
  | ind fuel ih =>
    by_cases hnil : bytes = []
    · rw [hnil]
      cases fuel <;> rfl
    · have hpos := List.length_pos_iff.mpr hnil
      have hunit := firstUnit_pos bytes
      have hshort : (bytes.drop (firstUnit bytes).2).length ≤ fuel - 1 := by
        rw [List.length_drop]
        omega
      obtain ⟨less, rfl⟩ : ∃ less, fuel = less + 1 := ⟨fuel - 1, by omega⟩
      unfold decodeUtf8
      obtain ⟨length, hlength⟩ : ∃ length, bytes.length = length + 1 :=
        ⟨bytes.length - 1, by omega⟩
      have hshorter : (bytes.drop (firstUnit bytes).2).length ≤ length := by
        rw [List.length_drop]
        omega
      rw [hlength, decodeBytes_firstUnit less hnil, decodeBytes_firstUnit length hnil,
        ih less (by omega) hshort, ih length (by omega) hshorter]

@[simp] theorem decodeUtf8_nil : decodeUtf8 [] = [] := rfl

/-- Decoding goes character by character. -/
theorem decodeUtf8_firstUnit {bytes : List UInt8} (h : bytes ≠ []) :
    decodeUtf8 bytes = (firstUnit bytes).1 :: decodeUtf8 (bytes.drop (firstUnit bytes).2) := by
  obtain ⟨length, hlength⟩ : ∃ length, bytes.length = length + 1 :=
    ⟨bytes.length - 1, by have := List.length_pos_iff.mpr h; omega⟩
  have hunit := firstUnit_pos bytes
  conv_lhs => unfold decodeUtf8
  rw [hlength, decodeBytes_firstUnit length h, decodeBytes_eq]
  rw [List.length_drop]
  omega

/-! ## Where characters start -/

/-- Nothing follows, or a byte that starts a character. -/
def StartsCharacter (bytes : List UInt8) : Prop := ∀ byte ∈ bytes.head?, byte.IsUTF8FirstByte

instance (bytes : List UInt8) : Decidable (StartsCharacter bytes) :=
  inferInstanceAs (Decidable (∀ byte ∈ bytes.head?, byte.IsUTF8FirstByte))

/-- A byte that starts a character does not continue one. -/
private theorem not_continuation {byte : UInt8} (h : byte.IsUTF8FirstByte) :
    ¬ (0x80 ≤ byte ∧ byte ≤ 0xBF) := by
  have hall : ∀ n : Fin 256, (UInt8.ofFin n).IsUTF8FirstByte →
      ¬ (0x80 ≤ UInt8.ofFin n ∧ UInt8.ofFin n ≤ 0xBF) := by
    decide +kernel
  exact hall byte.toFin h

private theorem malformedLength_append {bytes later : List UInt8} (h : bytes ≠ [])
    (hlater : StartsCharacter later) : malformedLength (bytes ++ later) = malformedLength bytes := by
  have hstarts : ∀ byte rest, later = byte :: rest → ¬ (0x80 ≤ byte ∧ byte ≤ 0xBF) := by
    rintro byte rest rfl
    exact not_continuation (hlater byte rfl)
  match bytes, later with
  | [], _ => exact absurd rfl h
  | bytes, [] => rw [List.append_nil]
  | [first], second :: rest =>
    have hfollow : mayFollow first second = false := by
      have hsecond := hstarts second rest rfl
      unfold mayFollow
      simp only [Bool.and_eq_false_iff, decide_eq_false_iff_not]
      by_cases hlow : 0x80 ≤ second
      · have hhigh : ¬ second ≤ 0xBF := fun hhigh => hsecond ⟨hlow, hhigh⟩
        simp [hhigh]
      · simp [hlow]
    cases rest with
    | nil =>
      show malformedLength [first, second] = 1
      simp only [malformedLength, hfollow]
      rfl
    | cons third rest =>
      show malformedLength (first :: second :: third :: rest) = 1
      simp only [malformedLength, hfollow]
      rfl
  | [first, second], third :: rest =>
    have hthird := hstarts third rest rfl
    show malformedLength (first :: second :: third :: rest) = malformedLength [first, second]
    simp only [malformedLength, Bool.and_eq_true, decide_eq_true_eq]
    by_cases hlow : 0x80 ≤ third
    · have hhigh : ¬ third ≤ 0xBF := fun hhigh => hthird ⟨hlow, hhigh⟩
      simp [hhigh]
    · simp [hlow]
  | first :: second :: third :: rest, later => rfl

/-- Bytes that end inside the character they start with are followed by no start of another. -/
private theorem not_startsCharacter {bytes later rest : List UInt8} {c : Char}
    (h : bytes ++ later = String.utf8EncodeChar c ++ rest) (hne : bytes ≠ [])
    (hlength : bytes.length < (String.utf8EncodeChar c).length) : ¬ StartsCharacter later := by
  intro hlater
  have hbyte : (String.utf8EncodeChar c)[bytes.length] ∈ later.head? := by
    have hget := congrArg (fun xs => xs[bytes.length]?) h
    rw [List.getElem?_append_right (Nat.le_refl _), Nat.sub_self,
      List.getElem?_append_left hlength, List.getElem?_eq_getElem hlength] at hget
    rw [List.head?_eq_getElem?, hget]
    rfl
  have hfirst := UInt8.isUTF8FirstByte_getElem_utf8EncodeChar.mp (hlater _ hbyte)
  exact hne (List.length_eq_zero_iff.mp hfirst)

/-- Where a character starts afterwards, the first character is the same without what follows. -/
private theorem firstUnit_append {bytes later : List UInt8} (h : bytes ≠ [])
    (hlater : StartsCharacter later) : firstUnit (bytes ++ later) = firstUnit bytes := by
  unfold firstUnit
  cases hdecode : bytes.toByteArray.utf8DecodeChar? 0 with
  | some c =>
    have happend := ByteArray.utf8DecodeChar?_append_eq_some hdecode later.toByteArray
    rw [← List.toByteArray_append] at happend
    rw [happend]
  | none =>
    cases happend : (bytes ++ later).toByteArray.utf8DecodeChar? 0 with
    | none =>
      dsimp only
      rw [malformedLength_append h hlater]
    | some c =>
      obtain ⟨rest, hrest⟩ := append_of_decodeChar happend
      -- The bytes of the character end within `bytes`, or a later byte of them starts a character.
      by_cases hshort : (String.utf8EncodeChar c).length ≤ bytes.length
      · obtain ⟨tail, htail⟩ := List.prefix_of_prefix_length_le ⟨rest, hrest.symm⟩
          (List.prefix_append bytes later) hshort
        rw [← htail, decodeChar_append] at hdecode
        cases hdecode
      · exact absurd hlater (not_startsCharacter hrest h (by omega))

/-- Bytes cut where a character starts decode part by part. -/
theorem decodeUtf8_append {bytes later : List UInt8} (hlater : StartsCharacter later) :
    decodeUtf8 (bytes ++ later) = decodeUtf8 bytes ++ decodeUtf8 later := by
  induction hlength : bytes.length using Nat.strongRecOn generalizing bytes with
  | ind length ih =>
    by_cases hnil : bytes = []
    · rw [hnil]
      rfl
    · have hpos := firstUnit_pos bytes
      have hle := firstUnit_le hnil
      have happend : bytes ++ later ≠ [] := fun h => hnil (List.append_eq_nil_iff.mp h).1
      rw [decodeUtf8_firstUnit happend, decodeUtf8_firstUnit hnil, firstUnit_append hnil hlater,
        List.drop_append_of_le_length hle, List.cons_append]
      rw [ih _ (by rw [List.length_drop]; omega) rfl]

/-! ## Counting characters -/

/-- How many of some bytes start a character. -/
def charactersIn (bytes : List UInt8) : Nat := bytes.countP fun byte => decide byte.IsUTF8FirstByte

theorem charactersIn_append (bytes later : List UInt8) :
    charactersIn (bytes ++ later) = charactersIn bytes + charactersIn later := List.countP_append

private theorem charactersIn_utf8EncodeChar (c : Char) :
    charactersIn (String.utf8EncodeChar c) = 1 := by
  have hpos := Char.utf8Size_pos c
  have hlength := String.length_utf8EncodeChar c
  cases hbytes : String.utf8EncodeChar c with
  | nil =>
    rw [hbytes, List.length_nil] at hlength
    omega
  | cons first rest =>
    have hfirst : first.IsUTF8FirstByte := by
      have hzero : 0 < (String.utf8EncodeChar c).length := by omega
      have hstarts : (String.utf8EncodeChar c)[0].IsUTF8FirstByte :=
        UInt8.isUTF8FirstByte_getElem_utf8EncodeChar.mpr rfl
      simpa only [hbytes, List.getElem_cons_zero] using hstarts
    have hrest : ∀ byte ∈ rest, ¬ byte.IsUTF8FirstByte := by
      intro byte hbyte hstarts
      obtain ⟨i, hi, rfl⟩ := List.getElem_of_mem hbyte
      have hindex : i + 1 < (String.utf8EncodeChar c).length := by
        rw [hbytes, List.length_cons]
        omega
      have hsame : (String.utf8EncodeChar c)[i + 1] = rest[i] := by
        simp only [hbytes, List.getElem_cons_succ]
      rw [← hsame] at hstarts
      exact absurd (UInt8.isUTF8FirstByte_getElem_utf8EncodeChar.mp hstarts) (by omega)
    unfold charactersIn
    rw [List.countP_cons_of_pos (by simpa using hfirst), List.countP_eq_zero.mpr]
    simpa using hrest

/-- The bytes of a text start as many characters as it has. -/
theorem charactersIn_utf8Bytes (cs : List Char) : charactersIn (utf8Bytes cs) = cs.length := by
  induction cs with
  | nil => rfl
  | cons c rest ih =>
    show charactersIn (String.utf8EncodeChar c ++ utf8Bytes rest) = _
    rw [charactersIn_append, charactersIn_utf8EncodeChar, ih, List.length_cons]
    omega

private theorem leads {byte : UInt8} (h : 0xE0 ≤ byte ∧ byte ≤ 0xF4) : byte.IsUTF8FirstByte := by
  have hall : ∀ n : Fin 256, 0xE0 ≤ UInt8.ofFin n ∧ UInt8.ofFin n ≤ 0xF4 →
      (UInt8.ofFin n).IsUTF8FirstByte := by
    decide +kernel
  exact hall byte.toFin h

private theorem mayFollow_bytes {first second : UInt8} (h : mayFollow first second = true) :
    first.IsUTF8FirstByte ∧ ¬ second.IsUTF8FirstByte := by
  unfold mayFollow at h
  simp only [Bool.and_eq_true, decide_eq_true_eq] at h
  obtain ⟨⟨⟨⟨⟨⟨⟨hlow, hhigh⟩, hcontinues⟩, hends⟩, -⟩, -⟩, -⟩, -⟩ := h
  exact ⟨leads ⟨hlow, hhigh⟩, fun hfirst => not_continuation hfirst ⟨hcontinues, hends⟩⟩

private theorem charactersIn_cons_of_not {byte : UInt8} {rest : List UInt8}
    (h : ¬ byte.IsUTF8FirstByte) : charactersIn (byte :: rest) = charactersIn rest := by
  unfold charactersIn
  rw [List.countP_cons_of_neg (by simpa using h)]

private theorem charactersIn_cons_le (byte : UInt8) (rest : List UInt8) :
    charactersIn (byte :: rest) ≤ charactersIn rest + 1 := by
  unfold charactersIn
  rw [List.countP_cons]
  split <;> omega

/-- A malformed part starts one character at most, and none when its first byte starts none. -/
private theorem charactersIn_malformed {first : UInt8} {rest : List UInt8} :
    charactersIn ((first :: rest).take (malformedLength (first :: rest))) ≤ 1 ∧
      (¬ first.IsUTF8FirstByte →
        charactersIn ((first :: rest).take (malformedLength (first :: rest))) = 0) := by
  have hone : charactersIn [first] ≤ 1 ∧ (¬ first.IsUTF8FirstByte → charactersIn [first] = 0) :=
    ⟨charactersIn_cons_le first [], fun h => charactersIn_cons_of_not h⟩
  have htwo : ∀ second, mayFollow first second = true →
      charactersIn [first, second] ≤ 1 ∧
        (¬ first.IsUTF8FirstByte → charactersIn [first, second] = 0) := by
    intro second hfollow
    obtain ⟨hfirst, hsecond⟩ := mayFollow_bytes hfollow
    have hle := charactersIn_cons_le first [second]
    rw [charactersIn_cons_of_not hsecond] at hle
    exact ⟨hle, fun hnot => absurd hfirst hnot⟩
  match rest with
  | [] => exact hone
  | [second] =>
    by_cases hfollow : mayFollow first second = true
    · have hlength : malformedLength [first, second] = 2 := by simp [malformedLength, hfollow]
      rw [hlength]
      exact htwo second hfollow
    · have hlength : malformedLength [first, second] = 1 := by simp [malformedLength, hfollow]
      rw [hlength]
      exact hone
  | second :: third :: rest =>
    by_cases hfollow : mayFollow first second = true
    · by_cases hthree : 0xF0 ≤ first ∧ 0x80 ≤ third ∧ third ≤ 0xBF
      · have hlength : malformedLength (first :: second :: third :: rest) = 3 := by
          simp [malformedLength, hfollow, hthree]
        rw [hlength]
        obtain ⟨hfirst, hsecond⟩ := mayFollow_bytes hfollow
        have hthird : ¬ third.IsUTF8FirstByte := fun h => not_continuation h hthree.2
        have hle := charactersIn_cons_le first [second, third]
        rw [charactersIn_cons_of_not hsecond, charactersIn_cons_of_not hthird] at hle
        exact ⟨hle, fun hnot => absurd hfirst hnot⟩
      · have hlength : malformedLength (first :: second :: third :: rest) = 2 := by
          simp only [malformedLength, hfollow, if_true, Bool.and_eq_true, decide_eq_true_eq]
          rw [if_neg]
          rintro ⟨⟨hfour, hcontinues⟩, hends⟩
          exact hthree ⟨hfour, hcontinues, hends⟩
        rw [hlength]
        exact htwo second hfollow
    · have hlength : malformedLength (first :: second :: third :: rest) = 1 := by
        simp [malformedLength, hfollow]
      rw [hlength]
      exact hone

private theorem charactersIn_firstUnit {first : UInt8} {rest : List UInt8} :
    charactersIn ((first :: rest).take (firstUnit (first :: rest)).2) ≤ 1 ∧
      (¬ first.IsUTF8FirstByte →
        charactersIn ((first :: rest).take (firstUnit (first :: rest)).2) = 0) := by
  unfold firstUnit
  cases hdecode : (first :: rest).toByteArray.utf8DecodeChar? 0 with
  | none => exact charactersIn_malformed
  | some c =>
    obtain ⟨tail, htail⟩ := append_of_decodeChar hdecode
    dsimp only
    rw [htail, ← String.length_utf8EncodeChar c, List.take_left, charactersIn_utf8EncodeChar]
    refine ⟨Nat.le_refl 1, fun hnot => ?_⟩
    have hpos := Char.utf8Size_pos c
    have hlength := String.length_utf8EncodeChar c
    have hzero : 0 < (String.utf8EncodeChar c).length := by omega
    have hstarts : (String.utf8EncodeChar c)[0].IsUTF8FirstByte :=
      UInt8.isUTF8FirstByte_getElem_utf8EncodeChar.mpr rfl
    have hsame : (String.utf8EncodeChar c)[0] = first := by
      have hget := congrArg (fun xs => xs[0]?) htail
      rw [List.getElem?_append_left hzero, List.getElem?_eq_getElem hzero] at hget
      exact (Option.some.inj hget).symm
    rw [hsame] at hstarts
    exact absurd hstarts hnot

/-- No bytes decode to fewer characters than they start, and bytes that begin inside a character
decode to more. -/
theorem charactersIn_le (bytes : List UInt8) :
    charactersIn bytes ≤ (decodeUtf8 bytes).length ∧
      (¬ StartsCharacter bytes → charactersIn bytes < (decodeUtf8 bytes).length) := by
  induction hlength : bytes.length using Nat.strongRecOn generalizing bytes with
  | ind length ih =>
    cases bytes with
    | nil => exact ⟨Nat.le_refl 0, fun hnot => absurd nofun hnot⟩
    | cons first rest =>
      have hpos := firstUnit_pos (first :: rest)
      have hnonempty : 0 < length := hlength ▸ Nat.succ_pos _
      have hcount := charactersIn_append
        ((first :: rest).take (firstUnit (first :: rest)).2)
        ((first :: rest).drop (firstUnit (first :: rest)).2)
      have hrest := (ih _ (by rw [List.length_drop]; omega)
        ((first :: rest).drop (firstUnit (first :: rest)).2) rfl).1
      rw [List.take_append_drop] at hcount
      rw [decodeUtf8_firstUnit (List.cons_ne_nil first rest), List.length_cons]
      obtain ⟨hone, hnone⟩ := @charactersIn_firstUnit first rest
      refine ⟨by omega, fun hnot => ?_⟩
      have hfirst : ¬ first.IsUTF8FirstByte := by
        intro hstarts
        refine hnot fun byte hbyte => ?_
        cases hbyte
        exact hstarts
      have hzero := hnone hfirst
      omega

/-! ## The first line -/

/-- The first line of a text, without its break. -/
def firstLine (cs : List Char) : List Char := cs.takeWhile (· ≠ '\n')

theorem lineBreak_not_mem_firstLine (cs : List Char) : '\n' ∉ firstLine cs := by
  intro h
  simpa using List.mem_takeWhile_imp h

theorem firstLine_of_not_mem {cs : List Char} (h : '\n' ∉ cs) : firstLine cs = cs := by
  unfold firstLine
  rw [List.takeWhile_eq_self_iff]
  intro c hc
  have hne : c ≠ '\n' := fun heq => h (heq ▸ hc)
  simpa using hne

theorem firstLine_append {cs : List Char} (h : '\n' ∉ cs) (later : List Char) :
    firstLine (cs ++ later) = cs ++ firstLine later := by
  unfold firstLine
  rw [List.takeWhile_append_of_pos]
  intro c hc
  have hne : c ≠ '\n' := fun heq => h (heq ▸ hc)
  simpa using hne

theorem firstLine_lineBreak (later : List Char) : firstLine ('\n' :: later) = [] := rfl

/-- A text with a line break continues with it after its first line. -/
theorem exists_firstLine {cs : List Char} (h : '\n' ∈ cs) :
    ∃ later, cs = firstLine cs ++ '\n' :: later := by
  induction cs with
  | nil => cases h
  | cons c rest ih =>
    by_cases hbreak : c = '\n'
    · exact ⟨rest, by rw [hbreak]; rfl⟩
    · obtain ⟨later, hlater⟩ := ih ((List.mem_cons.mp h).resolve_left (Ne.symm hbreak))
      have hfirst : firstLine (c :: rest) = c :: firstLine rest :=
        List.takeWhile_cons_of_pos (by simpa using hbreak)
      exact ⟨later, by rw [hfirst, List.cons_append, ← hlater]⟩

/-- What a character is decoded from: its bytes, unless it replaces what is malformed. -/
private theorem mem_decodeUtf8 {bytes : List UInt8} {c : Char} (h : c ∈ decodeUtf8 bytes) :
    c = '\uFFFD' ∨ ∀ byte ∈ String.utf8EncodeChar c, byte ∈ bytes := by
  induction hlength : bytes.length using Nat.strongRecOn generalizing bytes with
  | ind length ih =>
    by_cases hnil : bytes = []
    · rw [hnil] at h
      cases h
    · have hpos := firstUnit_pos bytes
      have hnonempty := List.length_pos_iff.mpr hnil
      rw [decodeUtf8_firstUnit hnil] at h
      rcases List.mem_cons.mp h with hfirst | hrest
      · unfold firstUnit at hfirst
        split at hfirst
        · next d hdecode =>
          obtain ⟨rest, hbytes⟩ := append_of_decodeChar hdecode
          right
          intro byte hbyte
          rw [hfirst] at hbyte
          rw [hbytes]
          exact List.mem_append_left _ hbyte
        · exact Or.inl hfirst
      · rcases ih _ (by rw [List.length_drop]; omega) hrest rfl with hreplaced | hbytes
        · exact Or.inl hreplaced
        · exact Or.inr fun byte hbyte => List.mem_of_mem_drop (hbytes byte hbyte)

/-- Bytes without a line break decode to a text without one. -/
theorem lineBreak_not_mem_decodeUtf8 {bytes : List UInt8} (h : lineBreakByte ∉ bytes) :
    '\n' ∉ decodeUtf8 bytes := by
  intro hmem
  rcases mem_decodeUtf8 hmem with hreplaced | hbytes
  · exact absurd hreplaced (by decide)
  · exact h (hbytes lineBreakByte (by decide))

/-- A line break cuts what is decoded, whatever follows it. -/
theorem decodeUtf8_lineBreak (bytes later : List UInt8) :
    decodeUtf8 (bytes ++ lineBreakByte :: later) =
      decodeUtf8 bytes ++ '\n' :: decodeUtf8 later := by
  have hstarts : StartsCharacter (lineBreakByte :: later) := by
    intro byte hbyte
    cases hbyte
    decide
  rw [decodeUtf8_append hstarts, decodeUtf8_firstUnit (List.cons_ne_nil _ _)]
  have hdecode : (lineBreakByte :: later).toByteArray.utf8DecodeChar? 0 = some '\n' :=
    decodeChar_append '\n' later
  have hunit : firstUnit (lineBreakByte :: later) = ('\n', 1) := by
    unfold firstUnit
    rw [hdecode]
    rfl
  rw [hunit]
  rfl

/-! ## Chunks -/

/-- The texts of some chunks, each decoded by itself. -/
def decodeChunks (chunks : List (List UInt8)) : List Char := chunks.flatMap decodeUtf8

theorem decodeChunks_concat (chunks : List (List UInt8)) (chunk : List UInt8) :
    decodeChunks (chunks ++ [chunk]) = decodeChunks chunks ++ decodeUtf8 chunk := by
  unfold decodeChunks
  rw [List.flatMap_append, List.flatMap_cons, List.flatMap_nil, List.append_nil]

/-- Every chunk that begins within some first bytes begins with a character. -/
def CutsAtCharacters (within : Nat) (chunks : List (List UInt8)) : Prop :=
  ∀ before chunk after, chunks = before ++ chunk :: after → before.flatten.length ≤ within →
    StartsCharacter chunk

/-- Bytes of a text cut where a character starts are the bytes of its parts. -/
private theorem exists_parts {bytes later : List UInt8} {cs : List Char}
    (h : bytes ++ later = utf8Bytes cs) (hlater : StartsCharacter later) :
    ∃ xs ys, cs = xs ++ ys ∧ bytes = utf8Bytes xs ∧ later = utf8Bytes ys := by
  induction cs generalizing bytes with
  | nil =>
    obtain ⟨rfl, rfl⟩ := List.append_eq_nil_iff.mp h
    exact ⟨[], [], rfl, rfl, rfl⟩
  | cons c rest ih =>
    by_cases hnil : bytes = []
    · rw [hnil, List.nil_append] at h
      exact ⟨[], c :: rest, rfl, hnil, h⟩
    · have hbytes : bytes ++ later = String.utf8EncodeChar c ++ utf8Bytes rest := h
      by_cases hlength : bytes.length < (String.utf8EncodeChar c).length
      · exact absurd hlater (not_startsCharacter hbytes hnil hlength)
      · obtain ⟨tail, htail⟩ := List.prefix_of_prefix_length_le ⟨_, hbytes.symm⟩
          (List.prefix_append bytes later) (by omega)
        rw [← htail, List.append_assoc, List.append_cancel_left_eq] at hbytes
        obtain ⟨xs, ys, hcs, hxs, hys⟩ := ih hbytes
        refine ⟨c :: xs, ys, by rw [hcs, List.cons_append], ?_, hys⟩
        rw [← htail, hxs]
        rfl

/-- What the first chunks decode to: a part of the first line, or all of it with its break. -/
private inductive Decoded (cs : List Char) (before : List (List UInt8)) : Prop
  | within (xs : List Char) (hbytes : before.flatten = utf8Bytes xs)
      (htext : decodeChunks before = xs) (hpart : xs <+: firstLine cs)
  | past (later : List Char) (hbreak : '\n' ∈ cs)
      (htext : decodeChunks before = firstLine cs ++ '\n' :: later)

private theorem startsCharacter_flatten {chunks : List (List UInt8)}
    (h : ∀ before chunk after, chunks = before ++ chunk :: after → before.flatten = [] →
      StartsCharacter chunk) : StartsCharacter chunks.flatten := by
  induction chunks with
  | nil => exact nofun
  | cons first rest ih =>
    have hfirst := h [] first rest rfl rfl
    cases first with
    | nil =>
      apply ih
      intro before chunk after hrest hempty
      exact h ([] :: before) chunk after (by rw [hrest, List.cons_append]) hempty
    | cons byte bytes =>
      intro head hhead
      exact hfirst head hhead

private theorem length_utf8Bytes_pos {c : Char} {cs : List Char} :
    0 < (utf8Bytes (c :: cs)).length := by
  show 0 < (String.utf8EncodeChar c ++ utf8Bytes cs).length
  rw [List.length_append, String.length_utf8EncodeChar]
  have hpos := Char.utf8Size_pos c
  omega

/-- Of two first parts of a text, the one with no more bytes is the first part of the other. -/
private theorem prefix_of_bytes_le {xs ys cs : List Char} (hxs : xs <+: cs) (hys : ys <+: cs)
    (h : (utf8Bytes xs).length ≤ (utf8Bytes ys).length) : xs <+: ys := by
  rcases List.prefix_or_prefix_of_prefix hxs hys with hprefix | ⟨tail, rfl⟩
  · exact hprefix
  · cases tail with
    | nil =>
      simp
    | cons c tail =>
      rw [utf8Bytes_append, List.length_append] at h
      have hpos := @length_utf8Bytes_pos c tail
      omega

private theorem firstLine_isFirst (cs : List Char) : firstLine cs <+: cs := List.takeWhile_prefix _

/-- The chunk that begins within the first line ends within it or holds its break. -/
private theorem decoded_chunk {zs : List Char} {chunk : List UInt8} {after : List (List UInt8)}
    (h : chunk ++ after.flatten = utf8Bytes zs)
    (hafter : chunk.length ≤ (utf8Bytes (firstLine zs)).length →
      StartsCharacter after.flatten) :
    (∃ xs, chunk = utf8Bytes xs ∧ xs <+: firstLine zs) ∨
      ∃ later, '\n' ∈ zs ∧ decodeUtf8 chunk = firstLine zs ++ '\n' :: later := by
  by_cases hwithin : chunk.length ≤ (utf8Bytes (firstLine zs)).length
  · obtain ⟨xs, ys, hzs, rfl, -⟩ := exists_parts h (hafter hwithin)
    exact Or.inl ⟨xs, rfl, prefix_of_bytes_le ⟨ys, hzs.symm⟩ (firstLine_isFirst zs) hwithin⟩
  · right
    have hbreak : '\n' ∈ zs := by
      by_contra hnone
      have hlength := congrArg List.length h
      rw [firstLine_of_not_mem hnone] at hwithin
      rw [List.length_append] at hlength
      omega
    obtain ⟨later, hlater⟩ := exists_firstLine hbreak
    have hbytes : chunk ++ after.flatten =
        (utf8Bytes (firstLine zs) ++ [lineBreakByte]) ++ utf8Bytes later := by
      rw [h, List.append_assoc]
      conv_lhs => rw [hlater]
      rw [← List.singleton_append, utf8Bytes_append, utf8Bytes_append, utf8Bytes_lineBreak]
    obtain ⟨junk, hjunk⟩ := List.prefix_of_prefix_length_le ⟨_, hbytes.symm⟩
      (List.prefix_append chunk after.flatten) (by
        rw [List.length_append, List.length_singleton]
        omega)
    refine ⟨decodeUtf8 junk, hbreak, ?_⟩
    rw [← hjunk, List.append_assoc, List.singleton_append, decodeUtf8_lineBreak,
      decodeUtf8_utf8Bytes]

private theorem decoded_of_cuts {cs : List Char} {chunks : List (List UInt8)}
    (h : chunks.flatten = utf8Bytes cs)
    (hcuts : CutsAtCharacters (utf8Bytes (firstLine cs)).length chunks)
    {before after : List (List UInt8)} (hchunks : chunks = before ++ after) :
    Decoded cs before := by
  induction before using List.reverseRecOn generalizing after with
  | nil => exact .within [] rfl rfl List.nil_prefix
  | append_singleton before chunk ih =>
    rw [List.append_assoc] at hchunks
    cases ih hchunks with
    | past later hbreak htext =>
      refine .past (later ++ decodeUtf8 chunk) hbreak ?_
      rw [decodeChunks_concat, htext, List.append_assoc, List.cons_append]
    | within xs hbytes htext hpart =>
      obtain ⟨zs, rfl⟩ := hpart.trans (firstLine_isFirst cs)
      have hnone : '\n' ∉ xs := fun hmem =>
        lineBreak_not_mem_firstLine _ (hpart.subset hmem)
      have hline : firstLine (xs ++ zs) = xs ++ firstLine zs := firstLine_append hnone zs
      have hchunk : chunk ++ after.flatten = utf8Bytes zs := by
        rw [hchunks, List.flatten_append, hbytes, utf8Bytes_append,
          List.append_cancel_left_eq] at h
        exact h
      have hdecoded := decoded_chunk hchunk (fun hwithin => by
        apply startsCharacter_flatten
        intro empty next rest hafter hempty
        apply hcuts (before ++ chunk :: empty) next rest
        · rw [hchunks, hafter, List.append_assoc]
          rfl
        · rw [List.flatten_append, List.flatten_cons, hempty, List.append_nil, hbytes, hline,
            utf8Bytes_append, List.length_append, List.length_append]
          omega)
      rcases hdecoded with ⟨ys, rfl, hys⟩ | ⟨later, hbreak, hlater⟩
      · refine .within (xs ++ ys) ?_ ?_ ?_
        · rw [List.flatten_append, hbytes, utf8Bytes_append]
          simp
        · rw [decodeChunks_concat, htext, decodeUtf8_utf8Bytes]
        · rw [hline]
          exact (List.prefix_append_right_inj xs).mpr hys
      · refine .past later (List.mem_append_right xs hbreak) ?_
        rw [decodeChunks_concat, htext, hlater, hline, List.append_assoc]

/-- What some first chunks decode to has the first line of the text, or a first part of it and no
line break. -/
theorem firstLine_decodeChunks {cs : List Char} {chunks before after : List (List UInt8)}
    (h : chunks.flatten = utf8Bytes cs)
    (hcuts : CutsAtCharacters (utf8Bytes (firstLine cs)).length chunks)
    (hchunks : chunks = before ++ after) :
    ('\n' ∈ decodeChunks before ∧ '\n' ∈ cs ∧ firstLine (decodeChunks before) = firstLine cs) ∨
      ('\n' ∉ decodeChunks before ∧ decodeChunks before <+: firstLine cs) := by
  cases decoded_of_cuts h hcuts hchunks with
  | within xs hbytes htext hpart =>
    right
    rw [htext]
    exact ⟨fun hmem => lineBreak_not_mem_firstLine _ (hpart.subset hmem), hpart⟩
  | past later hbreak htext =>
    left
    rw [htext]
    refine ⟨by simp, hbreak, ?_⟩
    rw [firstLine_append (lineBreak_not_mem_firstLine cs), firstLine_lineBreak, List.append_nil]

/-- All chunks of a text that are cut where characters start decode to its first line, and to a line
break when it has one. -/
theorem decodeChunks_of_cuts {cs : List Char} {chunks : List (List UInt8)}
    (h : chunks.flatten = utf8Bytes cs)
    (hcuts : CutsAtCharacters (utf8Bytes (firstLine cs)).length chunks) :
    firstLine (decodeChunks chunks) = firstLine cs ∧
      ('\n' ∈ decodeChunks chunks ↔ '\n' ∈ cs) := by
  cases decoded_of_cuts h hcuts (List.append_nil chunks).symm with
  | within xs hbytes htext hpart =>
    have hsame : cs = xs := by
      have hdecoded := congrArg decodeUtf8 (h.symm.trans hbytes)
      rwa [decodeUtf8_utf8Bytes, decodeUtf8_utf8Bytes] at hdecoded
    rw [htext, hsame]
    exact ⟨rfl, Iff.rfl⟩
  | past later hbreak htext =>
    rw [htext, firstLine_append (lineBreak_not_mem_firstLine cs), firstLine_lineBreak,
      List.append_nil]
    exact ⟨rfl, fun _ => hbreak, fun _ => by simp⟩

/-- The bytes before the first line break. -/
def firstLineBytes (bytes : List UInt8) : List UInt8 := bytes.takeWhile (· ≠ lineBreakByte)

theorem firstLineBytes_utf8Bytes (cs : List Char) :
    firstLineBytes (utf8Bytes cs) = utf8Bytes (firstLine cs) := by
  have hnone : ∀ byte ∈ utf8Bytes (firstLine cs), (decide (byte ≠ lineBreakByte)) = true := by
    intro byte hbyte
    have hne : byte ≠ lineBreakByte := fun heq =>
      lineBreakByte_not_mem (lineBreak_not_mem_firstLine cs) (heq ▸ hbyte)
    simpa using hne
  by_cases hbreak : '\n' ∈ cs
  · obtain ⟨later, hlater⟩ := exists_firstLine hbreak
    have hbytes : utf8Bytes cs = utf8Bytes (firstLine cs) ++ lineBreakByte :: utf8Bytes later := by
      conv_lhs => rw [hlater]
      rw [← List.singleton_append, utf8Bytes_append, utf8Bytes_append, utf8Bytes_lineBreak,
        List.singleton_append]
    unfold firstLineBytes
    rw [hbytes, List.takeWhile_append_of_pos hnone]
    simp
  · rw [firstLine_of_not_mem hbreak] at hnone ⊢
    exact List.takeWhile_eq_self_iff.mpr hnone

/-- The first line that chunks decode to has at least as many characters as its bytes start, and
more when a chunk that begins within it begins inside a character. -/
private theorem charactersIn_firstLine (chunks : List (List UInt8)) :
    charactersIn (firstLineBytes chunks.flatten) ≤ (firstLine (decodeChunks chunks)).length ∧
      (¬ CutsAtCharacters (firstLineBytes chunks.flatten).length chunks →
        charactersIn (firstLineBytes chunks.flatten) <
          (firstLine (decodeChunks chunks)).length) := by
  induction chunks with
  | nil =>
    refine ⟨Nat.le_refl 0, fun hnot => absurd ?_ hnot⟩
    intro before chunk after hchunks
    cases before <;> cases hchunks
  | cons chunk rest ih =>
    have hdecode : decodeChunks (chunk :: rest) = decodeUtf8 chunk ++ decodeChunks rest := rfl
    by_cases hbreak : lineBreakByte ∈ chunk
    · -- The first line ends in this chunk, so only this chunk begins within it.
      obtain ⟨line, junk, rfl, hline⟩ := List.eq_append_cons_of_mem hbreak
      obtain ⟨hle, hlt⟩ := charactersIn_le line
      have hnone := lineBreak_not_mem_decodeUtf8 hline
      have hbytes : firstLineBytes ((line ++ lineBreakByte :: junk) :: rest).flatten = line := by
        unfold firstLineBytes
        rw [List.flatten_cons, List.append_assoc, List.takeWhile_append_of_pos]
        · simp
        · intro byte hbyte
          have hne : byte ≠ lineBreakByte := fun heq => hline (heq ▸ hbyte)
          simpa using hne
      rw [hdecode, hbytes, decodeUtf8_lineBreak, List.append_assoc, firstLine_append hnone,
        List.cons_append, firstLine_lineBreak, List.append_nil]
      refine ⟨hle, fun hnot => hlt fun hstarts => hnot ?_⟩
      intro before next after hchunks hwithin
      cases before with
      | nil =>
        rw [List.nil_append, List.cons.injEq] at hchunks
        rw [← hchunks.1]
        cases line with
        | nil =>
          intro byte hbyte
          cases hbyte
          decide
        | cons first line =>
          intro byte hbyte
          exact hstarts byte hbyte
      | cons first before =>
        rw [List.cons_append, List.cons.injEq] at hchunks
        rw [← hchunks.1, List.flatten_cons, List.length_append, List.length_append,
          List.length_cons] at hwithin
        omega
    · obtain ⟨hle, hlt⟩ := charactersIn_le chunk
      have hnone := lineBreak_not_mem_decodeUtf8 hbreak
      have hbytes : firstLineBytes (chunk :: rest).flatten =
          chunk ++ firstLineBytes rest.flatten := by
        unfold firstLineBytes
        rw [List.flatten_cons, List.takeWhile_append_of_pos]
        intro byte hbyte
        have hne : byte ≠ lineBreakByte := fun heq => hbreak (heq ▸ hbyte)
        simpa using hne
      rw [hdecode, firstLine_append hnone, hbytes, charactersIn_append, List.length_append,
        List.length_append]
      refine ⟨by omega, fun hnot => ?_⟩
      by_cases hstarts : StartsCharacter chunk
      · have hcuts : ¬ CutsAtCharacters (firstLineBytes rest.flatten).length rest := by
          intro hcuts
          apply hnot
          intro before next after hchunks hwithin
          cases before with
          | nil =>
            rw [List.nil_append, List.cons.injEq] at hchunks
            exact hchunks.1 ▸ hstarts
          | cons first before =>
            rw [List.cons_append, List.cons.injEq] at hchunks
            rw [← hchunks.1, List.flatten_cons, List.length_append] at hwithin
            exact hcuts before next after hchunks.2 (by omega)
        have hmore := ih.2 hcuts
        omega
      · have hmore := hlt hstarts
        omega

/-- Chunks of a text decode to its first line exactly when those that begin within it begin where a
character starts. -/
theorem firstLine_decodeChunks_iff {cs : List Char} {chunks : List (List UInt8)}
    (h : chunks.flatten = utf8Bytes cs) :
    firstLine (decodeChunks chunks) = firstLine cs ↔
      CutsAtCharacters (utf8Bytes (firstLine cs)).length chunks := by
  refine ⟨fun hline => ?_, fun hcuts => (decodeChunks_of_cuts h hcuts).1⟩
  by_contra hnot
  have hcount := (charactersIn_firstLine chunks).2
  rw [h, firstLineBytes_utf8Bytes, charactersIn_utf8Bytes, hline] at hcount
  exact Nat.lt_irrefl _ (hcount hnot)

end BuildConductor.Base
