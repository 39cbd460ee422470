import Mathlib.Data.List.Basic
import Mathlib.Data.List.DropRight

/-!
# Texts as bytes

The UTF-8 bytes of a text, the decoding that replaces what is malformed, and where a line break
shows among bytes: no other character has its byte, so bytes can be cut at line breaks before they
are decoded.
-/

namespace BuildConductor.Base

/-! ## Encoding -/

/-- The UTF-8 bytes of a text. -/
def utf8Bytes (cs : List Char) : List UInt8 := cs.flatMap String.utf8EncodeChar

@[simp] theorem utf8Bytes_nil : utf8Bytes [] = [] := rfl

@[simp] theorem utf8Bytes_append (cs ds : List Char) :
    utf8Bytes (cs ++ ds) = utf8Bytes cs ++ utf8Bytes ds :=
  List.flatMap_append

/-- The byte of a line break. -/
def lineBreakByte : UInt8 := 0x0A

@[simp] theorem utf8Bytes_lineBreak : utf8Bytes ['\n'] = [lineBreakByte] := rfl

private theorem lineBreakByte_mem_char {c : Char} (h : lineBreakByte ∈ String.utf8EncodeChar c) :
    c = '\n' := by
  unfold String.utf8EncodeChar lineBreakByte at h
  dsimp only at h
  split at h
  · next hsmall =>
    rw [List.mem_singleton, ← UInt8.toNat_inj, UInt8.toNat_ofNat'] at h
    apply Char.ext
    rw [← UInt32.toNat_inj]
    have hval : c.toNat = c.val.toNat := rfl
    simp only [UInt8.reduceToNat] at h
    show c.val.toNat = 10
    omega
  · split at h
    · simp only [List.mem_cons, List.not_mem_nil, or_false, ← UInt8.toNat_inj,
        UInt8.toNat_ofNat', UInt8.reduceToNat] at h
      omega
    · split at h
      · simp only [List.mem_cons, List.not_mem_nil, or_false, ← UInt8.toNat_inj,
          UInt8.toNat_ofNat', UInt8.reduceToNat] at h
        omega
      · simp only [List.mem_cons, List.not_mem_nil, or_false, ← UInt8.toNat_inj,
          UInt8.toNat_ofNat', UInt8.reduceToNat] at h
        omega

/-- The bytes of a text without a line break have none either. -/
theorem lineBreakByte_not_mem {cs : List Char} (h : '\n' ∉ cs) : lineBreakByte ∉ utf8Bytes cs := by
  unfold utf8Bytes
  rw [List.mem_flatMap]
  rintro ⟨c, hc, hbyte⟩
  rw [lineBreakByte_mem_char hbyte] at hc
  exact h hc

/-! ## Decoding -/

/-- The second byte continues a sequence of three or four that the first byte starts. -/
def mayFollow (first second : UInt8) : Bool :=
  0xE0 ≤ first && first ≤ 0xF4 && 0x80 ≤ second && second ≤ 0xBF &&
    (first ≠ 0xE0 || 0xA0 ≤ second) && (first ≠ 0xED || second ≤ 0x9F) &&
    (first ≠ 0xF0 || 0x90 ≤ second) && (first ≠ 0xF4 || second ≤ 0x8F)

/-- How many bytes one replacement character stands for: the longest part of a sequence that some
character starts with, one byte at least. -/
def malformedLength : List UInt8 → Nat
  | first :: second :: third :: _ =>
    if mayFollow first second then
      if 0xF0 ≤ first && 0x80 ≤ third && third ≤ 0xBF then 3 else 2
    else 1
  | [first, second] => if mayFollow first second then 2 else 1
  | _ => 1

/-- Decode bytes one character at a time; `fuel` bounds the characters. -/
def decodeBytes : Nat → List UInt8 → List Char
  | _, [] => []
  | 0, _ :: _ => []
  | fuel + 1, byte :: bytes =>
    match (byte :: bytes).toByteArray.utf8DecodeChar? 0 with
    | some c => c :: decodeBytes fuel ((byte :: bytes).drop c.utf8Size)
    | none => '\uFFFD' :: decodeBytes fuel ((byte :: bytes).drop (malformedLength (byte :: bytes)))

/-- The text of some bytes, with a replacement character for each malformed part. -/
def decodeUtf8 (bytes : List UInt8) : List Char := decodeBytes bytes.length bytes

private theorem decodeBytes_utf8Bytes (cs : List Char) (fuel : Nat)
    (h : (utf8Bytes cs).length ≤ fuel) : decodeBytes fuel (utf8Bytes cs) = cs := by
  induction cs generalizing fuel with
  | nil => cases fuel <;> rfl
  | cons c cs ih =>
    have hbytes : utf8Bytes (c :: cs) = String.utf8EncodeChar c ++ utf8Bytes cs := rfl
    have hsize := String.length_utf8EncodeChar c
    have hpos := Char.utf8Size_pos c
    have hdecode : (utf8Bytes (c :: cs)).toByteArray.utf8DecodeChar? 0 = some c := by
      rw [hbytes, List.toByteArray_append]
      exact ByteArray.utf8DecodeChar?_utf8EncodeChar_append
    have hdrop : (utf8Bytes (c :: cs)).drop c.utf8Size = utf8Bytes cs := by
      rw [hbytes, ← hsize, List.drop_left]
    cases hcase : utf8Bytes (c :: cs) with
    | nil =>
      rw [hbytes] at hcase
      have hlength := congrArg List.length hcase
      rw [List.length_append, hsize] at hlength
      simp at hlength
      omega
    | cons byte bytes =>
      rw [hcase] at hdecode hdrop h
      cases fuel with
      | zero => simp at h
      | succ fuel =>
        rw [decodeBytes, hdecode]
        dsimp only
        rw [hdrop, ih]
        have hlength : (utf8Bytes (c :: cs)).length = c.utf8Size + (utf8Bytes cs).length := by
          rw [hbytes, List.length_append, hsize]
        rw [hcase, List.length_cons] at hlength
        rw [List.length_cons] at h
        omega

/-- The bytes of a text decode to the text. -/
@[simp] theorem decodeUtf8_utf8Bytes (cs : List Char) : decodeUtf8 (utf8Bytes cs) = cs :=
  decodeBytes_utf8Bytes cs _ (Nat.le_refl _)

/-! ## Lines -/

section

variable {α : Type}

/-- Records, each ended by a separator. -/
def terminated (separator : α) (records : List (List α)) : List α :=
  records.flatMap fun record => record ++ [separator]

@[simp] theorem terminated_nil (separator : α) : terminated separator [] = [] := rfl

@[simp] theorem terminated_append (separator : α) (xs ys : List (List α)) :
    terminated separator (xs ++ ys) = terminated separator xs ++ terminated separator ys :=
  List.flatMap_append

theorem terminated_concat (separator : α) (records : List (List α)) (record : List α) :
    terminated separator (records ++ [record]) =
      terminated separator records ++ record ++ [separator] := by
  rw [terminated_append, List.append_assoc]
  exact congrArg _ (List.append_nil _)

variable [DecidableEq α]

/-- The elements up to the last separator, none when there is no separator. -/
def throughLast (separator : α) (xs : List α) : List α := xs.rdropWhile (· ≠ separator)

/-- What follows the last separator is dropped. -/
theorem throughLast_append {separator : α} {torn : List α} (h : separator ∉ torn)
    (xs : List α) : throughLast separator (xs ++ torn) = throughLast separator xs := by
  unfold throughLast
  induction torn using List.reverseRecOn with
  | nil => rw [List.append_nil]
  | append_singleton torn x ih =>
    rw [List.mem_append, List.mem_singleton, not_or] at h
    rw [← List.append_assoc, List.rdropWhile_concat_pos, ih h.1]
    exact decide_eq_true fun heq => h.2 heq.symm

/-- Ended records stay as they are. -/
@[simp] theorem throughLast_terminated (separator : α) (records : List (List α)) :
    throughLast separator (terminated separator records) = terminated separator records := by
  induction records using List.reverseRecOn with
  | nil => rfl
  | append_singleton records record _ =>
    rw [terminated_concat]
    apply List.rdropWhile_concat_neg
    simp

/-- Splitting ended records at the separators gives the records, and what follows the last one. -/
theorem splitOn_terminated {separator : α} {records : List (List α)}
    (h : ∀ record ∈ records, separator ∉ record) :
    (terminated separator records).splitOn separator = records ++ [[]] := by
  induction records with
  | nil => exact List.splitOn_nil separator
  | cons record records ih =>
    have hcons : terminated separator (record :: records) =
        record ++ separator :: terminated separator records := by
      unfold terminated
      rw [List.flatMap_cons, List.append_assoc]
      rfl
    rw [hcons, List.splitOn_append_cons_self_of_not_mem (h record List.mem_cons_self),
      ih fun other hother => h other (List.mem_cons_of_mem _ hother)]
    rfl

end

/-- The bytes of ended lines are the ended bytes of the lines. -/
theorem utf8Bytes_terminated (lines : List (List Char)) :
    utf8Bytes (terminated '\n' lines) = terminated lineBreakByte (lines.map utf8Bytes) := by
  induction lines with
  | nil => rfl
  | cons line lines ih =>
    show utf8Bytes (line ++ ['\n'] ++ terminated '\n' lines) = _
    rw [utf8Bytes_append, utf8Bytes_append, ih]
    rfl

end BuildConductor.Base
