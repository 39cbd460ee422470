import Mathlib.Data.List.Basic
import Mathlib.Data.List.Infix

/-!
# Text operations

The string operations the validators use, over the characters of a string: trimming
white space, prefix, suffix and substring tests, and the identifier pattern shared by
step ids, output names and resource locks.
-/

namespace BuildConductor.Domain

/-- White space and line terminators, the characters `String.prototype.trim` removes. -/
def isWhiteSpace (c : Char) : Bool :=
  let n := c.toNat
  n = 0x09 || n = 0x0A || n = 0x0B || n = 0x0C || n = 0x0D || n = 0x20 || n = 0xA0 ||
    n = 0x1680 || (0x2000 ≤ n && n ≤ 0x200A) || n = 0x2028 || n = 0x2029 || n = 0x202F ||
    n = 0x205F || n = 0x3000 || n = 0xFEFF

/-- Drop the white space at both ends. -/
def trimChars (cs : List Char) : List Char :=
  ((cs.dropWhile isWhiteSpace).reverse.dropWhile isWhiteSpace).reverse

/-- `value.trim()`. -/
def trim (s : String) : String := String.ofList (trimChars s.toList)

/-- `value.startsWith(pre)`. -/
def startsWith (s pre : String) : Bool := pre.toList.isPrefixOf s.toList

/-- `value.endsWith(suf)`. -/
def endsWith (s suf : String) : Bool := suf.toList.isSuffixOf s.toList

/-- `value.includes(part)`. -/
def includes (s part : String) : Bool := s.toList.tails.any part.toList.isPrefixOf

/-- A lower-case Latin letter. -/
def isLowerLatin (c : Char) : Bool := 'a' ≤ c && c ≤ 'z'

/-- `/^[a-z][a-z0-9-]*$/`, the pattern of every declared identifier.
`src/src/domain/steps.ts:34-36`. -/
def matchesIdPattern (s : String) : Bool :=
  match s.toList with
  | [] => false
  | c :: rest => isLowerLatin c && rest.all fun d => isLowerLatin d || d.isDigit || d = '-'

/-- The pattern as it appears in messages. -/
def idPatternText : String := "/^[a-z][a-z0-9-]*$/"

/-- The hexadecimal digit of a value below sixteen. -/
def hexDigit (n : Nat) : Char := ("0123456789abcdef".toList)[n % 16]?.getD '0'

/-- One character inside a JSON string literal. -/
def escapeChar (c : Char) : List Char :=
  if c = '"' then ['\\', '"']
  else if c = '\\' then ['\\', '\\']
  else if c = '\n' then ['\\', 'n']
  else if c = '\r' then ['\\', 'r']
  else if c = '\t' then ['\\', 't']
  else if c.toNat = 0x08 then ['\\', 'b']
  else if c.toNat = 0x0C then ['\\', 'f']
  else if c.toNat < 0x20 then
    ['\\', 'u', '0', '0', hexDigit (c.toNat / 16), hexDigit c.toNat]
  else [c]

/-- `JSON.stringify` of a string. -/
def quote (s : String) : String :=
  String.ofList ('"' :: s.toList.flatMap escapeChar ++ ['"'])

private theorem dropWhile_eq_self {p : Char → Bool} {cs : List Char}
    (h : ∀ c rest, cs = c :: rest → p c = false) : cs.dropWhile p = cs := by
  cases cs with
  | nil => rfl
  | cons c rest => simp [List.dropWhile, h c rest rfl]

private theorem head_dropWhile {p : Char → Bool} (cs : List Char) {c : Char} {rest : List Char}
    (h : cs.dropWhile p = c :: rest) : p c = false := by
  have hne : cs.dropWhile p ≠ [] := by rw [h]; simp
  have hhead := List.head_dropWhile_not p hne
  simpa [h] using hhead

private theorem head_reverse_dropWhile {p : Char → Bool} (cs : List Char)
    (hcs : ∀ c rest, cs = c :: rest → p c = false) {c : Char} {rest : List Char}
    (h : (cs.reverse.dropWhile p).reverse = c :: rest) : p c = false := by
  have hsuf : cs.reverse.dropWhile p <:+ cs.reverse := List.dropWhile_suffix p
  have hpre : (cs.reverse.dropWhile p).reverse <+: cs := by
    rw [← List.reverse_suffix, List.reverse_reverse]
    exact hsuf
  rw [h] at hpre
  obtain ⟨tail, htail⟩ := hpre
  exact hcs c (rest ++ tail) (by rw [← htail]; rfl)

/-- Trimming twice trims once. -/
theorem trimChars_trimChars (cs : List Char) : trimChars (trimChars cs) = trimChars cs := by
  have hfront : ∀ c rest, cs.dropWhile isWhiteSpace = c :: rest → isWhiteSpace c = false :=
    fun c rest h => head_dropWhile cs h
  have hdrop : (trimChars cs).dropWhile isWhiteSpace = trimChars cs := by
    apply dropWhile_eq_self
    intro c rest h
    exact head_reverse_dropWhile _ hfront h
  have hback : (trimChars cs).reverse.dropWhile isWhiteSpace = (trimChars cs).reverse := by
    apply dropWhile_eq_self
    intro c rest h
    simp only [trimChars, List.reverse_reverse] at h
    exact head_dropWhile _ h
  rw [trimChars, hdrop, hback, List.reverse_reverse]

@[simp] theorem trim_trim (s : String) : trim (trim s) = trim s := by
  simp [trim, trimChars_trimChars]

@[simp] theorem trim_empty : trim "" = "" := rfl

/-- The first character is visible. -/
def startsVisible (s : String) : Bool := s.toList.head?.any fun c => !isWhiteSpace c

/-- The last character is visible. -/
def endsVisible (s : String) : Bool := s.toList.getLast?.any fun c => !isWhiteSpace c

theorem startsVisible_append {first : String} (h : startsVisible first = true) (last : String) :
    startsVisible (first ++ last) = true := by
  unfold startsVisible at *
  rw [String.toList_append]
  cases hchars : first.toList with
  | nil =>
    rw [hchars] at h
    cases h
  | cons c rest =>
    rw [hchars] at h
    exact h

theorem endsVisible_append (first : String) {last : String} (h : endsVisible last = true) :
    endsVisible (first ++ last) = true := by
  unfold endsVisible at *
  rw [String.toList_append]
  rcases List.eq_nil_or_concat last.toList with hnil | ⟨front, c, hconcat⟩
  · rw [hnil] at h
    cases h
  · rw [List.concat_eq_append] at hconcat
    rw [hconcat] at h ⊢
    rw [← List.append_assoc, List.getLast?_concat]
    rwa [List.getLast?_concat] at h

/-- A text between visible characters is its own trimming. -/
theorem trim_of_visible {s : String} (hstart : startsVisible s = true)
    (hend : endsVisible s = true) : trim s = s := by
  have hdrop : s.toList.dropWhile isWhiteSpace = s.toList := by
    apply dropWhile_eq_self
    intro c rest hchars
    unfold startsVisible at hstart
    rw [hchars] at hstart
    simpa using hstart
  have hback : s.toList.reverse.dropWhile isWhiteSpace = s.toList.reverse := by
    apply dropWhile_eq_self
    intro c rest hchars
    unfold endsVisible at hend
    rw [List.getLast?_eq_head?_reverse, hchars] at hend
    simpa using hend
  rw [trim, trimChars, hdrop, hback, List.reverse_reverse, String.ofList_toList]

theorem ne_empty_of_startsVisible {s : String} (h : startsVisible s = true) : s ≠ "" := by
  rintro rfl
  revert h
  decide

/-- An identifier is never empty. -/
theorem ne_empty_of_matchesIdPattern {s : String} (h : matchesIdPattern s = true) : s ≠ "" := by
  rintro rfl
  simp [matchesIdPattern] at h

end BuildConductor.Domain
