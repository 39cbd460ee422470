import BuildConductor.Domain.Json

/-!
# JSON text

`JSON.stringify` and `JSON.parse` on values. A text is first cut into lexemes, one character at a
time, and the lexemes are then parsed; writing a value and reading it back gives the value.
-/

namespace BuildConductor.Domain

/-! ## Lexemes -/

/-- A lexeme: a mark among `{}[]:,`, a string as the code units its text and escapes write, or a
word, which is a keyword or a number. -/
inductive Lexeme
  | mark (c : Char)
  | text (units : List Nat)
  | word (cs : List Char)
deriving DecidableEq, Repr

/-- What the scanner is inside of, with what it has read of it. -/
inductive ScanMode
  | outside
  | word (read : List Char)
  | text (read : List Nat)
  | escape (read : List Nat)
  | unicode (read : List Nat) (digits : List Nat)
deriving DecidableEq, Repr

/-- The lexemes read so far, and the one being read. -/
structure Scan where
  lexemes : List Lexeme
  mode : ScanMode
deriving DecidableEq, Repr

/-- The white space of JSON. -/
def isJsonSpace (c : Char) : Bool := c = ' ' || c = '\n' || c = '\r' || c = '\t'

/-- The structural characters. -/
def isMark (c : Char) : Bool :=
  c = '\x7b' || c = '\x7d' || c = '[' || c = ']' || c = ':' || c = ','

/-- The characters of keywords and numbers. -/
def isWordChar (c : Char) : Bool := c.isAlphanum || c = '-' || c = '+' || c = '.'

/-- The value of a hexadecimal digit. -/
def hexValue (c : Char) : Option Nat :=
  if c.isDigit then some (c.toNat - 48)
  else if 'a' ≤ c ∧ c ≤ 'f' then some (c.toNat - 87)
  else if 'A' ≤ c ∧ c ≤ 'F' then some (c.toNat - 55)
  else none

/-- The code unit of a one-letter escape. -/
def escapeValue (c : Char) : Option Nat :=
  if c = '"' ∨ c = '\\' ∨ c = '/' then some c.toNat
  else if c = 'n' then some 0x0A
  else if c = 'r' then some 0x0D
  else if c = 't' then some 0x09
  else if c = 'b' then some 0x08
  else if c = 'f' then some 0x0C
  else none

/-- Read a character between lexemes. -/
def scanOutside (lexemes : List Lexeme) (c : Char) : Option Scan :=
  if isJsonSpace c then some ⟨lexemes, .outside⟩
  else if isMark c then some ⟨lexemes ++ [.mark c], .outside⟩
  else if c = '"' then some ⟨lexemes, .text []⟩
  else if isWordChar c then some ⟨lexemes, .word [c]⟩
  else none

/-- Read one character. A string holds no raw control character. -/
def scanChar (scan : Scan) (c : Char) : Option Scan :=
  match scan.mode with
  | .outside => scanOutside scan.lexemes c
  | .word read =>
    if isWordChar c then some ⟨scan.lexemes, .word (read ++ [c])⟩
    else scanOutside (scan.lexemes ++ [.word read]) c
  | .text read =>
    if c = '"' then some ⟨scan.lexemes ++ [.text read], .outside⟩
    else if c = '\\' then some ⟨scan.lexemes, .escape read⟩
    else if c.toNat < 0x20 then none
    else some ⟨scan.lexemes, .text (read ++ [c.toNat])⟩
  | .escape read =>
    if c = 'u' then some ⟨scan.lexemes, .unicode read []⟩
    else (escapeValue c).map fun unit => ⟨scan.lexemes, .text (read ++ [unit])⟩
  | .unicode read digits =>
    (hexValue c).map fun digit =>
      if digits.length = 3 then
        ⟨scan.lexemes, .text (read ++ [(digits ++ [digit]).foldl (fun unit d => 16 * unit + d) 0])⟩
      else ⟨scan.lexemes, .unicode read (digits ++ [digit])⟩

/-- The lexemes once the text has ended. -/
def Scan.finish (scan : Scan) : Option (List Lexeme) :=
  match scan.mode with
  | .outside => some scan.lexemes
  | .word read => some (scan.lexemes ++ [.word read])
  | .text _ | .escape _ | .unicode _ _ => none

/-- The lexemes of a text. -/
def lexemes (cs : List Char) : Option (List Lexeme) :=
  (cs.foldlM scanChar ⟨[], .outside⟩).bind Scan.finish

/-! ## Parsing -/

/-- The characters some code units spell: two surrogates make one character, and a lone one has no
character of its own. -/
def spell : List Nat → List Char
  | high :: low :: rest =>
    if 0xD800 ≤ high ∧ high < 0xDC00 ∧ 0xDC00 ≤ low ∧ low < 0xE000 then
      Char.ofNat (0x10000 + (high - 0xD800) * 0x400 + (low - 0xDC00)) :: spell rest
    else if 0xD800 ≤ high ∧ high < 0xE000 then Char.ofNat 0xFFFD :: spell (low :: rest)
    else Char.ofNat high :: spell (low :: rest)
  | [unit] => if 0xD800 ≤ unit ∧ unit < 0xE000 then [Char.ofNat 0xFFFD] else [Char.ofNat unit]
  | [] => []

/-- A natural number in decimal, without leading zeros. -/
def natLiteral (cs : List Char) : Option Nat :=
  if cs ≠ [] ∧ cs.all Char.isDigit ∧ (cs.head? = some '0' → cs = ['0']) then
    some (Nat.ofDigitChars 10 cs 0)
  else none

/-- An integer in decimal. -/
def intLiteral : List Char → Option Int
  | '-' :: cs => (natLiteral cs).map fun n : Nat => -(n : Int)
  | cs => (natLiteral cs).map Int.ofNat

/-- An exponent, or nothing. -/
def isExponentPart : List Char → Bool
  | [] => true
  | e :: rest =>
    let digits := match rest with
      | sign :: digits => if sign = '+' ∨ sign = '-' then digits else rest
      | [] => rest
    (e = 'e' || e = 'E') && digits ≠ [] && digits.all Char.isDigit

/-- A fraction and an exponent, either of which may be missing. -/
def isFractionPart : List Char → Bool
  | '.' :: rest => rest.takeWhile Char.isDigit ≠ [] && isExponentPart (rest.dropWhile Char.isDigit)
  | rest => isExponentPart rest

/-- A number that is not written as an integer. -/
def isFractionLiteral (cs : List Char) : Bool :=
  let unsigned := if cs.head? = some '-' then cs.tail else cs
  cs.all isWordChar && (intLiteral cs).isNone &&
    (natLiteral (unsigned.takeWhile Char.isDigit)).isSome &&
    isFractionPart (unsigned.dropWhile Char.isDigit)

/-- The value of a word. A number written with a fraction or an exponent is kept as it is written. -/
def wordValue (cs : List Char) : Option Json :=
  if cs = "null".toList then some .null
  else if cs = "true".toList then some (.bool true)
  else if cs = "false".toList then some (.bool false)
  else
    match intLiteral cs with
    | some n => some (.number n)
    | none => if isFractionLiteral cs then some (.fraction (String.ofList cs)) else none

/-- Assign a property: a repeated name keeps its place and takes the new value. -/
def assignField (fields : List (String × Json)) (field : String × Json) : List (String × Json) :=
  if field.1 ∈ fields.map Prod.fst then
    fields.map fun entry => if entry.1 = field.1 then field else entry
  else fields ++ [field]

mutual

/-- Parse one value from the front of some lexemes. Every call consumes a lexeme, so the number of
lexemes is fuel enough. -/
def parseValue : Nat → List Lexeme → Option (Json × List Lexeme)
  | _ + 1, .text units :: rest => some (.str (String.ofList (spell units)), rest)
  | _ + 1, .word cs :: rest => (wordValue cs).map fun value => (value, rest)
  | _ + 1, .mark '[' :: .mark ']' :: rest => some (.arr [], rest)
  | fuel + 1, .mark '[' :: rest =>
    (parseItems fuel rest).map fun parsed => (.arr parsed.1, parsed.2)
  | _ + 1, .mark '\x7b' :: .mark '\x7d' :: rest => some (.obj [], rest)
  | fuel + 1, .mark '\x7b' :: rest =>
    (parseFields fuel rest).map fun parsed => (.obj (parsed.1.foldl assignField []), parsed.2)
  | _, _ => none

/-- Parse the items of an array that has at least one. -/
def parseItems : Nat → List Lexeme → Option (List Json × List Lexeme)
  | 0, _ => none
  | fuel + 1, ls =>
    match parseValue fuel ls with
    | some (value, .mark ',' :: rest) =>
      (parseItems fuel rest).map fun parsed => (value :: parsed.1, parsed.2)
    | some (value, .mark ']' :: rest) => some ([value], rest)
    | _ => none

/-- Parse the properties of an object that has at least one. -/
def parseFields : Nat → List Lexeme → Option (List (String × Json) × List Lexeme)
  | fuel + 1, .text units :: .mark ':' :: ls =>
    let name := String.ofList (spell units)
    match parseValue fuel ls with
    | some (value, .mark ',' :: rest) =>
      (parseFields fuel rest).map fun parsed => ((name, value) :: parsed.1, parsed.2)
    | some (value, .mark '\x7d' :: rest) => some ([(name, value)], rest)
    | _ => none
  | _, _ => none

end

/-- `JSON.parse`, `none` for a `SyntaxError`. -/
def parseJson (text : String) : Option Json := do
  let ls ← lexemes text.toList
  match parseValue (ls.length + 1) ls with
  | some (value, []) => some value
  | _ => none

/-! ## Writing -/

/-- The layouts of `JSON.stringify`: without white space, or indented by two blanks. -/
inductive JsonLayout
  | compact | indented
deriving DecidableEq, Repr

/-- The line break before an item at some depth. -/
def JsonLayout.lineBreak (layout : JsonLayout) (depth : Nat) : List Char :=
  match layout with
  | .compact => []
  | .indented => '\n' :: List.replicate (2 * depth) ' '

/-- What follows the colon of a property. -/
def JsonLayout.gap : JsonLayout → List Char
  | .compact => []
  | .indented => [' ']

/-- Parts with a separator between them. -/
def joinWith {α : Type} (separator : List α) : List (List α) → List α
  | [] => []
  | [part] => part
  | part :: next :: rest => part ++ (separator ++ joinWith separator (next :: rest))

/-- An array or object: its parts between two marks. -/
def JsonLayout.enclose (layout : JsonLayout) (depth : Nat) (first last : Char)
    (parts : List (List Char)) : List Char :=
  if parts = [] then [first, last]
  else first :: (layout.lineBreak (depth + 1) ++
    (joinWith (',' :: layout.lineBreak (depth + 1)) parts ++ (layout.lineBreak depth ++ [last])))

mutual

/-- The characters of a value at some depth. -/
def render (layout : JsonLayout) (depth : Nat) : Json → List Char
  | .null => "null".toList
  | .bool b => if b then "true".toList else "false".toList
  | .number n => (toString n).toList
  | .fraction literal => literal.toList
  | .str s => (quote s).toList
  | .arr items => layout.enclose depth '[' ']' (renderItems layout (depth + 1) items)
  | .obj fields => layout.enclose depth '\x7b' '\x7d' (renderFields layout (depth + 1) fields)

def renderItems (layout : JsonLayout) (depth : Nat) : List Json → List (List Char)
  | [] => []
  | item :: rest => render layout depth item :: renderItems layout depth rest

def renderFields (layout : JsonLayout) (depth : Nat) : List (String × Json) → List (List Char)
  | [] => []
  | (name, value) :: rest =>
    ((quote name).toList ++ (':' :: (layout.gap ++ render layout depth value))) ::
      renderFields layout depth rest

end

/-- `JSON.stringify(value)`, or `JSON.stringify(value, null, 2)` when indented. -/
def jsonText (layout : JsonLayout) (value : Json) : String := String.ofList (render layout 0 value)

/-! ## Scanning what was written -/

private theorem hexValue_hexDigit (n : Nat) : hexValue (hexDigit n) = some (n % 16) := by
  have hall : ∀ m < 16, hexValue (hexDigit m) = some m := by decide
  have hmod : hexDigit n = hexDigit (n % 16) := by
    unfold hexDigit
    rw [Nat.mod_mod]
  rw [hmod]
  exact hall (n % 16) (Nat.mod_lt n (by omega))

private theorem toNat_ne_surrogate (c : Char) : ¬ (0xD800 ≤ c.toNat ∧ c.toNat < 0xE000) := by
  have hvalid : c.toNat < 0xD800 ∨ (0xDFFF < c.toNat ∧ c.toNat < 0x110000) := c.valid
  omega

/-- A character spells itself. -/
theorem spell_toNat (cs : List Char) : spell (cs.map Char.toNat) = cs := by
  induction cs with
  | nil => rfl
  | cons c rest ih =>
    have hc := toNat_ne_surrogate c
    cases rest with
    | nil => simp only [List.map_cons, List.map_nil, spell, if_neg hc, Char.ofNat_toNat]
    | cons d rest =>
      have hpair : ¬ (0xD800 ≤ c.toNat ∧ c.toNat < 0xDC00 ∧ 0xDC00 ≤ d.toNat ∧ d.toNat < 0xE000) := by
        omega
      simp only [List.map_cons] at ih
      simp only [List.map_cons, spell, if_neg hpair, if_neg hc, Char.ofNat_toNat, ih]

private theorem scan_escapeChar (before : List Lexeme) (read : List Nat) (c : Char) :
    (escapeChar c).foldlM scanChar ⟨before, .text read⟩ =
      some ⟨before, .text (read ++ [c.toNat])⟩ := by
  unfold escapeChar
  split
  · next h => subst h; rfl
  split
  · next h => subst h; rfl
  split
  · next h => subst h; rfl
  split
  · next h => subst h; rfl
  split
  · next h => subst h; rfl
  split
  · next h =>
    rw [h]
    rfl
  split
  · next h =>
    rw [h]
    rfl
  split
  · next h =>
    have hslash : scanChar ⟨before, .text read⟩ '\\' = some ⟨before, .escape read⟩ := rfl
    have hu : scanChar ⟨before, .escape read⟩ 'u' = some ⟨before, .unicode read []⟩ := rfl
    have hzero : scanChar ⟨before, .unicode read []⟩ '0' = some ⟨before, .unicode read [0]⟩ := rfl
    have hzeros : scanChar ⟨before, .unicode read [0]⟩ '0' =
        some ⟨before, .unicode read [0, 0]⟩ := rfl
    have hhigh : scanChar ⟨before, .unicode read [0, 0]⟩ (hexDigit (c.toNat / 16)) =
        some ⟨before, .unicode read [0, 0, c.toNat / 16 % 16]⟩ := by
      simp only [scanChar, hexValue_hexDigit, Option.map_some]
      rfl
    have hlow : scanChar ⟨before, .unicode read [0, 0, c.toNat / 16 % 16]⟩ (hexDigit c.toNat) =
        some ⟨before, .text (read ++ [c.toNat])⟩ := by
      have hunit : 16 * (16 * (16 * (16 * 0 + 0) + 0) + c.toNat / 16 % 16) + c.toNat % 16 =
          c.toNat := by omega
      simp only [scanChar, hexValue_hexDigit, Option.map_some]
      show some (Scan.mk before (.text (read ++
        [16 * (16 * (16 * (16 * 0 + 0) + 0) + c.toNat / 16 % 16) + c.toNat % 16]))) = _
      rw [hunit]
    simp only [List.foldlM_cons, hslash, hu, hzero, hzeros, hhigh, hlow, Option.bind_eq_bind,
      Option.bind_some, List.foldlM_nil]
    rfl
  · next hquote hbackslash _ _ _ _ _ hcontrol =>
    simp only [List.foldlM_cons, List.foldlM_nil, scanChar, if_neg hquote, if_neg hbackslash,
      if_neg hcontrol]
    rfl

/-- Some characters write lexemes and leave the scanner between lexemes. -/
private def Closed (cs : List Char) (ls : List Lexeme) : Prop :=
  ∀ before, cs.foldlM scanChar ⟨before, .outside⟩ = some ⟨before ++ ls, .outside⟩

/-- Some characters write lexemes, the last of which may be a word the next character ends. -/
private def Writes (cs : List Char) (ls : List Lexeme) : Prop :=
  ∀ before, ∃ scan, cs.foldlM scanChar ⟨before, .outside⟩ = some scan ∧
    scan.finish = some (before ++ ls)

private theorem Closed.writes {cs : List Char} {ls : List Lexeme} (h : Closed cs ls) :
    Writes cs ls := fun before => ⟨_, h before, rfl⟩

private theorem closed_nil : Closed [] [] := by
  intro before
  rw [List.append_nil]
  rfl

private theorem Closed.append {cs ds : List Char} {ls ms : List Lexeme} (h : Closed cs ls)
    (h' : Closed ds ms) : Closed (cs ++ ds) (ls ++ ms) := by
  intro before
  rw [List.foldlM_append, h before, ← List.append_assoc]
  exact h' (before ++ ls)

private theorem Closed.append_writes {cs ds : List Char} {ls ms : List Lexeme} (h : Closed cs ls)
    (h' : Writes ds ms) : Writes (cs ++ ds) (ls ++ ms) := by
  intro before
  rw [List.foldlM_append, h before, ← List.append_assoc]
  exact h' (before ++ ls)

/-- A character outside words ends a pending word. -/
private theorem foldlM_finish {scan : Scan} {ls : List Lexeme} {c : Char} (cs : List Char)
    (h : scan.finish = some ls) (hc : isWordChar c = false) :
    (c :: cs).foldlM scanChar scan = (c :: cs).foldlM scanChar ⟨ls, .outside⟩ := by
  obtain ⟨before, mode⟩ := scan
  have hstep : scanChar ⟨before, mode⟩ c = scanChar ⟨ls, .outside⟩ c := by
    cases mode with
    | outside =>
      cases h
      rfl
    | word read =>
      cases h
      simp only [scanChar, hc, if_neg Bool.false_ne_true]
    | text | escape | unicode => cases h
  rw [List.foldlM_cons, List.foldlM_cons, hstep]

private theorem Writes.append {cs ds : List Char} {ls ms : List Lexeme} {c : Char}
    (h : Writes cs ls) (hc : isWordChar c = false) (h' : Writes (c :: ds) ms) :
    Writes (cs ++ c :: ds) (ls ++ ms) := by
  intro before
  obtain ⟨scan, hscan, hfinish⟩ := h before
  rw [List.foldlM_append, hscan, ← List.append_assoc]
  show ∃ after, (c :: ds).foldlM scanChar scan = some after ∧ _
  rw [foldlM_finish ds hfinish hc]
  exact h' (before ++ ls)

private theorem Writes.append_closed {cs ds : List Char} {ls ms : List Lexeme} {c : Char}
    (h : Writes cs ls) (hc : isWordChar c = false) (h' : Closed (c :: ds) ms) :
    Closed (cs ++ c :: ds) (ls ++ ms) := by
  intro before
  obtain ⟨scan, hscan, hfinish⟩ := h before
  rw [List.foldlM_append, hscan, ← List.append_assoc]
  show (c :: ds).foldlM scanChar scan = _
  rw [foldlM_finish ds hfinish hc]
  exact h' (before ++ ls)

private theorem closed_mark {c : Char} (h : isMark c = true) : Closed [c] [.mark c] := by
  have hmarks : ∀ d : Char, isMark d = true → isJsonSpace d = false := by
    intro d hd
    unfold isMark at hd
    simp only [Bool.or_eq_true, decide_eq_true_eq] at hd
    rcases hd with ((((rfl | rfl) | rfl) | rfl) | rfl) | rfl <;> decide
  intro before
  simp only [List.foldlM_cons, List.foldlM_nil, scanChar, scanOutside, hmarks c h, h,
    if_neg Bool.false_ne_true, if_true]
  rfl

private theorem closed_spaces {cs : List Char} (h : ∀ c ∈ cs, isJsonSpace c = true) :
    Closed cs [] := by
  induction cs with
  | nil => exact closed_nil
  | cons c rest ih =>
    intro before
    have hc : scanChar ⟨before, .outside⟩ c = some ⟨before, .outside⟩ := by
      simp only [scanChar, scanOutside, h c (by simp), if_true]
    rw [List.foldlM_cons, hc]
    exact ih (fun d hd => h d (List.mem_cons_of_mem _ hd)) before

private theorem closed_lineBreak (layout : JsonLayout) (depth : Nat) :
    Closed (layout.lineBreak depth) [] := by
  apply closed_spaces
  intro c hc
  cases layout with
  | compact => cases hc
  | indented =>
    rcases List.mem_cons.mp hc with rfl | hc
    · decide
    · rw [List.eq_of_mem_replicate hc]
      decide

private theorem closed_gap (layout : JsonLayout) : Closed layout.gap [] := by
  apply closed_spaces
  intro c hc
  cases layout with
  | compact => cases hc
  | indented =>
    rw [List.mem_singleton.mp hc]
    decide

/-- A string literal is one lexeme. -/
private theorem closed_quote (s : String) :
    Closed (quote s).toList [.text (s.toList.map Char.toNat)] := by
  have hchars : ∀ (cs : List Char) (before : List Lexeme) (read : List Nat),
      (cs.flatMap escapeChar).foldlM scanChar ⟨before, .text read⟩ =
        some ⟨before, .text (read ++ cs.map Char.toNat)⟩ := by
    intro cs
    induction cs with
    | nil =>
      intro before read
      simp
    | cons c rest ih =>
      intro before read
      rw [List.flatMap_cons, List.foldlM_append, scan_escapeChar]
      show (rest.flatMap escapeChar).foldlM scanChar ⟨before, .text (read ++ [c.toNat])⟩ = _
      rw [ih, List.map_cons, List.append_assoc]
      rfl
  intro before
  have hopen : scanChar ⟨before, .outside⟩ '"' = some ⟨before, .text []⟩ := rfl
  unfold quote
  rw [String.toList_ofList, List.cons_append, List.foldlM_cons, hopen]
  show (s.toList.flatMap escapeChar ++ ['"']).foldlM scanChar ⟨before, .text []⟩ = _
  rw [List.foldlM_append, hchars, List.nil_append]
  rfl

/-- A word is one lexeme. -/
private theorem writes_word {c : Char} {cs : List Char} (h : ∀ d ∈ c :: cs, isWordChar d = true) :
    Writes (c :: cs) [.word (c :: cs)] := by
  have hrest : ∀ (ds : List Char) (before : List Lexeme) (read : List Char),
      (∀ d ∈ ds, isWordChar d = true) →
      ds.foldlM scanChar ⟨before, .word read⟩ = some ⟨before, .word (read ++ ds)⟩ := by
    intro ds
    induction ds with
    | nil =>
      intro before read _
      simp
    | cons d rest ih =>
      intro before read hds
      have hd : scanChar ⟨before, .word read⟩ d = some ⟨before, .word (read ++ [d])⟩ := by
        simp only [scanChar, hds d (by simp), if_true]
      rw [List.foldlM_cons, hd]
      show rest.foldlM scanChar ⟨before, .word (read ++ [d])⟩ = _
      rw [ih before (read ++ [d]) (fun e he => hds e (List.mem_cons_of_mem _ he)), List.append_assoc]
      rfl
  have hword := h c (by simp)
  have hspace : isJsonSpace c = false ∧ isMark c = false ∧ c ≠ '"' := by
    refine ⟨?_, ?_, ?_⟩
    · by_contra hspace
      simp only [isJsonSpace, Bool.not_eq_false, Bool.or_eq_true, decide_eq_true_eq] at hspace
      rcases hspace with ((rfl | rfl) | rfl) | rfl <;> exact absurd hword (by decide)
    · by_contra hmark
      simp only [isMark, Bool.not_eq_false, Bool.or_eq_true, decide_eq_true_eq] at hmark
      rcases hmark with ((((rfl | rfl) | rfl) | rfl) | rfl) | rfl <;> exact absurd hword (by decide)
    · rintro rfl
      exact absurd hword (by decide)
  intro before
  have hfirst : scanChar ⟨before, .outside⟩ c = some ⟨before, .word [c]⟩ := by
    simp only [scanChar, scanOutside, hspace.1, hspace.2.1, if_neg hspace.2.2, hword,
      if_neg Bool.false_ne_true, if_true]
  refine ⟨⟨before, .word (c :: cs)⟩, ?_, rfl⟩
  rw [List.foldlM_cons, hfirst]
  exact hrest cs before [c] fun d hd => h d (List.mem_cons_of_mem _ hd)

/-! ## Numbers -/

private theorem toDigits_leading_zero {n : Nat} (h : (Nat.toDigits 10 n).head? = some '0') :
    n = 0 := by
  induction n using Nat.strongRecOn with
  | ind n ih =>
    rcases Nat.lt_or_ge n 10 with hlt | hge
    · rw [Nat.toDigits_of_lt_base hlt, List.head?_cons, Option.some.injEq] at h
      have hdigits : ∀ m < 10, Nat.digitChar m = '0' → m = 0 := by decide
      exact hdigits n hlt h
    · rw [Nat.toDigits_of_base_le (by omega) hge, List.head?_append_of_ne_nil _ (by simp)] at h
      have hzero := ih (n / 10) (by omega) h
      omega

/-- A natural number reads back. -/
theorem natLiteral_toDigits (n : Nat) : natLiteral (Nat.toDigits 10 n) = some n := by
  have hdigits : (Nat.toDigits 10 n).all Char.isDigit = true := by
    rw [List.all_eq_true]
    intro c hc
    exact Nat.isDigit_of_mem_toDigits (by omega) (by omega) hc
  have hleading : (Nat.toDigits 10 n).head? = some '0' → Nat.toDigits 10 n = ['0'] := by
    intro h
    rw [toDigits_leading_zero h]
    rfl
  unfold natLiteral
  rw [if_pos ⟨by simp, hdigits, hleading⟩, Nat.ofDigitChars_ten_toDigits]

private theorem toList_toString_int (n : Int) :
    (toString n).toList = if n < 0 then '-' :: Nat.toDigits 10 n.natAbs
      else Nat.toDigits 10 n.natAbs := by
  cases n with
  | ofNat m =>
    have hnonneg : ¬ (Int.ofNat m < 0) := by simp
    rw [if_neg hnonneg]
    exact Nat.toList_repr
  | negSucc m =>
    rw [if_pos (Int.negSucc_lt_zero m)]
    show ("-" ++ Nat.repr (m + 1)).toList = _
    rw [String.toList_append, Nat.toList_repr]
    rfl

private theorem digits_cons (n : Nat) : ∃ c cs, Nat.toDigits 10 n = c :: cs ∧
    ∀ d ∈ c :: cs, d.isDigit = true := by
  cases hdigits : Nat.toDigits 10 n with
  | nil => exact absurd hdigits (by simp)
  | cons c cs =>
    refine ⟨c, cs, rfl, ?_⟩
    intro d hd
    rw [← hdigits] at hd
    exact Nat.isDigit_of_mem_toDigits (by omega) (by omega) hd

/-- An integer reads back. -/
theorem intLiteral_toString (n : Int) : intLiteral (toString n).toList = some n := by
  rw [toList_toString_int]
  split
  · next hneg =>
    simp only [intLiteral, natLiteral_toDigits, Option.map_some, Option.some.injEq]
    omega
  · next hpos =>
    obtain ⟨c, cs, hdigits, hall⟩ := digits_cons n.natAbs
    have hminus : c ≠ '-' := by
      rintro rfl
      exact absurd (hall '-' (by simp)) (by decide)
    rw [hdigits]
    unfold intLiteral
    split
    · next heq =>
      cases heq
      exact absurd rfl hminus
    · rw [← hdigits, natLiteral_toDigits, Option.map_some, Option.some.injEq]
      show (n.natAbs : Int) = n
      omega

private theorem isWordChar_of_isDigit {c : Char} (h : c.isDigit = true) : isWordChar c = true := by
  simp [isWordChar, Char.isAlphanum, h]

private theorem toString_int_word (n : Int) : ∃ c cs, (toString n).toList = c :: cs ∧
    ∀ d ∈ c :: cs, isWordChar d = true := by
  obtain ⟨c, cs, hdigits, hall⟩ := digits_cons n.natAbs
  rw [toList_toString_int, hdigits]
  split
  · refine ⟨'-', c :: cs, rfl, ?_⟩
    intro d hd
    rcases List.mem_cons.mp hd with rfl | hd
    · decide
    · exact isWordChar_of_isDigit (hall d hd)
  · exact ⟨c, cs, rfl, fun d hd => isWordChar_of_isDigit (hall d hd)⟩

private theorem wordValue_toString (n : Int) :
    wordValue (toString n).toList = some (.number n) := by
  have hkeyword : ∀ keyword : List Char, intLiteral keyword = none → (toString n).toList ≠ keyword := by
    rintro keyword hnone rfl
    rw [intLiteral_toString] at hnone
    cases hnone
  unfold wordValue
  rw [if_neg (hkeyword _ (by decide)), if_neg (hkeyword _ (by decide)),
    if_neg (hkeyword _ (by decide)), intLiteral_toString]

private theorem wordValue_fraction {literal : String} (h : isFractionLiteral literal.toList = true) :
    wordValue literal.toList = some (.fraction literal) := by
  have hkeyword : ∀ keyword : List Char, isFractionLiteral keyword = false →
      literal.toList ≠ keyword := by
    rintro keyword hfalse rfl
    rw [h] at hfalse
    cases hfalse
  have hnone : intLiteral literal.toList = none := by
    unfold isFractionLiteral at h
    simp only [Bool.and_eq_true, Option.isNone_iff_eq_none] at h
    exact h.1.1.2
  unfold wordValue
  rw [if_neg (hkeyword _ (by decide)), if_neg (hkeyword _ (by decide)),
    if_neg (hkeyword _ (by decide)), hnone]
  simp [h]

private theorem fraction_word {literal : String} (h : isFractionLiteral literal.toList = true) :
    ∃ c cs, literal.toList = c :: cs ∧ ∀ d ∈ c :: cs, isWordChar d = true := by
  cases hliteral : literal.toList with
  | nil =>
    rw [hliteral] at h
    exact absurd h (by decide)
  | cons c cs =>
    refine ⟨c, cs, rfl, ?_⟩
    unfold isFractionLiteral at h
    simp only [Bool.and_eq_true] at h
    rw [← hliteral]
    exact List.all_eq_true.mp h.1.1.1

/-! ## Writing and scanning a value -/

mutual

/-- A value a text can hold: its names are distinct, and what is not an integer is written as one
is not. -/
def Json.Writable : Json → Prop
  | .fraction literal => isFractionLiteral literal.toList = true
  | .arr items => Json.WritableItems items
  | .obj fields => (fields.map Prod.fst).Nodup ∧ Json.WritableFields fields
  | .null | .bool _ | .number _ | .str _ => True

def Json.WritableItems : List Json → Prop
  | [] => True
  | item :: rest => item.Writable ∧ Json.WritableItems rest

def Json.WritableFields : List (String × Json) → Prop
  | [] => True
  | (_, value) :: rest => value.Writable ∧ Json.WritableFields rest

end

/-- The items of a list are writable when each of them is. -/
theorem Json.writableItems_iff {items : List Json} :
    Json.WritableItems items ↔ ∀ item ∈ items, item.Writable := by
  induction items with
  | nil => simp [Json.WritableItems]
  | cons item rest ih => simp [Json.WritableItems, ih]

/-- Lists of texts can be written. -/
@[simp] theorem Json.strings_writable (xs : List String) : (Json.strings xs).Writable := by
  unfold Json.strings Json.Writable
  rw [Json.writableItems_iff, List.forall_mem_map]
  exact fun _ _ => trivial

/-- The lexemes of parts between two marks. -/
def encloseLexemes (first last : Char) (parts : List (List Lexeme)) : List Lexeme :=
  .mark first :: (joinWith [.mark ','] parts ++ [.mark last])

mutual

/-- The lexemes a value is written as. -/
def lexemesOf : Json → List Lexeme
  | .null => [.word "null".toList]
  | .bool b => [.word (if b then "true".toList else "false".toList)]
  | .number n => [.word (toString n).toList]
  | .fraction literal => [.word literal.toList]
  | .str s => [.text (s.toList.map Char.toNat)]
  | .arr items => encloseLexemes '[' ']' (lexemesOfItems items)
  | .obj fields => encloseLexemes '\x7b' '\x7d' (lexemesOfFields fields)

def lexemesOfItems : List Json → List (List Lexeme)
  | [] => []
  | item :: rest => lexemesOf item :: lexemesOfItems rest

def lexemesOfFields : List (String × Json) → List (List Lexeme)
  | [] => []
  | (name, value) :: rest =>
    (.text (name.toList.map Char.toNat) :: .mark ':' :: lexemesOf value) :: lexemesOfFields rest

end

/-- Parts that write lexemes, joined by commas, write the lexemes joined by commas. -/
private theorem writes_joinWith (layout : JsonLayout) (depth : Nat) {parts : List (List Char)}
    {lexed : List (List Lexeme)} (h : List.Forall₂ Writes parts lexed) :
    Writes (joinWith (',' :: layout.lineBreak depth) parts) (joinWith [.mark ','] lexed) := by
  induction h with
  | nil => exact closed_nil.writes
  | @cons part ls parts lexed hpart hrest ih =>
    cases hrest with
    | nil => exact hpart
    | @cons next ms rest rests hnext htail =>
      have hcomma : Closed (',' :: layout.lineBreak depth) [.mark ','] :=
        (closed_mark (c := ',') rfl).append (closed_lineBreak layout depth)
      exact hpart.append (by decide) (hcomma.append_writes ih)

private theorem closed_enclose (layout : JsonLayout) (depth : Nat) {first last : Char}
    (hfirst : isMark first = true) (hlast : isMark last = true) (hword : isWordChar last = false)
    {parts : List (List Char)} {lexed : List (List Lexeme)} (h : List.Forall₂ Writes parts lexed) :
    Closed (layout.enclose depth first last parts) (encloseLexemes first last lexed) := by
  unfold JsonLayout.enclose encloseLexemes
  split
  · next hnil =>
    subst hnil
    cases h
    exact (closed_mark hfirst).append (closed_mark hlast)
  · have hend : Closed (layout.lineBreak depth ++ [last]) [.mark last] :=
      (closed_lineBreak layout depth).append (closed_mark hlast)
    have hbody := writes_joinWith layout (depth + 1) h
    have hrest : Closed (joinWith (',' :: layout.lineBreak (depth + 1)) parts ++
        (layout.lineBreak depth ++ [last])) (joinWith [.mark ','] lexed ++ [.mark last]) := by
      cases layout with
      | compact => exact hbody.append_closed hword hend
      | indented => exact hbody.append_closed (by decide) hend
    exact (closed_mark hfirst).append
      ((closed_lineBreak layout (depth + 1)).append hrest)

mutual

/-- A written value scans to its lexemes. -/
private theorem writes_render (layout : JsonLayout) (depth : Nat) :
    (value : Json) → value.Writable → Writes (render layout depth value) (lexemesOf value)
  | .null, _ => writes_word (List.all_eq_true.mp (by decide))
  | .bool true, _ => writes_word (List.all_eq_true.mp (by decide))
  | .bool false, _ => writes_word (List.all_eq_true.mp (by decide))
  | .number n, _ => by
    obtain ⟨c, cs, hchars, hword⟩ := toString_int_word n
    simp only [render, lexemesOf, hchars]
    exact writes_word hword
  | .fraction literal, h => by
    obtain ⟨c, cs, hchars, hword⟩ := fraction_word h
    simp only [render, lexemesOf, hchars]
    exact writes_word hword
  | .str s, _ => (closed_quote s).writes
  | .arr items, h =>
    (closed_enclose layout depth rfl rfl rfl (writes_renderItems layout (depth + 1) items h)).writes
  | .obj fields, h =>
    (closed_enclose layout depth rfl rfl rfl
      (writes_renderFields layout (depth + 1) fields h.2)).writes

private theorem writes_renderItems (layout : JsonLayout) (depth : Nat) :
    (items : List Json) → Json.WritableItems items →
      List.Forall₂ Writes (renderItems layout depth items) (lexemesOfItems items)
  | [], _ => .nil
  | item :: rest, h =>
    .cons (writes_render layout depth item h.1) (writes_renderItems layout depth rest h.2)

private theorem writes_renderFields (layout : JsonLayout) (depth : Nat) :
    (fields : List (String × Json)) → Json.WritableFields fields →
      List.Forall₂ Writes (renderFields layout depth fields) (lexemesOfFields fields)
  | [], _ => .nil
  | (name, value) :: rest, h =>
    .cons ((closed_quote name).append_writes ((closed_mark (c := ':') rfl).append_writes
        ((closed_gap layout).append_writes (writes_render layout depth value h.1))))
      (writes_renderFields layout depth rest h.2)

end

/-! ## Parsing what was scanned -/

private theorem assignField_new {fields : List (String × Json)} {field : String × Json}
    (h : field.1 ∉ fields.map Prod.fst) : assignField fields field = fields ++ [field] := by
  unfold assignField
  rw [if_neg h]

private theorem foldl_assignField {fields : List (String × Json)} (before : List (String × Json))
    (h : ((before ++ fields).map Prod.fst).Nodup) :
    fields.foldl assignField before = before ++ fields := by
  induction fields generalizing before with
  | nil => simp
  | cons field rest ih =>
    have hnew : field.1 ∉ before.map Prod.fst := by
      rw [List.map_append, List.nodup_append] at h
      intro hmem
      exact h.2.2 field.1 hmem field.1 (by simp) rfl
    rw [List.foldl_cons, assignField_new hnew, ih (before ++ [field])]
    · simp
    · simpa using h

/-- No value starts with a closing bracket. -/
private theorem lexemesOf_head (value : Json) :
    ∃ first rest, lexemesOf value = first :: rest ∧ first ≠ .mark ']' := by
  cases value <;> exact ⟨_, _, rfl, nofun⟩

private theorem joinWith_cons_eq {α : Type} (separator : List α) (part : List α)
    (parts : List (List α)) : joinWith separator (part :: parts) =
      part ++ (if parts = [] then [] else separator ++ joinWith separator parts) := by
  cases parts with
  | nil => simp [joinWith]
  | cons next rest => simp [joinWith]

private theorem parseValue_items {fuel : Nat} {ls : List Lexeme} (h : ∀ rest, ls ≠ .mark ']' :: rest) :
    parseValue (fuel + 1) (.mark '[' :: ls) =
      (parseItems fuel ls).map fun parsed => (.arr parsed.1, parsed.2) := by
  rw [parseValue]
  intro rest hrest
  exact h rest hrest

mutual

/-- The lexemes of a value parse to the value. -/
private theorem parseValue_lexemesOf :
    (value : Json) → value.Writable → ∀ (fuel : Nat) (rest : List Lexeme),
      (lexemesOf value).length ≤ fuel → parseValue fuel (lexemesOf value ++ rest) = some (value, rest)
  | .null, _, fuel, rest, hfuel => by
    obtain ⟨f, rfl⟩ : ∃ f, fuel = f + 1 := ⟨fuel - 1, by simp [lexemesOf] at hfuel; omega⟩
    rfl
  | .bool b, _, fuel, rest, hfuel => by
    obtain ⟨f, rfl⟩ : ∃ f, fuel = f + 1 := ⟨fuel - 1, by simp [lexemesOf] at hfuel; omega⟩
    cases b <;> rfl
  | .number n, _, fuel, rest, hfuel => by
    obtain ⟨f, rfl⟩ : ∃ f, fuel = f + 1 := ⟨fuel - 1, by simp [lexemesOf] at hfuel; omega⟩
    simp only [lexemesOf, List.singleton_append, parseValue, wordValue_toString, Option.map_some]
  | .fraction literal, h, fuel, rest, hfuel => by
    obtain ⟨f, rfl⟩ : ∃ f, fuel = f + 1 := ⟨fuel - 1, by simp [lexemesOf] at hfuel; omega⟩
    simp only [lexemesOf, List.singleton_append, parseValue, wordValue_fraction h, Option.map_some]
  | .str s, _, fuel, rest, hfuel => by
    obtain ⟨f, rfl⟩ : ∃ f, fuel = f + 1 := ⟨fuel - 1, by simp [lexemesOf] at hfuel; omega⟩
    simp only [lexemesOf, List.singleton_append, parseValue, spell_toNat, String.ofList_toList]
  | .arr [], _, fuel, rest, hfuel => by
    obtain ⟨f, rfl⟩ : ∃ f, fuel = f + 1 := ⟨fuel - 1, by
      simp [lexemesOf, encloseLexemes] at hfuel
      omega⟩
    rfl
  | .arr (item :: items), h, fuel, rest, hfuel => by
    obtain ⟨f, rfl⟩ : ∃ f, fuel = f + 1 := ⟨fuel - 1, by
      simp [lexemesOf, encloseLexemes] at hfuel
      omega⟩
    have hlength : (joinWith [Lexeme.mark ','] (lexemesOfItems (item :: items))).length < f := by
      simp only [lexemesOf, encloseLexemes, List.length_cons, List.length_append,
        List.length_nil] at hfuel
      omega
    have hitems := parseItems_lexemesOf item items h f rest hlength
    have hhead : ∀ tail, joinWith [Lexeme.mark ','] (lexemesOfItems (item :: items)) ++
        .mark ']' :: rest ≠ .mark ']' :: tail := by
      intro tail heq
      obtain ⟨first, others, hfirst, hne⟩ := lexemesOf_head item
      rw [lexemesOfItems, joinWith_cons_eq, hfirst, List.cons_append, List.cons_append] at heq
      exact hne (List.cons.inj heq).1
    show parseValue (f + 1) (.mark '[' ::
      (joinWith [.mark ','] (lexemesOfItems (item :: items)) ++ [.mark ']'] ++ rest)) = _
    rw [List.append_assoc, List.singleton_append, parseValue_items hhead, hitems]
    rfl
  | .obj [], _, fuel, rest, hfuel => by
    obtain ⟨f, rfl⟩ : ∃ f, fuel = f + 1 := ⟨fuel - 1, by
      simp [lexemesOf, encloseLexemes] at hfuel
      omega⟩
    rfl
  | .obj ((name, value) :: fields), h, fuel, rest, hfuel => by
    obtain ⟨f, rfl⟩ : ∃ f, fuel = f + 1 := ⟨fuel - 1, by
      simp [lexemesOf, encloseLexemes] at hfuel
      omega⟩
    have hlength :
        (joinWith [Lexeme.mark ','] (lexemesOfFields ((name, value) :: fields))).length < f := by
      simp only [lexemesOf, encloseLexemes, List.length_cons, List.length_append,
        List.length_nil] at hfuel
      omega
    have hfields := parseFields_lexemesOf (name, value) fields h.2 f rest hlength
    show parseValue (f + 1) (.mark '\x7b' ::
      (joinWith [.mark ','] (lexemesOfFields ((name, value) :: fields)) ++ [.mark '\x7d'] ++ rest)) = _
    have hobject : ∀ (units : List Nat) (tail : List Lexeme),
        parseValue (f + 1) (.mark '\x7b' :: .text units :: tail) =
          (parseFields f (.text units :: tail)).map fun parsed =>
            (.obj (parsed.1.foldl assignField []), parsed.2) := fun _ _ => rfl
    rw [lexemesOfFields, joinWith_cons_eq, List.cons_append, List.cons_append] at hfields
    rw [List.append_assoc, List.singleton_append, lexemesOfFields, joinWith_cons_eq,
      List.cons_append, List.cons_append, hobject, hfields, Option.map_some,
      foldl_assignField [] h.1, List.nil_append]

private theorem parseItems_lexemesOf :
    (item : Json) → (items : List Json) → Json.WritableItems (item :: items) →
      ∀ (fuel : Nat) (rest : List Lexeme),
        (joinWith [Lexeme.mark ','] (lexemesOfItems (item :: items))).length < fuel →
        parseItems fuel (joinWith [.mark ','] (lexemesOfItems (item :: items)) ++ .mark ']' :: rest) =
          some (item :: items, rest)
  | item, [], h, fuel, rest, hfuel => by
    obtain ⟨f, rfl⟩ : ∃ f, fuel = f + 1 := ⟨fuel - 1, by omega⟩
    have hvalue := parseValue_lexemesOf item h.1 f (.mark ']' :: rest)
      (by simp only [lexemesOfItems, joinWith] at hfuel; omega)
    simp only [lexemesOfItems, joinWith, parseItems, hvalue]
  | item, next :: items, h, fuel, rest, hfuel => by
    obtain ⟨f, rfl⟩ : ∃ f, fuel = f + 1 := ⟨fuel - 1, by omega⟩
    have hjoined : joinWith [Lexeme.mark ','] (lexemesOfItems (item :: next :: items)) =
        lexemesOf item ++
          .mark ',' :: joinWith [.mark ','] (lexemesOfItems (next :: items)) := rfl
    rw [hjoined, List.length_append, List.length_cons] at hfuel
    have hvalue := parseValue_lexemesOf item h.1 f
      (.mark ',' :: (joinWith [.mark ','] (lexemesOfItems (next :: items)) ++ .mark ']' :: rest))
      (by omega)
    have hitems := parseItems_lexemesOf next items h.2 f rest (by omega)
    rw [hjoined, List.append_assoc, List.cons_append, parseItems, hvalue]
    simp only [hitems, Option.map_some]

private theorem parseFields_lexemesOf :
    (field : String × Json) → (fields : List (String × Json)) →
      Json.WritableFields (field :: fields) → ∀ (fuel : Nat) (rest : List Lexeme),
        (joinWith [Lexeme.mark ','] (lexemesOfFields (field :: fields))).length < fuel →
        parseFields fuel
            (joinWith [.mark ','] (lexemesOfFields (field :: fields)) ++ .mark '\x7d' :: rest) =
          some (field :: fields, rest)
  | (name, value), [], h, fuel, rest, hfuel => by
    obtain ⟨f, rfl⟩ : ∃ f, fuel = f + 1 := ⟨fuel - 1, by omega⟩
    have hvalue := parseValue_lexemesOf value h.1 f (.mark '\x7d' :: rest)
      (by simp only [lexemesOfFields, joinWith, List.length_cons] at hfuel; omega)
    simp only [lexemesOfFields, joinWith, List.cons_append, parseFields, hvalue, spell_toNat,
      String.ofList_toList]
  | (name, value), next :: fields, h, fuel, rest, hfuel => by
    obtain ⟨f, rfl⟩ : ∃ f, fuel = f + 1 := ⟨fuel - 1, by omega⟩
    have hjoined : joinWith [Lexeme.mark ','] (lexemesOfFields ((name, value) :: next :: fields)) =
        .text (name.toList.map Char.toNat) :: .mark ':' :: (lexemesOf value ++
          .mark ',' :: joinWith [.mark ','] (lexemesOfFields (next :: fields))) := rfl
    rw [hjoined] at hfuel
    simp only [List.length_cons, List.length_append] at hfuel
    have hvalue := parseValue_lexemesOf value h.1 f
      (.mark ',' :: (joinWith [.mark ','] (lexemesOfFields (next :: fields)) ++
        .mark '\x7d' :: rest)) (by omega)
    have hfields := parseFields_lexemesOf next fields h.2 f rest (by omega)
    rw [hjoined, List.cons_append, List.cons_append, List.append_assoc, List.cons_append, parseFields,
      hvalue]
    simp only [hfields, Option.map_some, spell_toNat, String.ofList_toList]

end

/-- Lexemes are read from what writes them, and white space may follow. -/
private theorem lexemes_of_writes {cs spaces : List Char} {ls : List Lexeme} (h : Writes cs ls)
    (hspaces : ∀ c ∈ spaces, isJsonSpace c = true) : lexemes (cs ++ spaces) = some ls := by
  cases spaces with
  | nil =>
    obtain ⟨scan, hscan, hfinish⟩ := h []
    simp only [lexemes, List.append_nil, hscan, Option.bind_some, hfinish, List.nil_append]
  | cons space rest =>
    have hword : isWordChar space = false := by
      have hspace := hspaces space (by simp)
      simp only [isJsonSpace, Bool.or_eq_true, decide_eq_true_eq] at hspace
      rcases hspace with ((rfl | rfl) | rfl) | rfl <;> decide
    have hclosed := h.append_closed hword (closed_spaces hspaces) []
    simp only [lexemes, hclosed, Option.bind_some, Scan.finish, List.append_nil, List.nil_append]

/-- Reading a written value gives the value, whatever white space follows it. -/
theorem parseJson_jsonText (layout : JsonLayout) {value : Json} (h : value.Writable)
    (spaces : List Char) (hspaces : ∀ c ∈ spaces, isJsonSpace c = true) :
    parseJson (jsonText layout value ++ String.ofList spaces) = some value := by
  have hls : lexemes (jsonText layout value ++ String.ofList spaces).toList =
      some (lexemesOf value) := by
    rw [String.toList_append, jsonText, String.toList_ofList, String.toList_ofList]
    exact lexemes_of_writes (writes_render layout 0 value h) hspaces
  have hparse := parseValue_lexemesOf value h ((lexemesOf value).length + 1) [] (by omega)
  rw [List.append_nil] at hparse
  unfold parseJson
  simp only [hls, Option.bind_eq_bind, Option.bind_some, hparse]

/-! ## One line -/

private theorem lineBreak_not_mem_escapeChar (c : Char) : '\n' ∉ escapeChar c := by
  unfold escapeChar
  split
  · decide
  split
  · decide
  split
  · decide
  split
  · decide
  split
  · decide
  split
  · decide
  split
  · decide
  split
  · have hdigit : ∀ n, '\n' ≠ hexDigit n := by
      intro n heq
      have hvalue := hexValue_hexDigit n
      rw [← heq] at hvalue
      cases hvalue
    simp [hdigit]
  · next hbreak _ _ _ _ _ =>
    rw [List.mem_singleton]
    exact fun heq => hbreak heq.symm

private theorem lineBreak_not_mem_quote (s : String) : '\n' ∉ (quote s).toList := by
  unfold quote
  rw [String.toList_ofList, List.cons_append, List.mem_cons, List.mem_append, List.mem_singleton,
    List.mem_flatMap]
  rintro (hquote | ⟨c, -, hc⟩ | hquote)
  · cases hquote
  · exact lineBreak_not_mem_escapeChar c hc
  · cases hquote

private theorem lineBreak_not_mem_joinWith {parts : List (List Char)}
    (h : ∀ part ∈ parts, '\n' ∉ part) : '\n' ∉ joinWith [','] parts := by
  induction parts with
  | nil => exact nofun
  | cons part parts ih =>
    have hrest := ih fun other hother => h other (List.mem_cons_of_mem _ hother)
    rw [joinWith_cons_eq, List.mem_append, not_or]
    refine ⟨h part List.mem_cons_self, ?_⟩
    split
    · exact nofun
    · rw [List.mem_append, not_or]
      exact ⟨by decide, hrest⟩

private theorem lineBreak_not_mem_enclose {depth : Nat} {first last : Char}
    {parts : List (List Char)} (hfirst : '\n' ≠ first) (hlast : '\n' ≠ last)
    (h : ∀ part ∈ parts, '\n' ∉ part) :
    '\n' ∉ JsonLayout.compact.enclose depth first last parts := by
  have hjoined := lineBreak_not_mem_joinWith h
  unfold JsonLayout.enclose JsonLayout.lineBreak
  split
  · simp [hfirst, hlast]
  · simp [hfirst, hlast, hjoined]

private theorem lineBreak_not_mem_word {cs : List Char} (h : ∀ c ∈ cs, isWordChar c = true) :
    '\n' ∉ cs :=
  fun hmem => absurd (h _ hmem) (by decide)

mutual

private theorem lineBreak_not_mem_render (depth : Nat) :
    (value : Json) → value.Writable → '\n' ∉ render .compact depth value
  | .null, _ => show '\n' ∉ "null".toList by decide
  | .bool true, _ => show '\n' ∉ "true".toList by decide
  | .bool false, _ => show '\n' ∉ "false".toList by decide
  | .number n, _ => by
    obtain ⟨c, cs, hchars, hword⟩ := toString_int_word n
    rw [render, hchars]
    exact lineBreak_not_mem_word hword
  | .fraction literal, h => by
    obtain ⟨c, cs, hchars, hword⟩ := fraction_word h
    rw [render, hchars]
    exact lineBreak_not_mem_word hword
  | .str s, _ => lineBreak_not_mem_quote s
  | .arr items, h =>
    lineBreak_not_mem_enclose (by decide) (by decide)
      (lineBreak_not_mem_renderItems (depth + 1) items h)
  | .obj fields, h =>
    lineBreak_not_mem_enclose (by decide) (by decide)
      (lineBreak_not_mem_renderFields (depth + 1) fields h.2)

private theorem lineBreak_not_mem_renderItems (depth : Nat) :
    (items : List Json) → Json.WritableItems items →
      ∀ part ∈ renderItems .compact depth items, '\n' ∉ part
  | [], _ => nofun
  | item :: rest, h =>
    List.forall_mem_cons.mpr ⟨lineBreak_not_mem_render depth item h.1,
      lineBreak_not_mem_renderItems depth rest h.2⟩

private theorem lineBreak_not_mem_renderFields (depth : Nat) :
    (fields : List (String × Json)) → Json.WritableFields fields →
      ∀ part ∈ renderFields .compact depth fields, '\n' ∉ part
  | [], _ => nofun
  | (name, value) :: rest, h => by
    have hname := lineBreak_not_mem_quote name
    have hvalue := lineBreak_not_mem_render depth value h.1
    rw [renderFields, List.forall_mem_cons]
    exact ⟨by simp [hname, hvalue, JsonLayout.gap], lineBreak_not_mem_renderFields depth rest h.2⟩

end

/-- A value written without white space is one line. -/
theorem lineBreak_not_mem_jsonText {value : Json} (h : value.Writable) :
    '\n' ∉ (jsonText .compact value).toList := by
  rw [jsonText, String.toList_ofList]
  exact lineBreak_not_mem_render 0 value h

end BuildConductor.Domain
