import BuildConductor.Base.Checks
import BuildConductor.Domain.PlanTexts

/-!
# Parsed values

What `JSON.parse` answers can be written again, and how the source looks at an answer whose type it
only assumes: it reads properties, compares keys and joins texts.
-/

namespace BuildConductor.Domain

open Base

/-! ## Parsed values are writable -/

/-- Distinct names, and values that can be written. -/
def WritableObject (fields : List (String × Json)) : Prop :=
  (fields.map Prod.fst).Nodup ∧ ∀ field ∈ fields, field.2.Writable

theorem writable_obj_iff {fields : List (String × Json)} :
    (Json.obj fields).Writable ↔ WritableObject fields := by
  unfold WritableObject
  rw [Json.Writable, Json.writableFields_iff]

theorem WritableObject.assignField {fields : List (String × Json)} {field : String × Json}
    (h : WritableObject fields) (hvalue : field.2.Writable) :
    WritableObject (assignField fields field) := by
  unfold Domain.assignField
  split
  · have hnames : (fields.map fun entry => if entry.1 = field.1 then field else entry).map Prod.fst =
        fields.map Prod.fst := by
      rw [List.map_map]
      apply List.map_congr_left
      intro entry _
      dsimp only [Function.comp_apply]
      split
      · next hsame => exact hsame.symm
      · rfl
    refine ⟨by rw [hnames]; exact h.1, ?_⟩
    rw [List.forall_mem_map]
    intro entry hentry
    split
    · exact hvalue
    · exact h.2 entry hentry
  · next hnew =>
    refine ⟨?_, ?_⟩
    · rw [List.map_append, List.nodup_append]
      refine ⟨h.1, by simp, ?_⟩
      rintro name hname other hother rfl
      rw [List.map_singleton, List.mem_singleton] at hother
      exact hnew (hother ▸ hname)
    · intro entry hentry
      rw [List.mem_append, List.mem_singleton] at hentry
      rcases hentry with hentry | rfl
      · exact h.2 entry hentry
      · exact hvalue

/-- An assignment leaves the other properties. -/
theorem Json.field_assignField_ne {fields : List (String × Json)} {key name : String}
    (h : name ≠ key) (value : Json) :
    Json.field (Domain.assignField fields (key, value)) name = Json.field fields name := by
  have hne : (name == key) = false := beq_false_of_ne h
  unfold Domain.assignField Json.field
  dsimp only
  split
  · clear * - hne
    induction fields with
    | nil => rfl
    | cons entry rest ih =>
      obtain ⟨other, item⟩ := entry
      rw [List.map_cons, List.lookup_cons]
      by_cases hkey : other = key
      · rw [if_pos hkey, List.lookup_cons, hkey, hne, ih]
      · rw [if_neg hkey, List.lookup_cons, ih]
  · rw [List.lookup_append, List.lookup_cons, hne, List.lookup_nil, Option.or_none]

private theorem writableObject_foldl {fields before : List (String × Json)}
    (hbefore : WritableObject before) (hfields : ∀ field ∈ fields, field.2.Writable) :
    WritableObject (fields.foldl assignField before) := by
  induction fields generalizing before with
  | nil => exact hbefore
  | cons field rest ih =>
    rw [List.forall_mem_cons] at hfields
    exact ih (hbefore.assignField hfields.1) hfields.2

private theorem wordValue_writable {cs : List Char} {value : Json} (h : wordValue cs = some value) :
    value.Writable := by
  unfold wordValue at h
  split at h
  · cases h
    trivial
  split at h
  · cases h
    trivial
  split at h
  · cases h
    trivial
  split at h
  · cases h
    trivial
  split at h
  · next hliteral =>
    cases h
    rw [Json.Writable, String.toList_ofList]
    exact hliteral
  · cases h

mutual

private theorem parseValue_writable {fuel : Nat} {ls rest : List Lexeme} {value : Json}
    (h : parseValue fuel ls = some (value, rest)) : value.Writable := by
  unfold parseValue at h
  split at h
  · cases h
    trivial
  · next cs tail =>
    rw [Option.map_eq_some_iff] at h
    obtain ⟨word, hword, hparsed⟩ := h
    cases hparsed
    exact wordValue_writable hword
  · cases h
    trivial
  · next fuel tail _ =>
    rw [Option.map_eq_some_iff] at h
    obtain ⟨parsed, hitems, hparsed⟩ := h
    cases hparsed
    rw [Json.Writable, Json.writableItems_iff]
    exact parseItems_writable hitems
  · cases h
    exact writable_obj_iff.mpr ⟨List.nodup_nil, nofun⟩
  · next fuel tail _ =>
    rw [Option.map_eq_some_iff] at h
    obtain ⟨parsed, hfields, hparsed⟩ := h
    cases hparsed
    rw [writable_obj_iff]
    exact writableObject_foldl ⟨List.nodup_nil, nofun⟩ (parseFields_writable hfields)
  · cases h

private theorem parseItems_writable {fuel : Nat} {ls rest : List Lexeme} {items : List Json}
    (h : parseItems fuel ls = some (items, rest)) : ∀ item ∈ items, item.Writable := by
  unfold parseItems at h
  split at h
  · cases h
  · next fuel ls =>
    split at h
    · next value tail hvalue =>
      rw [Option.map_eq_some_iff] at h
      obtain ⟨parsed, hitems, hparsed⟩ := h
      cases hparsed
      rw [List.forall_mem_cons]
      exact ⟨parseValue_writable hvalue, parseItems_writable hitems⟩
    · next value tail hvalue =>
      cases h
      rw [List.forall_mem_singleton]
      exact parseValue_writable hvalue
    · cases h

private theorem parseFields_writable {fuel : Nat} {ls rest : List Lexeme}
    {fields : List (String × Json)} (h : parseFields fuel ls = some (fields, rest)) :
    ∀ field ∈ fields, field.2.Writable := by
  unfold parseFields at h
  split at h
  · next fuel units ls =>
    dsimp only at h
    split at h
    · next value tail hvalue =>
      rw [Option.map_eq_some_iff] at h
      obtain ⟨parsed, hfields, hparsed⟩ := h
      cases hparsed
      rw [List.forall_mem_cons]
      exact ⟨parseValue_writable hvalue, parseFields_writable hfields⟩
    · next value tail hvalue =>
      cases h
      rw [List.forall_mem_singleton]
      exact parseValue_writable hvalue
    · cases h
  · cases h

end

/-- What a text parses to can be written. -/
theorem parseJson_writable {text : String} {value : Json} (h : parseJson text = some value) :
    value.Writable := by
  unfold parseJson at h
  rw [Option.bind_eq_bind, Option.bind_eq_some_iff] at h
  obtain ⟨ls, -, h⟩ := h
  split at h
  · next parsed hparsed =>
    cases h
    exact parseValue_writable hparsed
  · cases h

/-! ## Values of an assumed type -/

/-- `value[key]`. Only an object has the properties the source looks for. -/
def Json.property (value : Json) (key : String) : Except String (Option Json) :=
  match value with
  | .null => .error s!"Cannot read properties of null (reading '{key}')"
  | .obj fields => .ok (Json.field fields key)
  | _ => .ok none

/-- The value is a given text. -/
def Json.isText (value : Option Json) (s : String) : Bool :=
  match value with
  | some (.str t) => t = s
  | _ => false

@[simp] theorem Json.isText_iff {value : Option Json} {s : String} :
    Json.isText value s = true ↔ value = some (.str s) := by
  unfold Json.isText
  split
  · simp
  · next hother =>
    constructor
    · intro h
      cases h
    · rintro rfl
      exact absurd rfl (hother s)

/-- Whether two values are one key of a map. An object is only the same as itself, and no two
parsed values are one object. -/
def Json.sameKey : Option Json → Option Json → Bool
  | none, none => true
  | some .null, some .null => true
  | some (.bool a), some (.bool b) => a = b
  | some (.number a), some (.number b) => a = b
  | some (.fraction a), some (.fraction b) => a = b
  | some (.str a), some (.str b) => a = b
  | _, _ => false

theorem Json.eq_of_sameKey {left right : Option Json} (h : Json.sameKey left right = true) :
    left = right := by
  unfold Json.sameKey at h
  split at h <;> simp_all

mutual

/-- What a value contributes to a joined text. -/
def Json.joinText : Json → String
  | .null => ""
  | .bool b => if b then "true" else "false"
  | .number n => toString n
  | .fraction literal => literal
  | .str s => s
  | .arr items => String.intercalate "," (Json.joinTexts items)
  | .obj _ => "[object Object]"

/-- What the items of a list contribute. -/
def Json.joinTexts : List Json → List String
  | [] => []
  | item :: rest => item.joinText :: Json.joinTexts rest

end

end BuildConductor.Domain
