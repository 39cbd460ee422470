import BuildConductor.Domain.Text

/-!
# Untyped values and readers

An untyped value as the validators receive it, and the reader every field goes
through: a reader always produces a value and records the issues it met, so one pass
reports every fault of a document.
-/

namespace BuildConductor.Domain

universe u

/-- An untyped value. An absent field stands for `undefined`. -/
inductive Json
  | null
  | bool (value : Bool)
  | number (value : Int)
  | fraction (literal : String)
  | str (value : String)
  | arr (items : List Json)
  | obj (fields : List (String × Json))

namespace Json

/-- `value[name]` of an object, `undefined` when the key is absent. -/
def field (fields : List (String × Json)) (name : String) : Option Json :=
  fields.lookup name

/-- The properties of an object literal that are not `undefined`. -/
def definedFields (properties : List (String × Option Json)) : List (String × Json) :=
  properties.filterMap fun e => e.2.map fun v => (e.1, v)

/-- A list of strings. -/
def strings (xs : List String) : Json := arr (xs.map str)

private theorem field_eq_none {properties : List (String × Option Json)} {name : String}
    (h : name ∉ properties.map Prod.fst) : field (definedFields properties) name = none := by
  unfold field definedFields
  rw [List.lookup_eq_none_iff]
  rintro ⟨key, value⟩ hmem
  simp only [List.mem_filterMap, Option.map_eq_some_iff, Prod.mk.injEq] at hmem
  obtain ⟨e, he, v, -, hkey, -⟩ := hmem
  have hne : name ≠ key := fun hname => h (List.mem_map.mpr ⟨e, he, by rw [hkey, hname]⟩)
  simpa using hne

/-- A literal with distinct property names has the properties it lists. -/
theorem field_definedFields {properties : List (String × Option Json)}
    (h : (properties.map Prod.fst).Nodup) (name : String) :
    field (definedFields properties) name = (properties.lookup name).join := by
  induction properties with
  | nil => rfl
  | cons e rest ih =>
    obtain ⟨key, value⟩ := e
    simp only [List.map_cons, List.nodup_cons] at h
    by_cases hname : name = key
    · subst hname
      cases value with
      | none =>
        rw [List.lookup_cons_self]
        have hrest := field_eq_none h.1
        simpa [definedFields] using hrest
      | some v => simp [field, definedFields]
    · have hne : (name == key) = false := by simpa using hname
      rw [List.lookup_cons, hne, ← ih h.2]
      cases value with
      | none => rfl
      | some v => simp [field, definedFields, List.lookup_cons, hne]

end Json

/-- Largest integer a number represents exactly, `Number.MAX_SAFE_INTEGER`. -/
def maxSafeInteger : Nat := 9007199254740991

/-- `Number.isSafeInteger(value)`, with the integer it holds. -/
def safeInteger? : Option Json → Option Int
  | some (.number n) => if n.natAbs ≤ maxSafeInteger then some n else none
  | _ => none

/-- One way a document is invalid. `src/src/domain/dag.ts:11-17`. -/
structure PlanValidationIssue where
  code : String
  path : String
  message : String
deriving DecidableEq, Repr

/-- A value together with the issues met while reading it. -/
structure Reading (α : Type u) where
  value : α
  issues : List PlanValidationIssue

namespace Reading

instance : Monad Reading where
  pure a := ⟨a, []⟩
  bind x f := ⟨(f x.value).value, x.issues ++ (f x.value).issues⟩

/-- Record one issue. `src/src/domain/dag.ts:56-64`. -/
def addIssue (code path message : String) : Reading Unit := ⟨(), [⟨code, path, message⟩]⟩

/-- Record an issue when a condition holds. -/
def issueIf (condition : Prop) [Decidable condition] (code path message : String) :
    Reading Unit :=
  if condition then addIssue code path message else pure ()

/-- Read the elements of a list with their indices. -/
def readEach {α β : Type} (read : Nat → α → Reading β) : Nat → List α → Reading (List β)
  | _, [] => pure []
  | index, item :: rest => do
    let value ← read index item
    let values ← readEach read (index + 1) rest
    pure (value :: values)

/-- Check the elements of a list with their indices. -/
def checkEach {α : Type} (check : Nat → α → Reading Unit) : Nat → List α → Reading Unit
  | _, [] => pure ()
  | index, item :: rest => do
    check index item
    checkEach check (index + 1) rest

variable {α β : Type}

@[simp] theorem pure_eq_clean_iff {a b : α} : (pure a : Reading α) = ⟨b, []⟩ ↔ a = b := by
  simp [pure]

/-- A sequence is clean exactly when each part is. -/
theorem bind_eq_clean_iff {x : Reading α} {f : α → Reading β} {b : β} :
    (x >>= f) = ⟨b, []⟩ ↔ ∃ a, x = ⟨a, []⟩ ∧ f a = ⟨b, []⟩ := by
  obtain ⟨a, issues⟩ := x
  constructor
  · intro h
    simp only [bind, Reading.mk.injEq, List.append_eq_nil_iff] at h
    obtain ⟨hvalue, hissues, hrest⟩ := h
    refine ⟨a, by rw [hissues], ?_⟩
    cases hfa : f a with
    | mk value rest => simp_all
  · rintro ⟨a', ha, hf⟩
    simp only [Reading.mk.injEq] at ha
    obtain ⟨rfl, rfl⟩ := ha
    simp [bind, hf]

@[simp] theorem addIssue_ne_clean {code path message : String} {u : Unit} :
    addIssue code path message ≠ ⟨u, []⟩ := by
  simp [addIssue]

/-- A conditional issue is clean exactly when its condition fails. -/
@[simp] theorem issueIf_eq_clean_iff {condition : Prop} [Decidable condition]
    {code path message : String} {u : Unit} :
    issueIf condition code path message = ⟨u, []⟩ ↔ ¬ condition := by
  unfold issueIf
  split
  · next h => simp [h]
  · next h => simp [h]

/-- A statement of the indexed elements of a list that does not use the index. -/
theorem forall_getElem?_iff {xs : List α} {p : α → Prop} :
    (∀ (i : Nat) x, xs[i]? = some x → p x) ↔ ∀ x ∈ xs, p x := by
  constructor
  · intro h x hx
    obtain ⟨i, hi⟩ := List.mem_iff_getElem?.mp hx
    exact h i x hi
  · exact fun h i x hi => h x (List.mem_of_getElem? hi)

/-- Reading a list is clean exactly when reading each element is. -/
theorem readEach_eq_clean_iff {read : Nat → α → Reading β} {index : Nat} {items : List α}
    {values : List β} :
    readEach read index items = ⟨values, []⟩ ↔
      items.length = values.length ∧
        ∀ i a b, items[i]? = some a → values[i]? = some b → read (index + i) a = ⟨b, []⟩ := by
  induction items generalizing index values with
  | nil =>
    simp only [readEach, pure_eq_clean_iff, List.length_nil]
    constructor
    · rintro rfl
      simp
    · rintro ⟨hlen, -⟩
      exact (List.length_eq_zero_iff.mp hlen.symm).symm
  | cons item rest ih =>
    simp only [readEach, bind_eq_clean_iff, pure_eq_clean_iff]
    constructor
    · rintro ⟨v, hv, vs, hvs, rfl⟩
      obtain ⟨hlen, hall⟩ := ih.mp hvs
      refine ⟨by simp [hlen], ?_⟩
      intro i a b ha hb
      cases i with
      | zero =>
        simp only [List.getElem?_cons_zero, Option.some.injEq] at ha hb
        subst ha hb
        exact hv
      | succ i =>
        have := hall i a b (by simpa using ha) (by simpa using hb)
        rwa [show index + (i + 1) = index + 1 + i by omega]
    · rintro ⟨hlen, hall⟩
      cases values with
      | nil => simp at hlen
      | cons v vs =>
        refine ⟨v, hall 0 item v rfl rfl, vs, ?_, rfl⟩
        refine ih.mpr ⟨by simpa using hlen, ?_⟩
        intro i a b ha hb
        have := hall (i + 1) a b (by simpa using ha) (by simpa using hb)
        rwa [show index + (i + 1) = index + 1 + i by omega] at this

/-- Every value read cleanly came from some element. -/
theorem readEach_mem {read : Nat → α → Reading β} {index : Nat} {items : List α}
    {values : List β} (h : readEach read index items = ⟨values, []⟩) {b : β} (hb : b ∈ values) :
    ∃ i, ∃ a ∈ items, read i a = ⟨b, []⟩ := by
  rw [readEach_eq_clean_iff] at h
  obtain ⟨hlen, hall⟩ := h
  obtain ⟨i, hi⟩ := List.mem_iff_getElem?.mp hb
  have hlt : i < items.length := by
    rw [hlen]
    exact (List.getElem?_eq_some_iff.mp hi).1
  exact ⟨index + i, items[i], List.getElem_mem hlt,
    hall i items[i] b (List.getElem?_eq_getElem hlt) hi⟩

/-- Reading the encodings of cleanly read values gives the same values. -/
theorem readEach_again {read : Nat → α → Reading β} {encode : β → α} {index : Nat}
    {items : List α} {values : List β} (h : readEach read index items = ⟨values, []⟩)
    (hread : ∀ i a b, read i a = ⟨b, []⟩ → read i (encode b) = ⟨b, []⟩) :
    readEach read index (values.map encode) = ⟨values, []⟩ := by
  rw [readEach_eq_clean_iff] at h ⊢
  obtain ⟨hlen, hall⟩ := h
  refine ⟨by simp, ?_⟩
  intro i a b ha hb
  rw [List.getElem?_map, hb] at ha
  simp only [Option.map_some, Option.some.injEq] at ha
  subst ha
  have hi : i < items.length := by
    rw [hlen]
    exact (List.getElem?_eq_some_iff.mp hb).1
  exact hread _ _ b (hall i items[i] b (List.getElem?_eq_getElem hi) hb)

/-- Checking a list is clean exactly when checking each element is. -/
theorem checkEach_eq_clean_iff {check : Nat → α → Reading Unit} {index : Nat} {items : List α} :
    checkEach check index items = ⟨(), []⟩ ↔
      ∀ i a, items[i]? = some a → check (index + i) a = ⟨(), []⟩ := by
  induction items generalizing index with
  | nil => simp [checkEach]
  | cons item rest ih =>
    simp only [checkEach, bind_eq_clean_iff]
    constructor
    · rintro ⟨⟨⟩, hitem, hrest⟩ i a ha
      cases i with
      | zero =>
        simp only [List.getElem?_cons_zero, Option.some.injEq] at ha
        subst ha
        exact hitem
      | succ i =>
        have := ih.mp hrest i a (by simpa using ha)
        rwa [show index + (i + 1) = index + 1 + i by omega]
    · intro h
      refine ⟨(), h 0 item rfl, ih.mpr ?_⟩
      intro i a ha
      have := h (i + 1) a (by simpa using ha)
      rwa [show index + (i + 1) = index + 1 + i by omega] at this

end Reading
end BuildConductor.Domain
