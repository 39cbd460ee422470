import Mathlib.Data.List.Basic
import Mathlib.Data.List.Nodup

/-!
# Insertion-ordered records

An object used as a map: each own key once, in the order the keys were first set.
Replacing a value keeps its key's place and a new key goes last, so enumeration is
deterministic. The uniqueness of keys is a field, so no operation can build a record
that binds a key twice.
-/

namespace BuildConductor.Base

universe u v w

/-- A finite map that enumerates its keys in insertion order. -/
structure OrderedRecord (κ : Type u) (α : Type v) where
  entries : List (κ × α)
  nodup : (entries.map Prod.fst).Nodup

namespace OrderedRecord

variable {κ : Type u} {α : Type v} {β : Type w}

instance [DecidableEq κ] [DecidableEq α] : DecidableEq (OrderedRecord κ α) := fun a b =>
  decidable_of_iff (a.entries = b.entries) (by cases a; cases b; simp)

/-- The record with no keys. -/
def empty : OrderedRecord κ α := ⟨[], by simp⟩

/-- The keys in insertion order. -/
def keys (r : OrderedRecord κ α) : List κ := r.entries.map Prod.fst

/-- The values in insertion order. -/
def values (r : OrderedRecord κ α) : List α := r.entries.map Prod.snd

@[simp] theorem keys_empty : (empty : OrderedRecord κ α).keys = [] := rfl

theorem nodup_keys (r : OrderedRecord κ α) : r.keys.Nodup := r.nodup

/-- Replace every value, keeping the keys and their order. -/
def mapValues (f : κ → α → β) (r : OrderedRecord κ α) : OrderedRecord κ β :=
  ⟨r.entries.map fun e => (e.1, f e.1 e.2), by
    have h : (r.entries.map fun e => (e.1, f e.1 e.2)).map Prod.fst =
        r.entries.map Prod.fst := by
      rw [List.map_map]
      rfl
    rw [h]
    exact r.nodup⟩

@[simp] theorem keys_mapValues (f : κ → α → β) (r : OrderedRecord κ α) :
    (r.mapValues f).keys = r.keys := by
  simp [keys, mapValues, Function.comp_def]

variable [DecidableEq κ]

/-- The value bound to a key, if any. -/
def get? (r : OrderedRecord κ α) (k : κ) : Option α := r.entries.lookup k

private def replace (k : κ) (v : α) : List (κ × α) → List (κ × α)
  | [] => [(k, v)]
  | (k', v') :: rest => if k' = k then (k, v) :: rest else (k', v') :: replace k v rest

private theorem mem_keys_replace (k : κ) (v : α) (es : List (κ × α)) (x : κ) :
    x ∈ (replace k v es).map Prod.fst ↔ x = k ∨ x ∈ es.map Prod.fst := by
  induction es with
  | nil => simp [replace]
  | cons e rest ih =>
    obtain ⟨k', v'⟩ := e
    simp only [replace]
    split
    · next h => subst h; simp
    · simp only [List.map_cons, List.mem_cons, ih]
      tauto

private theorem nodup_replace (k : κ) (v : α) (es : List (κ × α))
    (h : (es.map Prod.fst).Nodup) : ((replace k v es).map Prod.fst).Nodup := by
  induction es with
  | nil => simp [replace]
  | cons e rest ih =>
    obtain ⟨k', v'⟩ := e
    simp only [List.map_cons, List.nodup_cons] at h
    simp only [replace]
    split
    · next hk => subst hk; simpa using h
    · next hk =>
      simp only [List.map_cons, List.nodup_cons]
      refine ⟨?_, ih h.2⟩
      rw [mem_keys_replace]
      rintro (rfl | hm)
      · exact hk rfl
      · exact h.1 hm

/-- Bind a key, in place when it is already bound and last otherwise. -/
def set (r : OrderedRecord κ α) (k : κ) (v : α) : OrderedRecord κ α :=
  ⟨replace k v r.entries, nodup_replace k v r.entries r.nodup⟩

/-- Bind each listed pair in turn. -/
def ofList (es : List (κ × α)) : OrderedRecord κ α :=
  es.foldl (fun r e => r.set e.1 e.2) empty

@[simp] theorem get?_empty (k : κ) : (empty : OrderedRecord κ α).get? k = none := rfl

private theorem lookup_replace (k : κ) (v : α) (es : List (κ × α)) (x : κ) :
    (replace k v es).lookup x = if x = k then some v else es.lookup x := by
  induction es with
  | nil =>
    by_cases h : x = k
    · subst h; simp [replace]
    · have hne : (x == k) = false := by simpa using h
      simp [replace, List.lookup_cons, hne, h]
  | cons e rest ih =>
    obtain ⟨k', v'⟩ := e
    simp only [replace]
    split
    · next hk =>
      subst hk
      by_cases hx : x = k'
      · subst hx; simp
      · have hne : (x == k') = false := by simpa using hx
        simp [List.lookup_cons, hne, hx]
    · next hk =>
      by_cases hx : x = k'
      · subst hx; simp [hk]
      · have hne : (x == k') = false := by simpa using hx
        rw [List.lookup_cons, hne, ih]
        simp [List.lookup_cons, hne]

/-- Setting a key changes that key's value only. -/
theorem get?_set (r : OrderedRecord κ α) (k : κ) (v : α) (x : κ) :
    (r.set k v).get? x = if x = k then some v else r.get? x :=
  lookup_replace k v r.entries x

@[simp] theorem get?_set_self (r : OrderedRecord κ α) (k : κ) (v : α) :
    (r.set k v).get? k = some v := by
  simp [get?_set]

theorem get?_set_of_ne (r : OrderedRecord κ α) {k x : κ} (v : α) (h : x ≠ k) :
    (r.set k v).get? x = r.get? x := by
  simp [get?_set, h]

/-- An entry is listed exactly when its key looks it up. -/
theorem mem_entries_iff (r : OrderedRecord κ α) (k : κ) (v : α) :
    (k, v) ∈ r.entries ↔ r.get? k = some v := by
  obtain ⟨es, hn⟩ := r
  simp only [get?]
  induction es with
  | nil => simp
  | cons e rest ih =>
    obtain ⟨k', v'⟩ := e
    simp only [List.map_cons, List.nodup_cons] at hn
    simp only [List.mem_cons, Prod.mk.injEq]
    by_cases hk : k = k'
    · subst hk
      have hnot : (k, v) ∉ rest := fun hm => hn.1 (List.mem_map.mpr ⟨(k, v), hm, rfl⟩)
      simp [hnot, eq_comm]
    · have hne : (k == k') = false := by simpa using hk
      simp [List.lookup_cons, hne, hk, ih hn.2]

/-- A key is listed exactly when it is bound. -/
theorem mem_keys_iff (r : OrderedRecord κ α) (k : κ) : k ∈ r.keys ↔ (r.get? k).isSome := by
  simp only [keys, List.mem_map, Prod.exists, exists_and_right, exists_eq_right]
  simp only [mem_entries_iff, Option.isSome_iff_exists]

/-- A value is listed exactly when some key is bound to it. -/
theorem mem_values_iff (r : OrderedRecord κ α) (v : α) : v ∈ r.values ↔ ∃ k, r.get? k = some v := by
  simp only [values, List.mem_map, Prod.exists, exists_eq_right]
  simp only [mem_entries_iff]

private theorem keys_replace_of_mem (k : κ) (v : α) (es : List (κ × α))
    (h : k ∈ es.map Prod.fst) : (replace k v es).map Prod.fst = es.map Prod.fst := by
  induction es with
  | nil => simp at h
  | cons e rest ih =>
    obtain ⟨k', v'⟩ := e
    simp only [replace]
    split
    · next hk => subst hk; simp
    · next hk =>
      have hrest : k ∈ rest.map Prod.fst := by
        simp only [List.map_cons, List.mem_cons] at h
        exact h.resolve_left (Ne.symm hk)
      simp [ih hrest]

/-- Replacing a bound key keeps the enumeration order. -/
theorem keys_set_of_mem (r : OrderedRecord κ α) (k : κ) (v : α) (h : k ∈ r.keys) :
    (r.set k v).keys = r.keys :=
  keys_replace_of_mem k v r.entries h

/-- A key is bound after a set exactly when it was bound or is the one set. -/
theorem mem_keys_set (r : OrderedRecord κ α) (k : κ) (v : α) (x : κ) :
    x ∈ (r.set k v).keys ↔ x = k ∨ x ∈ r.keys :=
  mem_keys_replace k v r.entries x

private theorem lookup_mapValues (f : κ → α → β) (es : List (κ × α)) (k : κ) :
    (es.map fun e => (e.1, f e.1 e.2)).lookup k = (es.lookup k).map (f k) := by
  induction es with
  | nil => rfl
  | cons e rest ih =>
    obtain ⟨k', v'⟩ := e
    by_cases hk : k = k'
    · subst hk; simp
    · have hne : (k == k') = false := by simpa using hk
      simp [List.lookup_cons, hne, ih]

/-- Mapping values acts at each key. -/
@[simp] theorem get?_mapValues (f : κ → α → β) (r : OrderedRecord κ α) (k : κ) :
    (r.mapValues f).get? k = (r.get? k).map (f k) :=
  lookup_mapValues f r.entries k

private theorem lookup_eq_none_of_notMem {es : List (κ × α)} {k : κ}
    (h : k ∉ es.map Prod.fst) : es.lookup k = none := by
  rw [List.lookup_eq_none_iff]
  intro p hp
  have hne : k ≠ p.1 := fun hk => h (List.mem_map.mpr ⟨p, hp, hk.symm⟩)
  simpa using hne

/-- Records with the same key order and the same lookups are equal. -/
theorem ext_get? {r s : OrderedRecord κ α} (hkeys : r.keys = s.keys)
    (hget : ∀ k, r.get? k = s.get? k) : r = s := by
  obtain ⟨es, hes⟩ := r
  obtain ⟨fs, hfs⟩ := s
  simp only [OrderedRecord.mk.injEq]
  simp only [keys] at hkeys
  simp only [get?] at hget
  induction es generalizing fs with
  | nil => simpa using hkeys
  | cons e rest ih =>
    cases fs with
    | nil => simp at hkeys
    | cons f frest =>
      obtain ⟨k, v⟩ := e
      obtain ⟨k', v'⟩ := f
      simp only [List.map_cons, List.cons.injEq] at hkeys
      obtain ⟨rfl, hrest⟩ := hkeys
      simp only [List.map_cons, List.nodup_cons] at hes hfs
      have hv : v = v' := by simpa using hget k
      subst hv
      have htail : ∀ x, rest.lookup x = frest.lookup x := by
        intro x
        by_cases hx : x = k
        · subst hx
          rw [lookup_eq_none_of_notMem hes.1, lookup_eq_none_of_notMem hfs.1]
        · have hne : (x == k) = false := by simpa using hx
          simpa [List.lookup_cons, hne] using hget x
      rw [ih hes.2 frest hfs.2 hrest htail]

/-- The values are those bound to the keys, in the order of the keys. -/
theorem values_eq_filterMap (r : OrderedRecord κ α) : r.values = r.keys.filterMap r.get? := by
  have hget : ∀ e ∈ r.entries, r.get? e.1 = some e.2 := fun e he => (mem_entries_iff r e.1 e.2).mp he
  rw [values, keys, List.filterMap_map]
  generalize r.entries = entries at hget ⊢
  induction entries with
  | nil => rfl
  | cons e rest ih =>
    have hhead : (r.get? ∘ Prod.fst) e = some e.2 := hget e List.mem_cons_self
    rw [List.map_cons, List.filterMap_cons_some hhead, ih]
    exact fun e he => hget e (List.mem_cons_of_mem _ he)

/-- Setting a key to what it holds changes nothing. -/
theorem set_of_get? {r : OrderedRecord κ α} {k : κ} {v : α} (h : r.get? k = some v) :
    r.set k v = r := by
  apply ext_get?
  · apply keys_set_of_mem
    rw [mem_keys_iff, h]
    rfl
  · intro x
    rw [get?_set]
    split
    · next hx => rw [hx, h]
    · rfl

/-! ## Binding many keys -/

section Bindings

variable {ι : Type w} (key : ι → κ) (value : ι → α)

theorem get?_foldl_set_of_not_mem {xs : List ι} {k : κ} (h : k ∉ xs.map key)
    (r : OrderedRecord κ α) :
    (xs.foldl (fun r x => r.set (key x) (value x)) r).get? k = r.get? k := by
  induction xs generalizing r with
  | nil => rfl
  | cons x rest ih =>
    rw [List.map_cons, List.mem_cons, not_or] at h
    rw [List.foldl_cons, ih h.2, get?_set_of_ne _ _ h.1]

/-- Binding distinct keys binds each of them to its value. -/
theorem get?_foldl_set_of_mem {xs : List ι} (hnodup : (xs.map key).Nodup) {x : ι} (hx : x ∈ xs)
    (r : OrderedRecord κ α) :
    (xs.foldl (fun r x => r.set (key x) (value x)) r).get? (key x) = some (value x) := by
  induction xs generalizing r with
  | nil => cases hx
  | cons y rest ih =>
    rw [List.map_cons, List.nodup_cons] at hnodup
    rw [List.foldl_cons]
    rcases List.mem_cons.mp hx with rfl | hx
    · rw [get?_foldl_set_of_not_mem key value hnodup.1, get?_set_self]
    · exact ih hnodup.2 hx _

/-- A key bound afterwards was bound by the list or before. -/
theorem get?_foldl_set_cases {xs : List ι} (hnodup : (xs.map key).Nodup) {k : κ} {a : α}
    {r : OrderedRecord κ α}
    (h : (xs.foldl (fun r x => r.set (key x) (value x)) r).get? k = some a) :
    (∃ x ∈ xs, key x = k ∧ value x = a) ∨ (k ∉ xs.map key ∧ r.get? k = some a) := by
  by_cases hk : k ∈ xs.map key
  · obtain ⟨x, hx, rfl⟩ := List.mem_map.mp hk
    rw [get?_foldl_set_of_mem key value hnodup hx, Option.some.injEq] at h
    exact Or.inl ⟨x, hx, rfl, h⟩
  · rw [get?_foldl_set_of_not_mem key value hk] at h
    exact Or.inr ⟨hk, h⟩

end Bindings

/-! ## Records that correspond key by key -/

/-- Two records bind the same keys, to related values. -/
def Pointwise (R : κ → α → β → Prop) (r : OrderedRecord κ α) (s : OrderedRecord κ β) : Prop :=
  ∀ k, Option.Rel (R k) (r.get? k) (s.get? k)

theorem Pointwise.right {R : κ → α → β → Prop} {r : OrderedRecord κ α} {s : OrderedRecord κ β}
    (h : Pointwise R r s) {k : κ} {a : α} (ha : r.get? k = some a) :
    ∃ b, s.get? k = some b ∧ R k a b := by
  have hk := h k
  rw [ha] at hk
  cases hs : s.get? k with
  | none =>
    rw [hs] at hk
    cases hk
  | some b =>
    rw [hs] at hk
    cases hk with
    | some hab => exact ⟨b, rfl, hab⟩

theorem Pointwise.left {R : κ → α → β → Prop} {r : OrderedRecord κ α} {s : OrderedRecord κ β}
    (h : Pointwise R r s) {k : κ} {b : β} (hb : s.get? k = some b) :
    ∃ a, r.get? k = some a ∧ R k a b := by
  have hk := h k
  rw [hb] at hk
  cases hr : r.get? k with
  | none =>
    rw [hr] at hk
    cases hk
  | some a =>
    rw [hr] at hk
    cases hk with
    | some hab => exact ⟨a, rfl, hab⟩

/-- Records whose entries pair up, key by key, are related. -/
theorem pointwise_of_entries {R : κ → α → β → Prop} {r : OrderedRecord κ α} {s : OrderedRecord κ β}
    (h : List.Forall₂ (fun e f => e.1 = f.1 ∧ R e.1 e.2 f.2) r.entries s.entries) :
    Pointwise R r s := by
  intro k
  unfold get?
  generalize r.entries = left at h
  generalize s.entries = right at h
  induction h with
  | nil => exact Option.Rel.none
  | @cons e f es fs hpair _ ih =>
    obtain ⟨key, value⟩ := e
    obtain ⟨key', value'⟩ := f
    obtain ⟨hkey, hrel⟩ := hpair
    obtain rfl : key = key' := hkey
    rw [List.lookup_cons, List.lookup_cons]
    by_cases hk : k = key
    · subst hk
      simpa using Option.Rel.some hrel
    · rw [beq_eq_false_iff_ne.mpr hk]
      exact ih

theorem Pointwise.refl {R : κ → α → α → Prop} (hR : ∀ k a, R k a a) (r : OrderedRecord κ α) :
    Pointwise R r r := by
  intro k
  cases r.get? k with
  | none => exact .none
  | some a => exact .some (hR k a)

theorem Pointwise.symm {R : κ → α → β → Prop} {R' : κ → β → α → Prop}
    (hR : ∀ k a b, R k a b → R' k b a) {r : OrderedRecord κ α} {s : OrderedRecord κ β}
    (h : Pointwise R r s) : Pointwise R' s r := by
  intro k
  cases hs : s.get? k with
  | none =>
    have hk := h k
    rw [hs] at hk
    cases hr : r.get? k with
    | none => exact .none
    | some a =>
      rw [hr] at hk
      cases hk
  | some b =>
    obtain ⟨a, ha, hab⟩ := h.left hs
    rw [ha]
    exact .some (hR k a b hab)

theorem Pointwise.trans {R : κ → α → α → Prop} (hR : ∀ k a b c, R k a b → R k b c → R k a c)
    {r s t : OrderedRecord κ α} (h : Pointwise R r s) (h' : Pointwise R s t) : Pointwise R r t := by
  intro k
  cases hr : r.get? k with
  | none =>
    have hs := h k
    rw [hr] at hs
    cases hs' : s.get? k with
    | none =>
      have ht := h' k
      rw [hs'] at ht
      exact ht
    | some b =>
      rw [hs'] at hs
      cases hs
  | some a =>
    obtain ⟨b, hb, hab⟩ := h.right hr
    obtain ⟨c, hc, hbc⟩ := h'.right hb
    rw [hc]
    exact .some (hR k a b c hab hbc)

theorem Pointwise.mono {R R' : κ → α → β → Prop} (hR : ∀ k a b, R k a b → R' k a b)
    {r : OrderedRecord κ α} {s : OrderedRecord κ β} (h : Pointwise R r s) : Pointwise R' r s := by
  intro k
  cases hr : r.get? k with
  | none =>
    have hs := h k
    rw [hr] at hs
    cases hs' : s.get? k with
    | none => exact .none
    | some b =>
      rw [hs'] at hs
      cases hs
  | some a =>
    obtain ⟨b, hb, hab⟩ := h.right hr
    rw [hb]
    exact .some (hR k a b hab)

/-- A record built from entries binds a key to a value only where some entry does. -/
theorem mem_of_get?_ofList {es : List (κ × α)} {k : κ} {v : α} (h : (ofList es).get? k = some v) :
    (k, v) ∈ es := by
  have hfold : ∀ (es : List (κ × α)) (r : OrderedRecord κ α),
      (es.foldl (fun r e => r.set e.1 e.2) r).get? k = some v →
        (k, v) ∈ es ∨ r.get? k = some v := by
    intro es
    induction es with
    | nil => exact fun r hr => .inr hr
    | cons e es ih =>
      intro r hr
      rcases ih (r.set e.1 e.2) hr with hmem | hget
      · exact .inl (List.mem_cons_of_mem _ hmem)
      · rw [get?_set] at hget
        split at hget
        · next hkey =>
          cases hget
          exact .inl (hkey ▸ List.mem_cons_self)
        · exact .inr hget
  rcases hfold es empty h with hmem | hget
  · exact hmem
  · cases hget

/-- Remove a key. -/
def erase (r : OrderedRecord κ α) (k : κ) : OrderedRecord κ α :=
  ⟨r.entries.filter fun e => e.1 ≠ k, r.nodup.sublist (List.filter_sublist.map _)⟩

theorem get?_erase (r : OrderedRecord κ α) (k x : κ) :
    (r.erase k).get? x = if x = k then none else r.get? x := by
  have hmem : ∀ v, (r.erase k).get? x = some v ↔ x ≠ k ∧ r.get? x = some v := by
    intro v
    rw [← mem_entries_iff, ← mem_entries_iff, erase, List.mem_filter, decide_eq_true_eq]
    exact and_comm
  ext v
  rw [hmem]
  by_cases hx : x = k <;> simp [hx]

/-- Replacing a bound value by a related one relates the records. -/
theorem pointwise_set {R : κ → α → α → Prop} (hR : ∀ k a, R k a a) {r : OrderedRecord κ α} {k : κ}
    {a b : α} (ha : r.get? k = some a) (hab : R k a b) : Pointwise R r (r.set k b) := by
  intro x
  rw [get?_set]
  by_cases hx : x = k
  · subst hx
    rw [if_pos rfl, ha]
    exact .some hab
  · rw [if_neg hx]
    cases r.get? x with
    | none => exact .none
    | some a => exact .some (hR x a)

/-- Rewriting every value to a related one relates the records. -/
theorem pointwise_mapValues {R : κ → α → β → Prop} {f : κ → α → β} (hR : ∀ k a, R k a (f k a))
    (r : OrderedRecord κ α) : Pointwise R r (r.mapValues f) := by
  intro k
  rw [get?_mapValues]
  cases r.get? k with
  | none => exact .none
  | some a => exact .some (hR k a)

end OrderedRecord
end BuildConductor.Base
