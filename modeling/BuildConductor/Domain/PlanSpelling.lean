import BuildConductor.Domain.CanonicalPaths
import BuildConductor.Domain.StepsNormal

/-!
# Plan documents as they are written

The reader of plans trims texts, drops the properties it does not know and gives a missing list of
final commands its default. A document it accepts is the document of the plan it returns when none
of this happens. `src/src/domain/steps.ts:222-640`, `src/src/domain/dag.ts:70-258`.
-/

namespace BuildConductor.Domain

/-! ## Equal documents -/

/-- Two documents are the same value. The order of the properties of an object does not matter. -/
inductive Json.Same : Json → Json → Prop
  | null : Same .null .null
  | bool (value : Bool) : Same (.bool value) (.bool value)
  | number (value : Int) : Same (.number value) (.number value)
  | fraction (literal : String) : Same (.fraction literal) (.fraction literal)
  | str (value : String) : Same (.str value) (.str value)
  | arr {items others : List Json} (h : List.Forall₂ Same items others) :
      Same (.arr items) (.arr others)
  | obj {fields others : List (String × Json)}
      (h : ∀ name, Option.Rel Same (Json.field fields name) (Json.field others name)) :
      Same (.obj fields) (.obj others)

namespace Json

theorem same_str_iff {value : Json} {text : String} : Same value (.str text) ↔ value = .str text := by
  constructor
  · intro h
    cases h
    rfl
  · rintro rfl
    exact .str text

theorem same_arr_iff {items others : List Json} :
    Same (.arr items) (.arr others) ↔ List.Forall₂ Same items others := by
  constructor
  · intro h
    cases h with
    | arr h => exact h
  · exact .arr

theorem same_obj_iff {fields others : List (String × Json)} :
    Same (.obj fields) (.obj others) ↔
      ∀ name, Option.Rel Same (field fields name) (field others name) := by
  constructor
  · intro h
    cases h with
    | obj h => exact h
  · exact .obj

end Json

/-! ## Shapes -/

/-- How a part of a document may be written. -/
abbrev Shape := Json → Prop

def anyValue : Shape := fun _ => True

/-- A text without white space at its ends. -/
def trimmedText : Shape
  | .str text => trim text = text
  | _ => True

/-- A list whose items have a shape. -/
def listOf (shape : Shape) : Shape
  | .arr items => ∀ item ∈ items, shape item
  | _ => True

/-- An object with properties among some, each of its shape. -/
def objectOf (shapes : List (String × Shape)) : Shape
  | .obj fields => ∀ name value, Json.field fields name = some value →
      ∃ shape, (name, shape) ∈ shapes ∧ shape value
  | _ => True

/-- A part of a document is the same as what it is read as just when it has a shape. -/
def Keeps (shape : Shape) (value written : Json) : Prop := value.Same written ↔ shape value

/-- A property that is present in the document and in what it is read as, or in neither. -/
def KeepsField (shape : Shape) : Option Json → Option Json → Prop
  | some value, some written => Keeps shape value written
  | none, none => True
  | _, _ => False

theorem KeepsField.exists_written {shape : Shape} {value : Json} {written : Option Json}
    (h : KeepsField shape (some value) written) : ∃ json, written = some json ∧ Keeps shape value json := by
  cases written with
  | none => exact h.elim
  | some json => exact ⟨json, rfl, h⟩

theorem KeepsField.none_iff {shape : Shape} {written : Option Json}
    (h : KeepsField shape none written) : written = none := by
  cases written with
  | none => rfl
  | some json => exact h.elim

theorem keeps_anyValue {value written : Json} (h : value.Same written) : Keeps anyValue value written :=
  iff_of_true h trivial

/-! ## Objects -/

private theorem lookup_map_of_mem {α β : Type} {entries : List (String × α)} {f : String × α → β}
    (hnodup : (entries.map Prod.fst).Nodup) {entry : String × α} (h : entry ∈ entries) :
    (entries.map fun e => (e.1, f e)).lookup entry.1 = some (f entry) := by
  induction entries with
  | nil => cases h
  | cons first rest ih =>
    rw [List.map_cons, List.nodup_cons] at hnodup
    rw [List.map_cons, List.lookup_cons]
    rcases List.mem_cons.mp h with rfl | h
    · rw [beq_self_eq_true]
    · have hne : entry.1 ≠ first.1 := by
        intro heq
        exact hnodup.1 (heq ▸ List.mem_map_of_mem h)
      rw [beq_false_of_ne hne]
      exact ih hnodup.2 h

/-- An object whose properties are kept is kept. -/
theorem keeps_object {fields : List (String × Json)}
    {entries : List (String × (Shape × Option Json))} (hnodup : (entries.map Prod.fst).Nodup)
    (h : ∀ entry ∈ entries, KeepsField entry.2.1 (Json.field fields entry.1) entry.2.2) :
    Keeps (objectOf (entries.map fun entry => (entry.1, entry.2.1))) (.obj fields)
      (.obj (Json.definedFields (entries.map fun entry => (entry.1, entry.2.2)))) := by
  have hnames : ((entries.map fun entry => (entry.1, entry.2.2)).map Prod.fst).Nodup := by
    rw [List.map_map]
    exact hnodup
  have hwritten : ∀ entry ∈ entries,
      Json.field (Json.definedFields (entries.map fun entry => (entry.1, entry.2.2))) entry.1 =
        entry.2.2 := by
    intro entry hentry
    rw [Json.field_definedFields hnames,
      lookup_map_of_mem (f := fun entry => entry.2.2) hnodup hentry]
    rfl
  have hunknown : ∀ name, (∀ entry ∈ entries, entry.1 ≠ name) →
      Json.field (Json.definedFields (entries.map fun entry => (entry.1, entry.2.2))) name = none := by
    intro name hname
    rw [Json.field_definedFields hnames]
    have hnone : (entries.map fun entry => (entry.1, entry.2.2)).lookup name = none := by
      rw [List.lookup_eq_none_iff]
      intro pair hpair
      obtain ⟨entry, hentry, rfl⟩ := List.mem_map.mp hpair
      simpa using (hname entry hentry).symm
    rw [hnone]
    rfl
  unfold Keeps objectOf
  rw [Json.same_obj_iff]
  constructor
  · intro hsame name value hvalue
    have hrel := hsame name
    rw [hvalue] at hrel
    by_cases hknown : ∃ entry ∈ entries, entry.1 = name
    · obtain ⟨entry, hentry, rfl⟩ := hknown
      have hkeeps := h entry hentry
      rw [hvalue] at hkeeps
      obtain ⟨json, hjson, hkeeps⟩ := hkeeps.exists_written
      rw [hwritten entry hentry, hjson] at hrel
      cases hrel with
      | some hrel => exact ⟨entry.2.1, List.mem_map.mpr ⟨entry, hentry, rfl⟩, hkeeps.mp hrel⟩
    · rw [hunknown name fun entry hentry heq => hknown ⟨entry, hentry, heq⟩] at hrel
      cases hrel
  · intro hshape name
    cases hvalue : Json.field fields name with
    | some value =>
      obtain ⟨shape, hmem, hvalue'⟩ := hshape name value hvalue
      obtain ⟨entry, hentry, heq⟩ := List.mem_map.mp hmem
      cases heq
      have hkeeps := h entry hentry
      rw [hvalue] at hkeeps
      obtain ⟨json, hjson, hkeeps⟩ := hkeeps.exists_written
      rw [hwritten entry hentry, hjson]
      exact .some (hkeeps.mpr hvalue')
    | none =>
      by_cases hknown : ∃ entry ∈ entries, entry.1 = name
      · obtain ⟨entry, hentry, rfl⟩ := hknown
        have hkeeps := h entry hentry
        rw [hvalue] at hkeeps
        rw [hwritten entry hentry, hkeeps.none_iff]
        exact .none
      · rw [hunknown name fun entry hentry heq => hknown ⟨entry, hentry, heq⟩]
        exact .none

/-! ## Readers -/

namespace Reading

private theorem keepsField_text {value : Option Json} {path text : String}
    (h : readNonEmptyString value path = ⟨text, []⟩) :
    KeepsField trimmedText value (some (.str text)) := by
  unfold readNonEmptyString at h
  split at h
  · next raw =>
    split at h
    · simp [bind_eq_clean_iff] at h
    · rw [pure_eq_clean_iff] at h
      subst h
      show Json.Same (.str raw) (.str (trim raw)) ↔ trim raw = raw
      rw [Json.same_str_iff, Json.str.injEq, eq_comm]
  · simp [bind_eq_clean_iff] at h

/-- A list whose items are kept is kept. -/
private theorem keeps_readEach {β : Type} {read : Nat → Json → Reading β} {shape : Shape}
    {encode : β → Json} {index : Nat} {items : List Json} {values : List β}
    (h : readEach read index items = ⟨values, []⟩)
    (hread : ∀ i item value, read i item = ⟨value, []⟩ → Keeps shape item (encode value)) :
    Keeps (listOf shape) (.arr items) (.arr (values.map encode)) := by
  show Json.Same (.arr items) (.arr (values.map encode)) ↔ ∀ item ∈ items, shape item
  rw [Json.same_arr_iff]
  induction items generalizing index values with
  | nil =>
    rw [readEach, pure_eq_clean_iff] at h
    subst h
    simp
  | cons item items ih =>
    simp only [readEach, bind_eq_clean_iff, pure_eq_clean_iff] at h
    obtain ⟨value, hvalue, rest, hrest, rfl⟩ := h
    rw [List.map_cons, List.forall₂_cons, List.forall_mem_cons, ih hrest]
    exact and_congr_left fun _ => hread _ _ _ hvalue

private theorem keepsField_texts {value : Option Json} {path : String} {texts : List String}
    (h : readStringArray value path = ⟨texts, []⟩) :
    KeepsField (listOf trimmedText) value (some (Json.strings texts)) := by
  unfold readStringArray at h
  split at h
  · next items =>
    exact keeps_readEach h fun _ _ _ hitem => keepsField_text hitem
  · simp [bind_eq_clean_iff] at h

/-- A declaration is kept when its value is. -/
private theorem keepsField_declared {α : Type} {value : Option Json}
    {read : Json → Reading (Option α)} {o : Option α} {encode : α → Json} {shape : Shape}
    (h : readDeclared value read = ⟨o, []⟩)
    (hread : ∀ v o, read v = ⟨o, []⟩ → ∃ a, o = some a ∧ Keeps shape v (encode a)) :
    KeepsField shape value (o.map encode) := by
  unfold readDeclared at h
  split at h
  · next =>
    rw [pure_eq_clean_iff] at h
    subst h
    trivial
  · next v =>
    obtain ⟨a, rfl, hkeeps⟩ := hread v o h
    exact hkeeps

private theorem keepsField_always {α : Type} {value : Option Json} {read : Json → Reading α}
    {o : Option α} {encode : α → Json} {shape : Shape}
    (h : readDeclared value (fun v => always (read v)) = ⟨o, []⟩)
    (hread : ∀ v a, read v = ⟨a, []⟩ → Keeps shape v (encode a)) :
    KeepsField shape value (o.map encode) := by
  apply keepsField_declared h
  intro v o hv
  obtain ⟨a, ha, rfl⟩ := always_eq_clean_iff.mp hv
  exact ⟨a, rfl, hread v a ha⟩

/-! ### Inputs, locks and policies -/

end Reading

/-- The properties of an input reference. -/
def inputShape : Shape := objectOf [("stepId", trimmedText), ("output", trimmedText)]

/-- The properties of a command. Its arguments are kept as they are. -/
def commandShape : Shape := objectOf [("command", trimmedText), ("args", anyValue)]

namespace Reading

private theorem keeps_input {path : String} {index : Nat} {item : Json} {input : StepInputReference}
    (h : readInput path index item = ⟨input, []⟩) : Keeps inputShape item input.toJson := by
  unfold readInput at h
  split at h
  · next fields =>
    simp only [bind_eq_clean_iff, pure_eq_clean_iff] at h
    obtain ⟨stepId, hstepId, output, houtput, rfl⟩ := h
    apply @keeps_object fields [("stepId", trimmedText, some (.str stepId)),
      ("output", trimmedText, some (.str output))] (by simp)
    rw [List.forall_mem_cons, List.forall_mem_singleton]
    exact ⟨keepsField_text hstepId, keepsField_text houtput⟩
  · simp [bind_eq_clean_iff] at h

private theorem keeps_inputs {value : Json} {path : String} {inputs : List StepInputReference}
    (h : readInputs value path = ⟨inputs, []⟩) :
    Keeps (listOf inputShape) value (.arr (inputs.map StepInputReference.toJson)) := by
  unfold readInputs at h
  split at h
  · exact keeps_readEach h fun _ _ _ hitem => keeps_input hitem
  · simp [bind_eq_clean_iff] at h

private theorem keeps_identifiers {value : Json} {path formatCode duplicateCode : String}
    {names : List String}
    (h : readNamedIdentifiers value path formatCode duplicateCode = ⟨names, []⟩) :
    Keeps (listOf trimmedText) value (Json.strings names) := by
  unfold readNamedIdentifiers at h
  simp only [bind_eq_clean_iff, pure_eq_clean_iff] at h
  obtain ⟨texts, hread, -, -, -, -, rfl⟩ := h
  exact keepsField_texts hread

private theorem keepsField_paths {value : Option Json} {path : String} {paths : List String}
    (h : readSafeRepositoryPaths value path = ⟨paths, []⟩) :
    KeepsField (listOf trimmedText) value (some (Json.strings paths)) := by
  unfold readSafeRepositoryPaths at h
  simp only [bind_eq_clean_iff, pure_eq_clean_iff] at h
  obtain ⟨texts, hread, -, -, -, -, rfl⟩ := h
  exact keepsField_texts hread

private theorem keeps_profile {value : Json} {path : String} {o : Option CapabilityProfileName}
    (h : readProfile value path = ⟨o, []⟩) :
    ∃ profile, o = some profile ∧ Keeps anyValue value (.str profile.name) := by
  unfold readProfile at h
  split at h
  · next text =>
    split at h
    · next profile hprofile =>
      rw [pure_eq_clean_iff] at h
      refine ⟨profile, h.symm, keeps_anyValue ?_⟩
      have hname : profile.name = text := by simpa using List.find?_some hprofile
      rw [hname]
      exact .str text
    · simp [bind_eq_clean_iff] at h
  · simp [bind_eq_clean_iff] at h

private theorem keeps_capabilities {value : Json} {path : String} {names : List String}
    (h : readCapabilityNames value path = ⟨names, []⟩) :
    Keeps (listOf trimmedText) value
      (Json.strings ((names.filterMap StepCapability.ofName?).map StepCapability.name)) := by
  rw [(readCapabilityNames_again h).2]
  unfold readCapabilityNames at h
  simp only [bind_eq_clean_iff, pure_eq_clean_iff] at h
  obtain ⟨texts, hread, -, -, rfl⟩ := h
  exact keepsField_texts hread

private theorem number_of_safeInteger {value : Json} {n : Int}
    (h : safeInteger? (some value) = some n) : value = .number n := by
  unfold safeInteger? at h
  split at h
  · next m hm =>
    split at h
    · cases h
      exact Option.some.inj hm
    · cases h
  · cases h

private theorem keeps_timeout {value : Json} {path : String} {o : Option Nat}
    (h : readTimeoutMs value path = ⟨o, []⟩) :
    ∃ n : Nat, o = some n ∧ Keeps anyValue value (.number (n : Int)) := by
  unfold readTimeoutMs at h
  split at h
  · next n hn =>
    split at h
    · simp [bind_eq_clean_iff] at h
    · next hpos =>
      rw [pure_eq_clean_iff] at h
      refine ⟨n.toNat, h.symm, keeps_anyValue ?_⟩
      have hnat : ((n.toNat : Nat) : Int) = n := by omega
      rw [number_of_safeInteger hn, hnat]
      exact .number n
  · simp [bind_eq_clean_iff] at h

end Reading

/-- The properties of a retry policy. -/
def retryShape : Shape := objectOf [("maxAttempts", anyValue)]

namespace Reading

private theorem keeps_retry {value : Json} {path : String} {o : Option StepRetryPolicy}
    (h : readRetry value path = ⟨o, []⟩) :
    ∃ policy, o = some policy ∧
      Keeps retryShape value (.obj [("maxAttempts", .number (policy.maxAttempts : Int))]) := by
  unfold readRetry at h
  split at h
  · next budget hbudget =>
    rw [pure_eq_clean_iff] at h
    refine ⟨⟨budget⟩, h.symm, ?_⟩
    unfold retryBudget? at hbudget
    split at hbudget
    · next fields =>
      split at hbudget
      · next n hn =>
        split at hbudget
        · next hrange =>
          cases hbudget
          have hnat : ((n.toNat : Nat) : Int) = n := by omega
          apply @keeps_object fields [("maxAttempts", anyValue, some (.number (n.toNat : Int)))]
            (by simp)
          rw [List.forall_mem_singleton]
          show KeepsField anyValue (Json.field fields "maxAttempts") (some (.number (n.toNat : Int)))
          cases hfield : Json.field fields "maxAttempts" with
          | none =>
            rw [hfield] at hn
            cases hn
          | some value =>
            rw [hfield] at hn
            rw [number_of_safeInteger hn, hnat]
            exact keeps_anyValue (.number n)
        · cases hbudget
      · cases hbudget
    · cases hbudget
  · simp [bind_eq_clean_iff] at h

/-! ### Commands -/

private theorem same_arguments {itemPath : String} {index : Nat} {items : List Json} {args : List String}
    (h : readEach (readCommandArgument itemPath) index items = ⟨args, []⟩) :
    Json.Same (.arr items) (Json.strings args) := by
  have hkeeps : Keeps (listOf anyValue) (.arr items) (.arr (args.map .str)) := by
    apply keeps_readEach h
    intro i item value hitem
    unfold readCommandArgument at hitem
    split at hitem
    · simp only [bind_eq_clean_iff, pure_eq_clean_iff] at hitem
      obtain ⟨-, -, rfl⟩ := hitem
      exact keeps_anyValue (.str _)
    · simp [bind_eq_clean_iff] at hitem
  exact hkeeps.mpr fun _ _ => trivial

private theorem keepsField_command {item : Option Json} {itemPath : String} {c : ValidationCommand}
    (h : readCommandObject item itemPath = ⟨c, []⟩) : KeepsField commandShape item (some c.toJson) := by
  unfold readCommandObject at h
  split at h
  · next fields =>
    simp only [bind_eq_clean_iff] at h
    obtain ⟨command, hcommand, -, -, h⟩ := h
    split at h
    · next items hitems =>
      simp only [bind_eq_clean_iff, pure_eq_clean_iff] at h
      obtain ⟨args, hargs, rfl⟩ := h
      apply @keeps_object fields [("command", trimmedText, some (.str command)),
        ("args", anyValue, some (Json.strings args))] (by simp)
      rw [List.forall_mem_cons, List.forall_mem_singleton]
      refine ⟨keepsField_text hcommand, ?_⟩
      show KeepsField anyValue (Json.field fields "args") _
      rw [hitems]
      exact keeps_anyValue (same_arguments hargs)
    · simp [bind_eq_clean_iff] at h
  · simp [bind_eq_clean_iff] at h

private theorem keepsField_commands {value : Option Json} {path : String} {cs : List ValidationCommand}
    (h : readValidationCommands value path = ⟨cs, []⟩) :
    KeepsField (listOf commandShape) value (some (.arr (cs.map ValidationCommand.toJson))) := by
  unfold readValidationCommands at h
  split at h
  · exact keeps_readEach h fun _ _ _ hitem => keepsField_command hitem
  · simp [bind_eq_clean_iff] at h

end Reading

/-! ## Steps -/

/-- The properties every step may have. -/
def commonShapes : List (String × Shape) :=
  [("id", trimmedText), ("title", trimmedText), ("description", trimmedText),
    ("dependencies", listOf trimmedText), ("inputs", listOf inputShape),
    ("outputs", listOf trimmedText), ("profile", anyValue), ("capabilities", listOf trimmedText),
    ("pathLocks", listOf trimmedText), ("resourceLocks", listOf trimmedText),
    ("timeoutMs", anyValue), ("retry", retryShape)]

/-- The properties of the steps of one kind. -/
def StepKind.shapes : StepKind → List (String × Shape)
  | .investigation => [("kind", anyValue), ("questions", listOf trimmedText)]
  | .change =>
    [("kind", anyValue), ("acceptanceCriteria", listOf trimmedText),
      ("allowedPaths", listOf trimmedText), ("validationCommands", listOf commandShape)]
  | .command => [("kind", anyValue), ("command", commandShape)]
  | .approval => [("kind", anyValue), ("prompt", trimmedText)]

/-- A step with texts that are trimmed and properties that its kind has. -/
def stepShape : Shape
  | .obj fields =>
    match Reading.stepKind? (Json.field fields "kind") with
    | some kind => objectOf (commonShapes ++ kind.shapes) (.obj fields)
    | none => True
  | _ => True

namespace Reading

/-- The common properties, each with its shape and what it is read as. -/
private def commonEntries (common : StepDefinitionCommon) : List (String × (Shape × Option Json)) :=
  [("id", trimmedText, some (.str common.id)),
    ("title", trimmedText, some (.str common.title)),
    ("description", trimmedText, some (.str common.description)),
    ("dependencies", listOf trimmedText, some (Json.strings common.dependencies)),
    ("inputs", listOf inputShape,
      common.inputs.map fun inputs => .arr (inputs.map StepInputReference.toJson)),
    ("outputs", listOf trimmedText, common.outputs.map Json.strings),
    ("profile", anyValue, common.profile.map fun profile => .str profile.name),
    ("capabilities", listOf trimmedText,
      common.capabilities.map fun cs => Json.strings (cs.map StepCapability.name)),
    ("pathLocks", listOf trimmedText, common.pathLocks.map Json.strings),
    ("resourceLocks", listOf trimmedText, common.resourceLocks.map Json.strings),
    ("timeoutMs", anyValue, common.timeoutMs.map fun n : Nat => .number (n : Int)),
    ("retry", retryShape,
      common.retry.map fun policy => .obj [("maxAttempts", .number policy.maxAttempts)])]

/-- The properties of a kind, each with its shape and what it is read as. -/
private def bodyEntries : StepBody → List (String × (Shape × Option Json))
  | .investigation questions =>
    [("kind", anyValue, some (.str "investigation")),
      ("questions", listOf trimmedText, some (Json.strings questions))]
  | .change acceptanceCriteria allowedPaths validationCommands =>
    [("kind", anyValue, some (.str "change")),
      ("acceptanceCriteria", listOf trimmedText, some (Json.strings acceptanceCriteria)),
      ("allowedPaths", listOf trimmedText, some (Json.strings allowedPaths)),
      ("validationCommands", listOf commandShape,
        some (.arr (validationCommands.map ValidationCommand.toJson)))]
  | .command invocation =>
    [("kind", anyValue, some (.str "command")), ("command", commandShape, some invocation.toJson)]
  | .approval prompt =>
    [("kind", anyValue, some (.str "approval")), ("prompt", trimmedText, some (.str prompt))]

private theorem keeps_commonEntries {fields : List (String × Json)} {path : String}
    {c : CommonReading} (h : readStepCommon fields path = ⟨c, []⟩) :
    ∀ entry ∈ commonEntries c.common,
      KeepsField entry.2.1 (Json.field fields entry.1) entry.2.2 := by
  unfold readStepCommon at h
  simp only [bind_eq_clean_iff, pure_eq_clean_iff] at h
  obtain ⟨id, hid, title, htitle, description, hdescription, dependencies, hdependencies,
    inputs, hinputs, outputs, houtputs, profile, hprofile, names, hnames, pathLocks, hpathLocks,
    resourceLocks, hresourceLocks, timeoutMs, htimeoutMs, retry, hretry, rfl⟩ := h
  have hcapabilities : KeepsField (listOf trimmedText) (Json.field fields "capabilities")
      ((names.map fun ns => ns.filterMap StepCapability.ofName?).map
        fun cs => Json.strings (cs.map StepCapability.name)) := by
    rw [Option.map_map]
    exact keepsField_always hnames fun v a => keeps_capabilities
  unfold commonEntries
  simp only [List.forall_mem_cons, List.not_mem_nil, false_implies, implies_true, and_true]
  exact ⟨keepsField_text hid, keepsField_text htitle, keepsField_text hdescription,
    keepsField_texts hdependencies, keepsField_always hinputs fun v a => keeps_inputs,
    keepsField_always houtputs fun v a => keeps_identifiers,
    keepsField_declared hprofile fun v o => keeps_profile, hcapabilities,
    keepsField_always hpathLocks fun v a ha => keepsField_paths ha,
    keepsField_always hresourceLocks fun v a => keeps_identifiers,
    keepsField_declared htimeoutMs fun v o => keeps_timeout,
    keepsField_declared hretry fun v o => keeps_retry⟩

private theorem keepsField_kind {value : Option Json} {kind : StepKind}
    (h : stepKind? value = some kind) : KeepsField anyValue value (some (.str kind.name)) := by
  unfold stepKind? at h
  split at h
  · cases h
    exact keeps_anyValue (.str _)
  · cases h
    exact keeps_anyValue (.str _)
  · cases h
    exact keeps_anyValue (.str _)
  · cases h
    exact keeps_anyValue (.str _)
  · cases h

private theorem keeps_bodyEntries {kind : StepKind} {fields : List (String × Json)} {path : String}
    {body : StepBody} (hkind : stepKind? (Json.field fields "kind") = some kind)
    (h : readStepBody kind fields path = ⟨body, []⟩) :
    (bodyEntries body).map (fun entry => (entry.1, entry.2.1)) = kind.shapes ∧
      ∀ entry ∈ bodyEntries body, KeepsField entry.2.1 (Json.field fields entry.1) entry.2.2 := by
  have hname := keepsField_kind hkind
  unfold readStepBody at h
  cases kind with
  | investigation =>
    simp only [bind_eq_clean_iff, pure_eq_clean_iff] at h
    obtain ⟨questions, hquestions, rfl⟩ := h
    unfold readQuestions at hquestions
    simp only [bind_eq_clean_iff, pure_eq_clean_iff] at hquestions
    obtain ⟨texts, hread, -, -, rfl⟩ := hquestions
    refine ⟨rfl, ?_⟩
    rw [bodyEntries, List.forall_mem_cons, List.forall_mem_singleton]
    exact ⟨hname, keepsField_texts hread⟩
  | change =>
    simp only [bind_eq_clean_iff, pure_eq_clean_iff] at h
    obtain ⟨criteria, hcriteria, paths, hpaths, commands, hcommands, rfl⟩ := h
    unfold readAllowedPaths at hpaths
    simp only [bind_eq_clean_iff, pure_eq_clean_iff] at hpaths
    obtain ⟨texts, hread, -, -, rfl⟩ := hpaths
    refine ⟨rfl, ?_⟩
    rw [bodyEntries, List.forall_mem_cons, List.forall_mem_cons, List.forall_mem_cons,
      List.forall_mem_singleton]
    exact ⟨hname, keepsField_texts hcriteria, keepsField_paths hread, keepsField_commands hcommands⟩
  | command =>
    simp only [bind_eq_clean_iff, pure_eq_clean_iff] at h
    obtain ⟨invocation, hinvocation, rfl⟩ := h
    refine ⟨rfl, ?_⟩
    rw [bodyEntries, List.forall_mem_cons, List.forall_mem_singleton]
    exact ⟨hname, keepsField_command hinvocation⟩
  | approval =>
    simp only [bind_eq_clean_iff, pure_eq_clean_iff] at h
    obtain ⟨prompt, hprompt, rfl⟩ := h
    refine ⟨rfl, ?_⟩
    rw [bodyEntries, List.forall_mem_cons, List.forall_mem_singleton]
    exact ⟨hname, keepsField_text hprompt⟩

/-- A step document is that of the step it is read as just when it has the shape of a step. -/
theorem keeps_step {index : Nat} {value : Json} {step : StepDefinition}
    (h : readStep index value = ⟨step, []⟩) : Keeps stepShape value step.toJson := by
  unfold readStep at h
  split at h
  · next fields =>
    simp only [bind_eq_clean_iff] at h
    obtain ⟨common, hcommon, h⟩ := h
    split at h
    · next kind hkind =>
      simp only [bind_eq_clean_iff, pure_eq_clean_iff] at h
      obtain ⟨body, hbody, -, -, -, -, rfl⟩ := h
      obtain ⟨hshapes, hentries⟩ := keeps_bodyEntries hkind hbody
      have hall := List.forall_mem_append.mpr ⟨keeps_commonEntries hcommon, hentries⟩
      have hwritten : (commonEntries common.common ++ bodyEntries body).map
          (fun entry => (entry.1, entry.2.2)) =
            StepDefinition.properties { common.common with body } := by
        cases body <;> rfl
      have hshape : (commonEntries common.common ++ bodyEntries body).map
          (fun entry => (entry.1, entry.2.1)) = commonShapes ++ kind.shapes := by
        rw [List.map_append, hshapes]
        rfl
      have hnodup : ((commonEntries common.common ++ bodyEntries body).map Prod.fst).Nodup := by
        have hnames := StepDefinition.nodup_properties { common.common with body }
        rw [← hwritten, List.map_map] at hnames
        exact hnames
      have hkeeps := keeps_object hnodup hall
      rw [hwritten, hshape] at hkeeps
      show Json.Same (.obj fields) _ ↔ stepShape (.obj fields)
      rw [stepShape, hkind]
      exact hkeeps
    · simp [bind_eq_clean_iff] at h
  · simp [bind_eq_clean_iff] at h

end Reading

/-! ## Plans -/

/-- The properties of a plan. -/
def planShape : Shape :=
  objectOf [("version", anyValue), ("title", trimmedText), ("steps", listOf stepShape),
    ("finalValidationCommands", listOf commandShape)]

/-- A plan as the reader writes it: the texts it trims have no white space at their ends, no object
has a property that it drops, and the final commands are listed, though there may be none. -/
def IsNormalPlanDocument (value : Json) : Prop :=
  planShape value ∧ ∀ fields, value = .obj fields →
    Json.field fields "finalValidationCommands" ≠ none

private theorem keeps_finalCommands {hasChangeStep : Bool} {value : Json} {cs : List ValidationCommand}
    (h : Reading.readFinalValidationCommands hasChangeStep (some value) = ⟨cs, []⟩) :
    Keeps (listOf commandShape) value (.arr (cs.map ValidationCommand.toJson)) := by
  unfold Reading.readFinalValidationCommands at h
  split at h
  · split at h
    · exact Reading.keepsField_commands h
    · simp [Reading.bind_eq_clean_iff] at h
  · split at h
    · next hnone => cases hnone
    · next hempty =>
      cases hempty
      rw [Reading.pure_eq_clean_iff] at h
      subst h
      exact iff_of_true (.arr .nil) nofun
    · next hsome =>
      cases hsome
      exact Reading.keepsField_commands h
    · simp [Reading.bind_eq_clean_iff] at h

/-- A plan document is that of the plan it is read as just when it is written as the reader writes
it. -/
theorem same_plan_iff {value : Json} {plan : WorkflowPlan} (h : validateWorkflowPlan value = .ok plan) :
    value.Same plan.toJson ↔ IsNormalPlanDocument value := by
  obtain ⟨fields, rfl, hread, -⟩ := validateWorkflowPlan_ok_iff.mp h
  obtain ⟨items, hsteps, -, hitems, htitle, hcommands, hversion, -⟩ :=
    Reading.readWorkflowPlan_clean hread
  cases hfinal : Json.field fields "finalValidationCommands" with
  | none =>
    refine iff_of_false ?_ fun hnormal => hnormal.2 fields rfl hfinal
    intro hsame
    have hrel := Json.same_obj_iff.mp hsame "finalValidationCommands"
    rw [hfinal] at hrel
    cases hrel
  | some value =>
    rw [hfinal] at hcommands
    have hkeeps := @keeps_object fields
      [("version", anyValue, some (.number 4)), ("title", trimmedText, some (.str plan.title)),
        ("steps", listOf stepShape, some (.arr (plan.steps.map StepDefinition.toJson))),
        ("finalValidationCommands", listOf commandShape,
          some (.arr (plan.finalValidationCommands.map ValidationCommand.toJson)))] (by simp) (by
      rw [List.forall_mem_cons, List.forall_mem_cons, List.forall_mem_cons, List.forall_mem_singleton]
      dsimp only
      rw [hversion, hsteps, hfinal]
      exact ⟨keeps_anyValue (.number 4), Reading.keepsField_text htitle,
        Reading.keeps_readEach hitems fun _ _ _ => Reading.keeps_step, keeps_finalCommands hcommands⟩)
    have hsame : Json.Same (.obj fields) plan.toJson ↔ planShape (.obj fields) := hkeeps
    rw [hsame]
    constructor
    · intro hshape
      refine ⟨hshape, fun others hothers hnone => ?_⟩
      cases hothers
      rw [hfinal] at hnone
      cases hnone
    · exact And.left

/-! ## The graph a document spells -/

/-- The text of a string. -/
def documentText : Option Json → String
  | some (.str text) => text
  | _ => ""

/-- The texts of a list of strings. -/
def documentTexts : Option Json → List String
  | some (.arr items) => items.map fun item => documentText (some item)
  | _ => []

/-- The id and the dependencies of a step as they are written. -/
def documentNode : Json → Base.Node String
  | .obj fields =>
    ⟨documentText (Json.field fields "id"), documentTexts (Json.field fields "dependencies")⟩
  | _ => ⟨"", []⟩

/-- The steps of a plan as they are written. -/
def documentSteps : Json → List Json
  | .obj fields => Reading.stepItems (Json.field fields "steps")
  | _ => []

private theorem documentText_of_rel {value : Option Json} {text : String}
    (h : Option.Rel Json.Same value (some (Json.str text))) : documentText value = text := by
  cases h with
  | some h =>
    rw [Json.same_str_iff.mp h]
    rfl

private theorem documentTexts_of_rel {value : Option Json} {texts : List String}
    (h : Option.Rel Json.Same value (some (Json.strings texts))) : documentTexts value = texts := by
  unfold Json.strings at h
  cases h with
  | some h =>
    cases h with
    | arr h =>
      rw [List.forall₂_map_right_iff] at h
      show List.map _ _ = texts
      induction h with
      | nil => rfl
      | cons hitem _ ih =>
        rw [List.map_cons, ih, Json.same_str_iff.mp hitem]
        rfl

/-- The document of a step has its id and its dependencies. -/
theorem documentNode_of_same {value : Json} {step : StepDefinition} (h : value.Same step.toJson) :
    documentNode value = step.node := by
  have hfield := step.field_toJson
  unfold StepDefinition.toJson at h
  cases h with
  | @obj fields _ h =>
    have hid : Option.Rel Json.Same (Json.field fields "id") (some (Json.str step.id)) := by
      have hrel := h "id"
      rw [hfield] at hrel
      exact hrel
    have hdependencies : Option.Rel Json.Same (Json.field fields "dependencies")
        (some (Json.strings step.dependencies)) := by
      have hrel := h "dependencies"
      rw [hfield] at hrel
      exact hrel
    rw [documentNode, documentText_of_rel hid, documentTexts_of_rel hdependencies]
    rfl

/-- The document of a plan has the plan's steps. -/
theorem documentSteps_of_same {value : Json} {plan : WorkflowPlan} (h : value.Same plan.toJson) :
    List.Forall₂ (fun item step => item.Same step.toJson) (documentSteps value) plan.steps := by
  unfold WorkflowPlan.toJson at h
  cases h with
  | @obj fields _ h =>
    have hsteps : Option.Rel Json.Same (Json.field fields "steps")
        (some (Json.arr (plan.steps.map StepDefinition.toJson))) := h "steps"
    generalize hvalue : Json.field fields "steps" = value at hsteps
    cases hsteps with
    | some hsteps =>
      cases hsteps with
      | arr hsteps =>
        rw [documentSteps, hvalue]
        exact List.forall₂_map_right_iff.mp hsteps

/-- The document of a plan spells the plan's graph. -/
theorem documentNodes_of_same {value : Json} {plan : WorkflowPlan} (h : value.Same plan.toJson) :
    (documentSteps value).map documentNode = plan.nodes := by
  have hsteps := documentSteps_of_same h
  unfold WorkflowPlan.nodes
  generalize documentSteps value = items, plan.steps = steps at hsteps
  induction hsteps with
  | nil => rfl
  | cons hitem _ ih => rw [List.map_cons, List.map_cons, documentNode_of_same hitem, ih]

/-! ## The graph a plan is read with -/

private theorem readStep_names {index : Nat} {step read : StepDefinition}
    (h : Reading.readStep index step.toJson = ⟨read, []⟩) :
    read.node = ⟨trim step.id, step.dependencies.map trim⟩ := by
  unfold Reading.readStep StepDefinition.toJson at h
  dsimp only at h
  simp only [Reading.bind_eq_clean_iff] at h
  obtain ⟨common, hcommon, h⟩ := h
  simp only [Reading.readStepCommon, Reading.bind_eq_clean_iff, Reading.pure_eq_clean_iff] at hcommon
  obtain ⟨id, hid, title, -, description, -, dependencies, hdependencies, inputs, -, outputs, -,
    profile, -, names, -, pathLocks, -, resourceLocks, -, timeoutMs, -, retry, -, rfl⟩ := hcommon
  rw [StepDefinition.field_toJson] at hid hdependencies
  have hidEq : id = trim step.id := (Reading.readNonEmptyString_str.mp hid).2
  have hdependenciesEq : dependencies = step.dependencies.map trim :=
    (Reading.readStringArray_strings.mp hdependencies).2
  split at h
  · simp only [Reading.bind_eq_clean_iff, Reading.pure_eq_clean_iff] at h
    obtain ⟨body, -, -, -, -, -, rfl⟩ := h
    rw [StepDefinition.node, hidEq, hdependenciesEq]
  · simp [Reading.bind_eq_clean_iff] at h

/-- A plan is read with the ids and dependencies of its steps trimmed. -/
theorem validateWorkflowPlan_nodes {plan read : WorkflowPlan}
    (h : validateWorkflowPlan plan.toJson = .ok read) :
    read.nodes = plan.nodes.map fun n => ⟨trim n.id, n.dependencies.map trim⟩ := by
  obtain ⟨fields, hfields, hread, -⟩ := validateWorkflowPlan_ok_iff.mp h
  obtain ⟨items, hsteps, -, hitems, -⟩ := Reading.readWorkflowPlan_clean hread
  obtain rfl := Json.obj.inj hfields
  obtain rfl : plan.steps.map StepDefinition.toJson = items :=
    Json.arr.inj (Option.some.inj hsteps)
  obtain ⟨hlength, hall⟩ := Reading.readEach_eq_clean_iff.mp hitems
  rw [List.length_map] at hlength
  apply List.ext_getElem?
  intro i
  rw [WorkflowPlan.nodes, WorkflowPlan.nodes, List.getElem?_map, List.getElem?_map,
    List.getElem?_map]
  by_cases hi : i < plan.steps.length
  · have hstep := List.getElem?_eq_getElem hi
    have hreadStep := List.getElem?_eq_getElem (hlength ▸ hi)
    have hitem := hall i _ _ (by rw [List.getElem?_map, hstep]; rfl) hreadStep
    rw [hstep, hreadStep, Option.map_some, Option.map_some, Option.map_some, readStep_names hitem]
    rfl
  · have hnone : plan.steps[i]? = none := List.getElem?_eq_none (by omega)
    have hreadNone : read.steps[i]? = none := List.getElem?_eq_none (by omega)
    rw [hnone, hreadNone]
    rfl

end BuildConductor.Domain
