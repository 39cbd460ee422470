import BuildConductor.Domain.StepsNormal

/-!
# Declarations that read back as themselves

The texts, paths, commands and steps the readers return unchanged, wherever they stand in a
document. Supports `src/src/domain/dag.ts:70-258`, `src/src/domain/steps.ts:166-480`.
-/

namespace BuildConductor.Domain

/-- A text without surrounding white space, and not empty. -/
def NormalText (s : String) : Prop := trim s = s ∧ s ≠ ""

/-- A command the reader returns unchanged. -/
structure NormalCommand (c : ValidationCommand) : Prop where
  command : NormalText c.command
  command_nul : includes c.command "\x00" = false
  args_nul : ∀ argument ∈ c.args, includes argument "\x00" = false

/-- A path the reader returns unchanged. -/
structure NormalPath (p : String) : Prop where
  text : NormalText p
  safe : isUnsafePath p = false
  canonical : isNonCanonicalPath p = false

/-- Paths a change may declare. -/
structure NormalPaths (paths : List String) : Prop where
  normal : ∀ p ∈ paths, NormalPath p
  nodup : paths.Nodup
  nonempty : paths ≠ []

/-- Declared output names. -/
structure NormalIdentifiers (names : List String) : Prop where
  text : ∀ name ∈ names, NormalText name
  pattern : ∀ name ∈ names, matchesIdPattern name = true
  nodup : names.Nodup

/-- The body of an investigation or of a change that reads back as itself. -/
def NormalBody : StepBody → Prop
  | .investigation questions => questions ≠ [] ∧ ∀ question ∈ questions, NormalText question
  | .change acceptanceCriteria allowedPaths validationCommands =>
    (∀ criterion ∈ acceptanceCriteria, NormalText criterion) ∧ NormalPaths allowedPaths ∧
      validationCommands ≠ [] ∧ ∀ c ∈ validationCommands, NormalCommand c
  | _ => False

/-- A step without locks, timeout or retry budget, as plans generate them, that reads back as
itself. -/
structure PlainStep (step : StepDefinition) : Prop where
  id : NormalText step.id
  title : NormalText step.title
  description : NormalText step.description
  dependencies : ∀ d ∈ step.dependencies, NormalText d
  inputs : ∀ inputs, step.inputs = some inputs →
    ∀ input ∈ inputs, NormalText input.stepId ∧ NormalText input.output
  outputs : ∀ outputs, step.outputs = some outputs → NormalIdentifiers outputs
  profile : ∀ profile, step.profile = some profile → profile ∈ step.kind.profiles
  capabilities : ∀ capabilities, step.capabilities = some capabilities →
    ∀ capability ∈ capabilities, capability ∈ step.kind.capabilityMaxima
  pathLocks : step.pathLocks = none
  resourceLocks : step.resourceLocks = none
  timeoutMs : step.timeoutMs = none
  retry : step.retry = none
  body : NormalBody step.body

theorem normalText_of_matchesIdPattern {s : String} (h : matchesIdPattern s = true)
    (htrim : trim s = s) : NormalText s :=
  ⟨htrim, ne_empty_of_matchesIdPattern h⟩

/-- A text between visible characters is normal. -/
theorem normalText_of_visible {s : String} (hstart : startsVisible s = true)
    (hend : endsVisible s = true) : NormalText s :=
  ⟨trim_of_visible hstart hend, ne_empty_of_startsVisible hstart⟩

/-- The distinct elements of a list, in the order they first occur, are distinct. -/
theorem nodup_eraseDups (xs : List String) : xs.eraseDups.Nodup := by
  induction hlength : xs.length using Nat.strongRecOn generalizing xs with
  | ind n ih =>
    cases xs with
    | nil => exact List.nodup_nil
    | cons x rest =>
      rw [List.eraseDups_cons, List.nodup_cons]
      have hshort := List.length_filter_le (fun b => !b == x) rest
      refine ⟨?_, ih _ (by rw [← hlength, List.length_cons]; omega) _ rfl⟩
      rw [List.mem_eraseDups, List.mem_filter]
      rintro ⟨-, hne⟩
      simp at hne

namespace Reading

theorem readNonEmptyString_str_iff {s path : String} :
    readNonEmptyString (some (.str s)) path = ⟨s, []⟩ ↔ NormalText s := by
  unfold readNonEmptyString NormalText
  dsimp only
  split
  · next hempty =>
    constructor
    · intro h
      simp [bind_eq_clean_iff] at h
    · rintro ⟨htrim, hne⟩
      rw [hempty] at htrim
      exact absurd htrim.symm hne
  · next hne =>
    rw [pure_eq_clean_iff]
    constructor
    · intro htrim
      rw [htrim] at hne
      exact ⟨htrim, hne⟩
    · exact fun h => h.1

/-- A string read without issue is normal. -/
theorem normalText_of_read {value : Option Json} {path s : String}
    (h : readNonEmptyString value path = ⟨s, []⟩) : NormalText s :=
  readNonEmptyString_str_iff.mp (readNonEmptyString_again h path).1

/-- Encoded values read back exactly when each of them does, at its own place. -/
theorem readEach_encoded_iff {α β : Type} {read : Nat → α → Reading β} {encode : β → α}
    {normal : β → Prop} {values : List β}
    (h : ∀ index value, read index (encode value) = ⟨value, []⟩ ↔ normal value) (index : Nat) :
    readEach read index (values.map encode) = ⟨values, []⟩ ↔ ∀ value ∈ values, normal value := by
  rw [readEach_eq_clean_iff]
  constructor
  · rintro ⟨-, hall⟩ value hvalue
    obtain ⟨i, hi⟩ := List.mem_iff_getElem?.mp hvalue
    exact (h _ value).mp (hall i (encode value) value (by rw [List.getElem?_map, hi]; rfl) hi)
  · intro hall
    refine ⟨List.length_map _, ?_⟩
    intro i a b ha hb
    rw [List.getElem?_map, hb, Option.map_some, Option.some.injEq] at ha
    rw [← ha]
    exact (h _ b).mpr (hall b (List.mem_of_getElem? hb))

theorem readStringArray_strings_iff {xs : List String} {path : String} :
    readStringArray (some (Json.strings xs)) path = ⟨xs, []⟩ ↔ ∀ x ∈ xs, NormalText x :=
  readEach_encoded_iff (fun _ _ => readNonEmptyString_str_iff) 0

/-- Strings read without issue are normal. -/
theorem normalTexts_of_read {value : Option Json} {path : String} {xs : List String}
    (h : readStringArray value path = ⟨xs, []⟩) : ∀ x ∈ xs, NormalText x :=
  readStringArray_strings_iff.mp (readStringArray_again h).1

private theorem checkRepositoryPath_clean_iff {path p : String} {index : Nat} :
    checkRepositoryPath path index p = ⟨(), []⟩ ↔
      isUnsafePath p = false ∧ isNonCanonicalPath p = false := by
  unfold checkRepositoryPath
  dsimp only
  split
  · next hnotSafe => simp [hnotSafe]
  · next hsafe =>
    rw [issueIf_eq_clean_iff, Bool.not_eq_true]
    rw [Bool.not_eq_true] at hsafe
    exact ⟨fun h => ⟨hsafe, h⟩, fun h => h.2⟩

theorem readSafeRepositoryPaths_strings_iff {paths : List String} {path : String} :
    readSafeRepositoryPaths (some (Json.strings paths)) path = ⟨paths, []⟩ ↔
      (∀ p ∈ paths, NormalPath p) ∧ paths.Nodup := by
  unfold readSafeRepositoryPaths
  simp only [bind_eq_clean_iff, pure_eq_clean_iff, issueIf_eq_clean_iff, not_not]
  constructor
  · rintro ⟨xs, hread, _, hcheck, -, hnodup, rfl⟩
    rw [readStringArray_strings_iff] at hread
    refine ⟨?_, hnodup⟩
    intro p hp
    obtain ⟨i, hi⟩ := List.mem_iff_getElem?.mp hp
    have hclean := checkRepositoryPath_clean_iff.mp (checkEach_eq_clean_iff.mp hcheck i p hi)
    exact ⟨hread p hp, hclean.1, hclean.2⟩
  · rintro ⟨hnormal, hnodup⟩
    refine ⟨paths, readStringArray_strings_iff.mpr fun p hp => (hnormal p hp).text, (), ?_, (),
      hnodup, rfl⟩
    rw [checkEach_eq_clean_iff]
    intro i p hi
    have hp := hnormal p (List.mem_of_getElem? hi)
    exact checkRepositoryPath_clean_iff.mpr ⟨hp.safe, hp.canonical⟩

theorem readAllowedPaths_strings_iff {paths : List String} {path : String} :
    readAllowedPaths (some (Json.strings paths)) path = ⟨paths, []⟩ ↔ NormalPaths paths := by
  unfold readAllowedPaths
  simp only [bind_eq_clean_iff, pure_eq_clean_iff, issueIf_eq_clean_iff]
  constructor
  · rintro ⟨read, hread, -, hne, rfl⟩
    obtain ⟨hnormal, hnodup⟩ := readSafeRepositoryPaths_strings_iff.mp hread
    exact ⟨hnormal, hnodup, hne⟩
  · rintro ⟨hnormal, hnodup, hne⟩
    exact ⟨paths, readSafeRepositoryPaths_strings_iff.mpr ⟨hnormal, hnodup⟩, (), hne, rfl⟩

/-- Allowed paths read without issue are normal. -/
theorem normalPaths_of_read {value : Option Json} {path : String} {paths : List String}
    (h : readAllowedPaths value path = ⟨paths, []⟩) : NormalPaths paths :=
  readAllowedPaths_strings_iff.mp (readAllowedPaths_again h)

private theorem readCommandArgument_str_iff {path argument : String} {index : Nat} :
    readCommandArgument path index (.str argument) = ⟨argument, []⟩ ↔
      includes argument "\x00" = false := by
  unfold readCommandArgument
  simp only [bind_eq_clean_iff, pure_eq_clean_iff, issueIf_eq_clean_iff, Bool.not_eq_true]
  simp

theorem readCommandObject_toJson_iff {c : ValidationCommand} {path : String} :
    readCommandObject (some c.toJson) path = ⟨c, []⟩ ↔ NormalCommand c := by
  have hargs : readEach (readCommandArgument path) 0 (c.args.map Json.str) = ⟨c.args, []⟩ ↔
      ∀ argument ∈ c.args, includes argument "\x00" = false :=
    readEach_encoded_iff (fun _ _ => readCommandArgument_str_iff) 0
  have hfields : Json.field [("command", Json.str c.command), ("args", Json.strings c.args)] "args" =
      some (.arr (c.args.map Json.str)) := rfl
  simp only [readCommandObject, ValidationCommand.toJson, hfields, bind_eq_clean_iff,
    pure_eq_clean_iff, issueIf_eq_clean_iff, Bool.not_eq_true]
  constructor
  · rintro ⟨command, hcommand, -, hnul, args, hread, hc⟩
    cases hc
    exact ⟨readNonEmptyString_str_iff.mp hcommand, hnul, hargs.mp hread⟩
  · rintro ⟨hcommand, hnul, hread⟩
    exact ⟨c.command, readNonEmptyString_str_iff.mpr hcommand, (), hnul, c.args, hargs.mpr hread, rfl⟩

theorem readValidationCommands_toJson_iff {cs : List ValidationCommand} {path : String} :
    readValidationCommands (some (.arr (cs.map ValidationCommand.toJson))) path = ⟨cs, []⟩ ↔
      cs ≠ [] ∧ ∀ c ∈ cs, NormalCommand c := by
  cases cs with
  | nil => simp [readValidationCommands, bind_eq_clean_iff]
  | cons c rest =>
    have hread := @readEach_encoded_iff _ _
      (fun index entry => readCommandObject (some entry) s!"{path}[{index}]")
      ValidationCommand.toJson NormalCommand (c :: rest)
      (fun _ _ => readCommandObject_toJson_iff) 0
    constructor
    · exact fun h => ⟨List.cons_ne_nil _ _, hread.mp h⟩
    · exact fun h => hread.mpr h.2

/-- Commands read without issue are normal. -/
theorem normalCommands_of_read {value : Option Json} {path : String} {cs : List ValidationCommand}
    (h : readValidationCommands value path = ⟨cs, []⟩) : cs ≠ [] ∧ ∀ c ∈ cs, NormalCommand c :=
  readValidationCommands_toJson_iff.mp (readValidationCommands_again h).1

private theorem readNamedIdentifiers_of_normal {names : List String} (h : NormalIdentifiers names)
    (path formatCode duplicateCode : String) :
    readNamedIdentifiers (Json.strings names) path formatCode duplicateCode = ⟨names, []⟩ := by
  unfold readNamedIdentifiers
  simp only [bind_eq_clean_iff, pure_eq_clean_iff, issueIf_eq_clean_iff, not_not]
  refine ⟨names, readStringArray_strings_iff.mpr h.text, (), ?_, (), h.nodup, rfl⟩
  rw [checkEach_eq_clean_iff]
  intro i name hi
  rw [issueIf_eq_clean_iff, h.pattern name (List.mem_of_getElem? hi)]
  simp

private theorem readInputs_of_normal {inputs : List StepInputReference}
    (h : ∀ input ∈ inputs, NormalText input.stepId ∧ NormalText input.output) (path : String) :
    readInputs (.arr (inputs.map StepInputReference.toJson)) path = ⟨inputs, []⟩ := by
  have hinput : ∀ index (input : StepInputReference),
      readInput path index input.toJson = ⟨input, []⟩ ↔
        NormalText input.stepId ∧ NormalText input.output := by
    intro index input
    have hstep : Json.field [("stepId", Json.str input.stepId), ("output", Json.str input.output)]
        "stepId" = some (.str input.stepId) := rfl
    have houtput : Json.field [("stepId", Json.str input.stepId), ("output", Json.str input.output)]
        "output" = some (.str input.output) := rfl
    simp only [readInput, StepInputReference.toJson, bind_eq_clean_iff, pure_eq_clean_iff, hstep,
      houtput]
    constructor
    · rintro ⟨stepId, hstepId, output, hread, hinput⟩
      cases hinput
      exact ⟨readNonEmptyString_str_iff.mp hstepId, readNonEmptyString_str_iff.mp hread⟩
    · rintro ⟨hstepId, hread⟩
      exact ⟨input.stepId, readNonEmptyString_str_iff.mpr hstepId, input.output,
        readNonEmptyString_str_iff.mpr hread, rfl⟩
  exact (readEach_encoded_iff hinput 0).mpr h

private theorem readCapabilityNames_of_names (capabilities : List StepCapability) (path : String) :
    readCapabilityNames (Json.strings (capabilities.map StepCapability.name)) path =
      ⟨capabilities.map StepCapability.name, []⟩ := by
  have hname : ∀ c : StepCapability, NormalText c.name := by
    intro c
    cases c <;> exact ⟨by decide +kernel, by decide⟩
  unfold readCapabilityNames
  simp only [bind_eq_clean_iff, pure_eq_clean_iff]
  refine ⟨_, readStringArray_strings_iff.mpr ?_, (), ?_, rfl⟩
  · intro name hmem
    obtain ⟨c, -, rfl⟩ := List.mem_map.mp hmem
    exact hname c
  · rw [checkEach_eq_clean_iff]
    intro i name hi
    obtain ⟨c, -, rfl⟩ := List.mem_map.mp (List.mem_of_getElem? hi)
    rw [issueIf_eq_clean_iff, StepCapability.ofName?_name]
    simp

private theorem readDeclared_map {α : Type} {value : Option α} {encode : α → Json}
    {read : Json → Reading (Option α)}
    (h : ∀ a, value = some a → read (encode a) = ⟨some a, []⟩) :
    readDeclared (value.map encode) read = ⟨value, []⟩ := by
  cases value with
  | none => rfl
  | some a => exact h a rfl

private theorem always_clean {α : Type} {reading : Reading α} {a : α} (h : reading = ⟨a, []⟩) :
    always reading = ⟨some a, []⟩ := by
  rw [h]
  rfl

private theorem readStepBody_of_normal {step : StepDefinition} (h : NormalBody step.body)
    (path : String) : readStepBody step.kind (Json.definedFields step.properties) path =
        ⟨step.body, []⟩ ∧
      stepKind? (Json.field (Json.definedFields step.properties) "kind") = some step.kind := by
  have hfield := StepDefinition.field_toJson step
  obtain ⟨common, body⟩ := step
  cases body with
  | investigation questions =>
    obtain ⟨hne, hnormal⟩ := h
    refine ⟨?_, by rw [hfield]; rfl⟩
    simp only [StepDefinition.kind, StepBody.kind, readStepBody, hfield, readQuestions,
      bind_eq_clean_iff, pure_eq_clean_iff, issueIf_eq_clean_iff]
    exact ⟨questions, ⟨questions, readStringArray_strings_iff.mpr hnormal, (), hne, rfl⟩, rfl⟩
  | change acceptanceCriteria allowedPaths validationCommands =>
    obtain ⟨hcriteria, hpaths, hne, hcommands⟩ := h
    refine ⟨?_, by rw [hfield]; rfl⟩
    simp only [StepDefinition.kind, StepBody.kind, readStepBody, hfield, bind_eq_clean_iff,
      pure_eq_clean_iff]
    exact ⟨acceptanceCriteria, readStringArray_strings_iff.mpr hcriteria, allowedPaths,
      readAllowedPaths_strings_iff.mpr hpaths, validationCommands,
      readValidationCommands_toJson_iff.mpr ⟨hne, hcommands⟩, rfl⟩
  | command _ => cases h
  | approval _ => cases h

/-- A plain step reads back as itself wherever it stands. -/
theorem readStep_of_plain {step : StepDefinition} (h : PlainStep step) (index : Nat) :
    readStep index step.toJson = ⟨step, []⟩ := by
  obtain ⟨hbody, hkind⟩ := readStepBody_of_normal h.body s!"steps[{index}]"
  have hfield := StepDefinition.field_toJson step
  have hcommon : readStepCommon (Json.definedFields step.properties) s!"steps[{index}]" =
      ⟨⟨step.toStepDefinitionCommon, step.capabilities.map (·.map StepCapability.name)⟩, []⟩ := by
    unfold readStepCommon
    simp only [hfield, bind_eq_clean_iff, pure_eq_clean_iff]
    refine ⟨step.id, readNonEmptyString_str_iff.mpr h.id, step.title,
      readNonEmptyString_str_iff.mpr h.title, step.description,
      readNonEmptyString_str_iff.mpr h.description, step.dependencies,
      readStringArray_strings_iff.mpr h.dependencies, step.inputs, ?_, step.outputs, ?_,
      step.profile, ?_, step.capabilities.map (·.map StepCapability.name), ?_, step.pathLocks, ?_,
      step.resourceLocks, ?_, step.timeoutMs, ?_, step.retry, ?_, ?_⟩
    · exact readDeclared_map fun inputs hinputs =>
        always_clean (readInputs_of_normal (h.inputs inputs hinputs) _)
    · exact readDeclared_map fun outputs houtputs =>
        always_clean (readNamedIdentifiers_of_normal (h.outputs outputs houtputs) _ _ _)
    · apply readDeclared_map
      intro profile _
      simp [readProfile]
    · cases hcapabilities : step.capabilities with
      | none =>
        show readDeclared (step.capabilities.map _) _ = _
        rw [hcapabilities]
        rfl
      | some capabilities =>
        show readDeclared (step.capabilities.map _) _ = _
        rw [hcapabilities]
        exact always_clean (readCapabilityNames_of_names capabilities _)
    · show readDeclared (step.pathLocks.map _) _ = _
      rw [h.pathLocks]
      rfl
    · show readDeclared (step.resourceLocks.map _) _ = _
      rw [h.resourceLocks]
      rfl
    · show readDeclared (step.timeoutMs.map _) _ = _
      rw [h.timeoutMs]
      rfl
    · show readDeclared (step.retry.map _) _ = _
      rw [h.retry]
      rfl
    · have hnames : (step.capabilities.map (·.map StepCapability.name)).map
          (fun names => names.filterMap StepCapability.ofName?) = step.capabilities := by
        cases step.capabilities with
        | none => rfl
        | some capabilities =>
          rw [Option.map_some, Option.map_some, List.filterMap_map, Option.some.injEq]
          simp only [Function.comp_def, StepCapability.ofName?_name, List.filterMap_some]
      rw [hnames]
  simp only [readStep, StepDefinition.toJson, bind_eq_clean_iff]
  refine ⟨_, hcommon, ?_⟩
  rw [hkind]
  simp only [bind_eq_clean_iff, pure_eq_clean_iff]
  refine ⟨step.body, hbody, (), ?_, (), ?_, rfl⟩
  · unfold checkStepProfile
    cases hprofile : step.profile with
    | none => rfl
    | some profile =>
      dsimp only
      rw [issueIf_eq_clean_iff, not_not]
      exact h.profile profile hprofile
  · unfold checkStepCapabilities
    rw [checkEach_eq_clean_iff]
    intro i name hi
    cases hcapabilities : step.capabilities with
    | none =>
      rw [hcapabilities] at hi
      cases hi
    | some capabilities =>
      rw [hcapabilities] at hi
      obtain ⟨capability, hmem, rfl⟩ := List.mem_map.mp (List.mem_of_getElem? hi)
      rw [issueIf_eq_clean_iff]
      rintro ⟨-, hexceeds⟩
      exact hexceeds (List.mem_map_of_mem (h.capabilities capabilities hcapabilities capability hmem))

/-- Final validation commands read without issue are normal, and those of a plan with a change
exist. -/
theorem normalCommands_of_readFinal {hasChangeStep : Bool} {value : Option Json}
    {cs : List ValidationCommand}
    (h : readFinalValidationCommands hasChangeStep value = ⟨cs, []⟩) :
    (hasChangeStep = true → cs ≠ []) ∧ ∀ c ∈ cs, NormalCommand c := by
  unfold readFinalValidationCommands at h
  split at h
  · split at h
    · obtain ⟨hne, hnormal⟩ := normalCommands_of_read h
      exact ⟨fun _ => hne, hnormal⟩
    · simp [bind_eq_clean_iff] at h
  · next hchange =>
    refine ⟨fun hyes => absurd hyes hchange, ?_⟩
    split at h
    · rw [pure_eq_clean_iff] at h
      rw [← h]
      exact fun c hc => by cases hc
    · rw [pure_eq_clean_iff] at h
      rw [← h]
      exact fun c hc => by cases hc
    · exact (normalCommands_of_read h).2
    · simp [bind_eq_clean_iff] at h

end Reading

/-! ## Plans of plain steps -/

/-- A plan of plain steps is accepted as it is, exactly when its graph is. -/
theorem validateWorkflowPlan_plain_iff {plan read : WorkflowPlan}
    (hsteps : ∀ step ∈ plan.steps, PlainStep step) (htitle : NormalText plan.title)
    (hne : plan.finalValidationCommands ≠ [])
    (hcommands : ∀ c ∈ plan.finalValidationCommands, NormalCommand c) :
    validateWorkflowPlan plan.toJson = .ok read ↔
      read = plan ∧ Reading.CleanPlan plan ∧ findCycle plan.nodes = none := by
  have heach : Reading.readEach Reading.readStep 0 (plan.steps.map StepDefinition.toJson) =
      ⟨plan.steps, []⟩ := by
    rw [Reading.readEach_eq_clean_iff]
    refine ⟨List.length_map _, ?_⟩
    intro i a b ha hb
    rw [List.getElem?_map, hb, Option.map_some, Option.some.injEq] at ha
    rw [← ha]
    exact Reading.readStep_of_plain (hsteps b (List.mem_of_getElem? hb)) _
  have hfinal : ∀ hasChangeStep, Reading.readFinalValidationCommands hasChangeStep
      (some (.arr (plan.finalValidationCommands.map ValidationCommand.toJson))) =
        ⟨plan.finalValidationCommands, []⟩ := by
    intro hasChangeStep
    have hread := (@Reading.readValidationCommands_toJson_iff _ "finalValidationCommands").mpr
      ⟨hne, hcommands⟩
    cases hall : plan.finalValidationCommands with
    | nil => exact absurd hall hne
    | cons c rest =>
      rw [hall] at hread
      cases hasChangeStep <;> exact hread
  rw [validateWorkflowPlan_ok_iff]
  constructor
  · rintro ⟨fields, hfields, hread, hcycle⟩
    cases hfields
    obtain ⟨items, hitems, -, hreadSteps, hreadTitle, hreadFinal, -, hclean⟩ :=
      Reading.readWorkflowPlan_clean hread
    cases hitems
    have hsame : read = plan := by
      have hstepsEq : plan.steps = read.steps :=
        congrArg Reading.value (heach.symm.trans hreadSteps)
      have htitleEq : plan.title = read.title :=
        congrArg Reading.value
          (((@Reading.readNonEmptyString_str_iff _ "title").mpr htitle).symm.trans hreadTitle)
      have hfinalEq : plan.finalValidationCommands = read.finalValidationCommands :=
        congrArg Reading.value ((hfinal _).symm.trans hreadFinal)
      cases plan
      cases read
      simp only at hstepsEq htitleEq hfinalEq
      rw [hstepsEq, htitleEq, hfinalEq]
    rw [hsame] at hclean hcycle
    exact ⟨hsame, hclean, hcycle⟩
  · rintro ⟨rfl, hclean, hcycle⟩
    refine ⟨_, rfl, ?_, hcycle⟩
    apply @Reading.readWorkflowPlan_of_clean _ read (read.steps.map StepDefinition.toJson) rfl
    · rw [Ne, List.map_eq_nil_iff]
      exact hclean.nonempty
    · exact heach
    · exact Reading.readNonEmptyString_str_iff.mpr htitle
    · exact hfinal _
    · rfl
    · exact hclean

end BuildConductor.Domain
