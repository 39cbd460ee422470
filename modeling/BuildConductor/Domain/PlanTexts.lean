import BuildConductor.Domain.JsonText
import BuildConductor.Domain.StepsNormal
import BuildConductor.Domain.TaskPlans

/-!
# The texts of plans

The documents of plans can be written and read back, and a definition is determined by its document,
so definitions that are compared by their texts are compared as definitions.
`src/src/domain/steps.ts:222-640`, `src/src/storage/workflow-state-store.ts:286`.
-/

namespace BuildConductor.Domain

/-! ## Plans can be written -/

theorem Json.writableFields_iff {fields : List (String × Json)} :
    Json.WritableFields fields ↔ ∀ field ∈ fields, field.2.Writable := by
  induction fields with
  | nil => simp [Json.WritableFields]
  | cons field rest ih =>
    obtain ⟨name, value⟩ := field
    simp [Json.WritableFields, ih]

private theorem definedFields_sublist (properties : List (String × Option Json)) :
    ((Json.definedFields properties).map Prod.fst).Sublist (properties.map Prod.fst) := by
  unfold Json.definedFields
  induction properties with
  | nil => exact List.Sublist.refl _
  | cons property rest ih =>
    obtain ⟨name, value⟩ := property
    rw [List.filterMap_cons]
    cases value with
    | none => exact ih.cons name
    | some value => exact ih.cons_cons name

/-- An object of distinct properties can be written when its values can. -/
theorem Json.writable_definedFields {properties : List (String × Option Json)}
    (hnodup : (properties.map Prod.fst).Nodup)
    (hvalues : ∀ property ∈ properties, ∀ value, property.2 = some value → value.Writable) :
    (Json.obj (Json.definedFields properties)).Writable := by
  refine ⟨(definedFields_sublist properties).nodup hnodup, ?_⟩
  rw [Json.writableFields_iff]
  intro field hfield
  obtain ⟨property, hproperty, heq⟩ := List.mem_filterMap.mp hfield
  obtain ⟨value, hvalue, rfl⟩ := Option.map_eq_some_iff.mp heq
  exact hvalues property hproperty value hvalue

theorem Json.writable_list {α : Type} {toJson : α → Json} (h : ∀ a, (toJson a).Writable)
    (xs : List α) : (Json.arr (xs.map toJson)).Writable := by
  unfold Json.Writable
  rw [Json.writableItems_iff, List.forall_mem_map]
  exact fun a _ => h a

theorem ValidationCommand.toJson_writable (command : ValidationCommand) :
    command.toJson.Writable := by
  unfold ValidationCommand.toJson
  simp [Json.Writable, Json.WritableFields]

theorem TaskDefinition.toJson_writable (task : TaskDefinition) : task.toJson.Writable := by
  have hcommands := Json.writable_list ValidationCommand.toJson_writable task.validationCommands
  unfold TaskDefinition.toJson
  simp [Json.Writable, Json.WritableFields, Json.strings_writable] at hcommands ⊢
  exact hcommands

theorem TaskPlan.toJson_writable (plan : TaskPlan) : plan.toJson.Writable := by
  have htasks := Json.writable_list TaskDefinition.toJson_writable plan.tasks
  have hcommands := Json.writable_list ValidationCommand.toJson_writable plan.finalValidationCommands
  unfold TaskPlan.toJson
  simp [Json.Writable, Json.WritableFields] at htasks hcommands ⊢
  exact ⟨htasks, hcommands⟩

private theorem StepInputReference.toJson_writable (input : StepInputReference) :
    input.toJson.Writable := by
  unfold StepInputReference.toJson
  simp [Json.Writable, Json.WritableFields]

private theorem StepBody.properties_writable (body : StepBody) :
    ∀ property ∈ body.properties, ∀ value, property.2 = some value → value.Writable := by
  cases body with
  | investigation questions => simp [StepBody.properties, Json.Writable]
  | change acceptanceCriteria allowedPaths validationCommands =>
    have hcommands := Json.writable_list ValidationCommand.toJson_writable validationCommands
    simpa [StepBody.properties, Json.Writable] using hcommands
  | command invocation =>
    have hinvocation := ValidationCommand.toJson_writable invocation
    simpa [StepBody.properties, Json.Writable] using hinvocation
  | approval prompt => simp [StepBody.properties, Json.Writable]

theorem StepDefinition.toJson_writable (step : StepDefinition) : step.toJson.Writable := by
  apply Json.writable_definedFields step.nodup_properties
  intro property hproperty value hvalue
  rcases List.mem_append.mp hproperty with hcommon | hbody
  · have hinputs := Json.writable_list StepInputReference.toJson_writable
    have hretry : ∀ policy : StepRetryPolicy,
        (Json.obj [("maxAttempts", .number policy.maxAttempts)]).Writable := by
      intro policy
      simp [Json.Writable, Json.WritableFields]
    simp only [List.mem_cons, List.not_mem_nil, or_false] at hcommon
    rcases hcommon with rfl | rfl | rfl | rfl | rfl | rfl | rfl | rfl | rfl | rfl | rfl | rfl
    · cases hvalue
      trivial
    · cases hvalue
      trivial
    · cases hvalue
      trivial
    · cases hvalue
      exact Json.strings_writable _
    · obtain ⟨inputs, -, rfl⟩ := Option.map_eq_some_iff.mp hvalue
      exact hinputs inputs
    · obtain ⟨outputs, -, rfl⟩ := Option.map_eq_some_iff.mp hvalue
      exact Json.strings_writable _
    · obtain ⟨profile, -, rfl⟩ := Option.map_eq_some_iff.mp hvalue
      trivial
    · obtain ⟨capabilities, -, rfl⟩ := Option.map_eq_some_iff.mp hvalue
      exact Json.strings_writable _
    · obtain ⟨locks, -, rfl⟩ := Option.map_eq_some_iff.mp hvalue
      exact Json.strings_writable _
    · obtain ⟨locks, -, rfl⟩ := Option.map_eq_some_iff.mp hvalue
      exact Json.strings_writable _
    · obtain ⟨timeout, -, rfl⟩ := Option.map_eq_some_iff.mp hvalue
      trivial
    · obtain ⟨policy, -, rfl⟩ := Option.map_eq_some_iff.mp hvalue
      exact hretry policy
  · exact StepBody.properties_writable step.body property hbody value hvalue

theorem WorkflowPlan.toJson_writable (plan : WorkflowPlan) : plan.toJson.Writable := by
  have hsteps := Json.writable_list StepDefinition.toJson_writable plan.steps
  have hcommands := Json.writable_list ValidationCommand.toJson_writable plan.finalValidationCommands
  unfold WorkflowPlan.toJson WorkflowPlan.fieldsWith
  simp [Json.Writable, Json.WritableFields] at hsteps hcommands ⊢
  exact ⟨hsteps, hcommands⟩

/-! ## Texts that are compared -/

/-- A value that can be written is read back from its text. -/
theorem parseJson_written (layout : JsonLayout) {value : Json} (h : value.Writable) :
    parseJson (jsonText layout value) = some value := by
  have hread := parseJson_jsonText layout h [] nofun
  rwa [String.ofList_nil, String.append_empty] at hread

/-- Values with one text are one value. -/
theorem jsonText_inj (layout : JsonLayout) {left right : Json} (hleft : left.Writable)
    (hright : right.Writable) (h : jsonText layout left = jsonText layout right) : left = right := by
  have hread := parseJson_written layout hleft
  rw [h, parseJson_written layout hright] at hread
  exact (Option.some.inj hread).symm

private theorem strings_injective : Function.Injective Json.strings := by
  intro xs ys h
  have hitems := Json.arr.inj h
  exact List.map_injective_iff.mpr (fun _ _ => Json.str.inj) hitems

theorem ValidationCommand.toJson_injective : Function.Injective ValidationCommand.toJson := by
  intro left right h
  obtain ⟨command, args⟩ := left
  obtain ⟨command', args'⟩ := right
  unfold ValidationCommand.toJson at h
  simp only [Json.obj.injEq, List.cons.injEq, Prod.mk.injEq, true_and, and_true] at h
  rw [Json.str.inj h.1, strings_injective h.2]

private theorem commands_injective {left right : List ValidationCommand}
    (h : Json.arr (left.map ValidationCommand.toJson) =
      .arr (right.map ValidationCommand.toJson)) : left = right :=
  List.map_injective_iff.mpr ValidationCommand.toJson_injective (Json.arr.inj h)

private theorem inputs_injective :
    Function.Injective fun inputs : List StepInputReference =>
      Json.arr (inputs.map StepInputReference.toJson) := by
  intro left right h
  refine List.map_injective_iff.mpr ?_ (Json.arr.inj h)
  intro a b hab
  obtain ⟨stepId, output⟩ := a
  obtain ⟨stepId', output'⟩ := b
  unfold StepInputReference.toJson at hab
  simp only [Json.obj.injEq, List.cons.injEq, Prod.mk.injEq, true_and, and_true] at hab
  rw [Json.str.inj hab.1, Json.str.inj hab.2]

private theorem capabilityNames_injective :
    Function.Injective fun cs : List StepCapability => Json.strings (cs.map StepCapability.name) := by
  intro left right h
  refine List.map_injective_iff.mpr ?_ (strings_injective h)
  intro a b hab
  have hname := congrArg StepCapability.ofName? hab
  rwa [StepCapability.ofName?_name, StepCapability.ofName?_name, Option.some.injEq] at hname

private theorem profileName_injective :
    Function.Injective fun profile : CapabilityProfileName => Json.str profile.name := by
  intro left right h
  have hname := congrArg CapabilityProfileName.ofName? (Json.str.inj h)
  rwa [CapabilityProfileName.ofName?_name, CapabilityProfileName.ofName?_name,
    Option.some.injEq] at hname

/-- What two steps with one document have in common, property by property. -/
private theorem lookup_eq {left right : StepDefinition} (h : left.toJson = right.toJson)
    (name : String) :
    (left.properties.lookup name).join = (right.properties.lookup name).join := by
  rw [← StepDefinition.field_toJson, ← StepDefinition.field_toJson]
  exact congrArg (fun fields => Json.field fields name) (Json.obj.inj h)

private theorem common_eq {left right : StepDefinition} (h : left.toJson = right.toJson) :
    left.toStepDefinitionCommon = right.toStepDefinitionCommon := by
  obtain ⟨⟨id, title, description, dependencies, inputs, outputs, profile, capabilities, pathLocks,
    resourceLocks, timeoutMs, retry⟩, body⟩ := left
  obtain ⟨⟨id', title', description', dependencies', inputs', outputs', profile', capabilities',
    pathLocks', resourceLocks', timeoutMs', retry'⟩, body'⟩ := right
  have hid : some (Json.str id) = some (Json.str id') := lookup_eq h "id"
  have htitle : some (Json.str title) = some (Json.str title') := lookup_eq h "title"
  have hdescription : some (Json.str description) = some (Json.str description') :=
    lookup_eq h "description"
  have hdependencies : some (Json.strings dependencies) = some (Json.strings dependencies') :=
    lookup_eq h "dependencies"
  have hinputs : inputs = inputs' := Option.map_injective inputs_injective (lookup_eq h "inputs")
  have houtputs : outputs = outputs' :=
    Option.map_injective strings_injective (lookup_eq h "outputs")
  have hprofile : profile = profile' :=
    Option.map_injective profileName_injective (lookup_eq h "profile")
  have hcapabilities : capabilities = capabilities' :=
    Option.map_injective capabilityNames_injective (lookup_eq h "capabilities")
  have hpathLocks : pathLocks = pathLocks' :=
    Option.map_injective strings_injective (lookup_eq h "pathLocks")
  have hresourceLocks : resourceLocks = resourceLocks' :=
    Option.map_injective strings_injective (lookup_eq h "resourceLocks")
  have htimeoutMs : timeoutMs = timeoutMs' := by
    apply Option.map_injective _ (lookup_eq h "timeoutMs")
    intro n m hnm
    exact Int.ofNat.inj (Json.number.inj hnm)
  have hretry : retry = retry' := by
    apply Option.map_injective _ (lookup_eq h "retry")
    rintro ⟨n⟩ ⟨m⟩ hnm
    simp only [Json.obj.injEq, List.cons.injEq, Prod.mk.injEq, Json.number.injEq, true_and,
      and_true, Int.natCast_inj] at hnm
    rw [hnm]
  obtain rfl := Json.str.inj (Option.some.inj hid)
  obtain rfl := Json.str.inj (Option.some.inj htitle)
  obtain rfl := Json.str.inj (Option.some.inj hdescription)
  obtain rfl := strings_injective (Option.some.inj hdependencies)
  subst hinputs houtputs hprofile hcapabilities hpathLocks hresourceLocks htimeoutMs hretry
  rfl

private theorem body_eq {left right : StepDefinition} (h : left.toJson = right.toJson) :
    left.body = right.body := by
  obtain ⟨common, body⟩ := left
  obtain ⟨common', body'⟩ := right
  have hkind : body.kind = body'.kind := by
    have hnames : ∀ kind kind' : StepKind, kind.name = kind'.name → kind = kind' := by
      intro kind kind'
      cases kind <;> cases kind' <;> decide
    have hlookup : ∀ (common : StepDefinitionCommon) (body : StepBody),
        ((⟨common, body⟩ : StepDefinition).properties.lookup "kind").join =
          some (Json.str body.kind.name) := by
      intro common body
      cases body <;> rfl
    have hname := lookup_eq h "kind"
    rw [hlookup, hlookup] at hname
    exact hnames _ _ (Json.str.inj (Option.some.inj hname))
  cases body with
  | investigation questions =>
    cases body' with
    | investigation questions' =>
      have hquestions : some (Json.strings questions) = some (Json.strings questions') :=
        lookup_eq h "questions"
      obtain rfl := strings_injective (Option.some.inj hquestions)
      rfl
    | _ => cases hkind
  | change acceptanceCriteria allowedPaths validationCommands =>
    cases body' with
    | change acceptanceCriteria' allowedPaths' validationCommands' =>
      have hcriteria : some (Json.strings acceptanceCriteria) =
          some (Json.strings acceptanceCriteria') := lookup_eq h "acceptanceCriteria"
      have hpaths : some (Json.strings allowedPaths) = some (Json.strings allowedPaths') :=
        lookup_eq h "allowedPaths"
      have hcommands : some (Json.arr (validationCommands.map ValidationCommand.toJson)) =
          some (Json.arr (validationCommands'.map ValidationCommand.toJson)) :=
        lookup_eq h "validationCommands"
      obtain rfl := strings_injective (Option.some.inj hcriteria)
      obtain rfl := strings_injective (Option.some.inj hpaths)
      obtain rfl := commands_injective (Option.some.inj hcommands)
      rfl
    | _ => cases hkind
  | command invocation =>
    cases body' with
    | command invocation' =>
      have hinvocation : some invocation.toJson = some invocation'.toJson := lookup_eq h "command"
      obtain rfl := ValidationCommand.toJson_injective (Option.some.inj hinvocation)
      rfl
    | _ => cases hkind
  | approval prompt =>
    cases body' with
    | approval prompt' =>
      have hprompt : some (Json.str prompt) = some (Json.str prompt') := lookup_eq h "prompt"
      obtain rfl := Json.str.inj (Option.some.inj hprompt)
      rfl
    | _ => cases hkind

/-- A definition is determined by its document. -/
theorem StepDefinition.toJson_injective : Function.Injective StepDefinition.toJson := by
  intro left right h
  have hcommon := common_eq h
  have hbody := body_eq h
  obtain ⟨common, body⟩ := left
  obtain ⟨common', body'⟩ := right
  dsimp only at hcommon hbody
  rw [hcommon, hbody]

/-- Definitions with one text are one definition. -/
theorem StepDefinition.text_inj {left right : StepDefinition} :
    jsonText .compact left.toJson = jsonText .compact right.toJson ↔ left = right := by
  constructor
  · intro h
    exact StepDefinition.toJson_injective
      (jsonText_inj .compact left.toJson_writable right.toJson_writable h)
  · rintro rfl
    rfl

end BuildConductor.Domain
