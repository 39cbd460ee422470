import BuildConductor.Domain.Steps
import BuildConductor.Domain.DagOrder

/-!
# Validated plans

What acceptance of a plan document establishes: the declared steps form a well-formed
acyclic graph with identifier-shaped ids, and the plan is a normal form, so validating
it again gives the same plan.
-/

namespace BuildConductor.Domain

open Base (Node)

/-! ## Plans as documents -/

/-- An input reference as a document. -/
def StepInputReference.toJson (input : StepInputReference) : Json :=
  .obj [("stepId", .str input.stepId), ("output", .str input.output)]

/-- The properties of one kind. -/
def StepBody.properties : StepBody → List (String × Option Json)
  | .investigation questions =>
    [("kind", some (.str "investigation")), ("questions", some (Json.strings questions))]
  | .change acceptanceCriteria allowedPaths validationCommands =>
    [("kind", some (.str "change")),
     ("acceptanceCriteria", some (Json.strings acceptanceCriteria)),
     ("allowedPaths", some (Json.strings allowedPaths)),
     ("validationCommands", some (.arr (validationCommands.map ValidationCommand.toJson)))]
  | .command invocation =>
    [("kind", some (.str "command")), ("command", some invocation.toJson)]
  | .approval prompt =>
    [("kind", some (.str "approval")), ("prompt", some (.str prompt))]

/-- The properties of a step, in the order the reader writes them. -/
def StepDefinition.properties (step : StepDefinition) : List (String × Option Json) :=
  [("id", some (.str step.id)),
   ("title", some (.str step.title)),
   ("description", some (.str step.description)),
   ("dependencies", some (Json.strings step.dependencies)),
   ("inputs", step.inputs.map fun inputs => .arr (inputs.map StepInputReference.toJson)),
   ("outputs", step.outputs.map Json.strings),
   ("profile", step.profile.map fun profile => .str profile.name),
   ("capabilities", step.capabilities.map fun cs => Json.strings (cs.map StepCapability.name)),
   ("pathLocks", step.pathLocks.map Json.strings),
   ("resourceLocks", step.resourceLocks.map Json.strings),
   ("timeoutMs", step.timeoutMs.map fun n : Nat => .number (n : Int)),
   ("retry", step.retry.map fun policy => .obj [("maxAttempts", .number policy.maxAttempts)])] ++
  step.body.properties

/-- A step as a document. -/
def StepDefinition.toJson (step : StepDefinition) : Json :=
  .obj (Json.definedFields step.properties)

/-- The fields of a plan document with the given steps. -/
def WorkflowPlan.fieldsWith (plan : WorkflowPlan) (steps : List Json) : List (String × Json) :=
  [("version", .number 4), ("title", .str plan.title), ("steps", .arr steps),
   ("finalValidationCommands", .arr (plan.finalValidationCommands.map ValidationCommand.toJson))]

/-- A plan as a document. -/
def WorkflowPlan.toJson (plan : WorkflowPlan) : Json :=
  .obj (plan.fieldsWith (plan.steps.map StepDefinition.toJson))

theorem StepDefinition.nodup_properties (step : StepDefinition) :
    (step.properties.map Prod.fst).Nodup := by
  obtain ⟨common, body⟩ := step
  cases body <;>
    (simp only [properties, StepBody.properties, List.map_append, List.map_cons, List.map_nil]
     decide)

/-- A property of a step document is the one the step holds. -/
theorem StepDefinition.field_toJson (step : StepDefinition) (name : String) :
    Json.field (Json.definedFields step.properties) name = (step.properties.lookup name).join :=
  Json.field_definedFields step.nodup_properties name

namespace Reading

/-! ## Reading again -/

private theorem readDeclared_again {α : Type} {value : Option Json}
    {read : Json → Reading (Option α)} {o : Option α} {encode : α → Json}
    (h : readDeclared value read = ⟨o, []⟩)
    (hread : ∀ v o, read v = ⟨o, []⟩ → ∃ a, o = some a ∧ read (encode a) = ⟨some a, []⟩) :
    readDeclared (o.map encode) read = ⟨o, []⟩ := by
  cases value with
  | none =>
    have ho : none = o := by simpa [readDeclared] using h
    subst ho
    rfl
  | some v =>
    obtain ⟨a, rfl, ha⟩ := hread v o h
    exact ha

/-- A declaration that is read without issue has the value read. -/
theorem always_eq_clean_iff {α : Type} {reading : Reading α} {o : Option α} :
    always reading = ⟨o, []⟩ ↔ ∃ a, reading = ⟨a, []⟩ ∧ some a = o := by
  simp [always, bind_eq_clean_iff]

private theorem readDeclared_always_again {α : Type} {value : Option Json}
    {read : Json → Reading α} {o : Option α} {encode : α → Json}
    (h : readDeclared value (fun v => always (read v)) = ⟨o, []⟩)
    (hread : ∀ v a, read v = ⟨a, []⟩ → read (encode a) = ⟨a, []⟩) :
    readDeclared (o.map encode) (fun v => always (read v)) = ⟨o, []⟩ := by
  apply readDeclared_again h
  intro v o hv
  obtain ⟨a, ha, rfl⟩ := always_eq_clean_iff.mp hv
  exact ⟨a, rfl, always_eq_clean_iff.mpr ⟨a, hread v a ha, rfl⟩⟩

private theorem readInput_again {path : String} {index : Nat} {item : Json}
    {input : StepInputReference} (h : readInput path index item = ⟨input, []⟩) :
    readInput path index input.toJson = ⟨input, []⟩ := by
  unfold readInput at h
  split at h
  · simp only [bind_eq_clean_iff, pure_eq_clean_iff] at h
    obtain ⟨stepId, hstep, output, houtput, rfl⟩ := h
    simp only [readInput, StepInputReference.toJson, bind_eq_clean_iff, pure_eq_clean_iff]
    exact ⟨stepId, (readNonEmptyString_again hstep _).1, output,
      (readNonEmptyString_again houtput _).1, rfl⟩
  · simp [bind_eq_clean_iff] at h

private theorem readInputs_again {value : Json} {path : String} {inputs : List StepInputReference}
    (h : readInputs value path = ⟨inputs, []⟩) :
    readInputs (.arr (inputs.map StepInputReference.toJson)) path = ⟨inputs, []⟩ := by
  unfold readInputs at h
  split at h
  · exact readEach_again h fun _ _ _ => readInput_again
  · simp [bind_eq_clean_iff] at h

private theorem readNamedIdentifiers_again {value : Json} {path formatCode duplicateCode : String}
    {names : List String} (h : readNamedIdentifiers value path formatCode duplicateCode = ⟨names, []⟩) :
    readNamedIdentifiers (Json.strings names) path formatCode duplicateCode = ⟨names, []⟩ := by
  unfold readNamedIdentifiers at h ⊢
  simp only [bind_eq_clean_iff, pure_eq_clean_iff] at h ⊢
  obtain ⟨xs, hread, u, hcheck, u', hdup, rfl⟩ := h
  exact ⟨xs, readStringArray_again hread |>.1, u, hcheck, u', hdup, rfl⟩

private theorem readProfile_again {value : Json} {path : String}
    {o : Option CapabilityProfileName} (h : readProfile value path = ⟨o, []⟩) :
    ∃ profile, o = some profile ∧
      readProfile (.str profile.name) path = ⟨some profile, []⟩ := by
  unfold readProfile at h
  split at h
  · split at h
    · next profile _ =>
      rw [pure_eq_clean_iff] at h
      exact ⟨profile, h.symm, by simp [readProfile]⟩
    · simp [bind_eq_clean_iff] at h
  · simp [bind_eq_clean_iff] at h

/-- Capability names read without issue read back as themselves, and each names a capability. -/
theorem readCapabilityNames_again {value : Json} {path : String} {names : List String}
    (h : readCapabilityNames value path = ⟨names, []⟩) :
    readCapabilityNames (Json.strings names) path = ⟨names, []⟩ ∧
      (names.filterMap StepCapability.ofName?).map StepCapability.name = names := by
  unfold readCapabilityNames at h ⊢
  simp only [bind_eq_clean_iff, pure_eq_clean_iff] at h ⊢
  obtain ⟨xs, hread, u, hcheck, rfl⟩ := h
  obtain ⟨hagain, hne⟩ := readStringArray_again hread
  refine ⟨⟨xs, hagain, u, hcheck, rfl⟩, ?_⟩
  have hknown : ∀ x ∈ xs, ∃ c, StepCapability.ofName? x = some c := by
    intro x hx
    obtain ⟨i, hi⟩ := List.mem_iff_getElem?.mp hx
    have hitem := checkEach_eq_clean_iff.mp hcheck i x hi
    rw [issueIf_eq_clean_iff] at hitem
    exact Option.ne_none_iff_exists'.mp fun hnone => hitem ⟨hne x hx, hnone⟩
  clear hread hcheck hagain hne
  induction xs with
  | nil => rfl
  | cons x rest ih =>
    obtain ⟨c, hc⟩ := hknown x (List.mem_cons_self ..)
    rw [List.filterMap_cons_some hc, List.map_cons, StepCapability.name_of_ofName? hc,
      ih fun y hy => hknown y (List.mem_cons_of_mem _ hy)]

private theorem readTimeoutMs_again {value : Json} {path : String} {o : Option Nat}
    (h : readTimeoutMs value path = ⟨o, []⟩) :
    ∃ n, o = some n ∧ readTimeoutMs (.number n) path = ⟨some n, []⟩ := by
  unfold readTimeoutMs at h
  split at h
  · next n hn =>
    split at h
    · simp [bind_eq_clean_iff] at h
    · next hpos =>
      rw [pure_eq_clean_iff] at h
      refine ⟨n.toNat, h.symm, ?_⟩
      have hsafe : n.natAbs ≤ maxSafeInteger := by
        unfold safeInteger? at hn
        split at hn
        · split at hn
          · cases hn
            assumption
          · cases hn
        · cases hn
      have hnat : ((n.toNat : Int)).natAbs ≤ maxSafeInteger := by omega
      have hread : safeInteger? (some (.number (n.toNat : Int))) = some (n.toNat : Int) := by
        simp only [safeInteger?, if_pos hnat]
      simp only [readTimeoutMs, hread]
      rw [if_neg (by omega), Int.toNat_natCast, pure_eq_clean_iff]
  · simp [bind_eq_clean_iff] at h

private theorem readRetry_again {value : Json} {path : String} {o : Option StepRetryPolicy}
    (h : readRetry value path = ⟨o, []⟩) :
    ∃ policy, o = some policy ∧
      readRetry (.obj [("maxAttempts", .number (policy.maxAttempts : Int))]) path =
        ⟨some policy, []⟩ := by
  unfold readRetry at h
  split at h
  · next budget hbudget =>
    rw [pure_eq_clean_iff] at h
    refine ⟨⟨budget⟩, h.symm, ?_⟩
    have hrange : 1 ≤ budget ∧ budget ≤ maxStepRetryAttempts := by
      unfold retryBudget? at hbudget
      split at hbudget
      · split at hbudget
        · split at hbudget
          · cases hbudget
            omega
          · cases hbudget
        · cases hbudget
      · cases hbudget
    have hsafe : ((budget : Int)).natAbs ≤ maxSafeInteger := by
      have : maxStepRetryAttempts ≤ maxSafeInteger := by decide
      omega
    have hread : retryBudget? (.obj [("maxAttempts", .number (budget : Int))]) = some budget := by
      simp only [retryBudget?, Json.field, List.lookup_cons_self, safeInteger?, if_pos hsafe]
      rw [if_pos (by omega), Int.toNat_natCast]
    simp only [readRetry, hread, pure_eq_clean_iff]
  · simp [bind_eq_clean_iff] at h

private theorem readStepCommon_again {fields : List (String × Json)} {path : String}
    {c : CommonReading} (h : readStepCommon fields path = ⟨c, []⟩) (body : StepBody) :
    readStepCommon (Json.definedFields
      (StepDefinition.properties { c.common with body })) path = ⟨c, []⟩ := by
  have hfield := StepDefinition.field_toJson { c.common with body }
  unfold readStepCommon at h ⊢
  simp only [bind_eq_clean_iff, pure_eq_clean_iff] at h
  obtain ⟨id, hid, title, htitle, description, hdescription, dependencies, hdependencies,
    inputs, hinputs, outputs, houtputs, profile, hprofile, names, hnames, pathLocks, hpathLocks,
    resourceLocks, hresourceLocks, timeoutMs, htimeoutMs, retry, hretry, rfl⟩ := h
  have hid' := (readNonEmptyString_again hid s!"{path}.id").1
  have htitle' := (readNonEmptyString_again htitle s!"{path}.title").1
  have hdescription' := (readNonEmptyString_again hdescription s!"{path}.description").1
  have hdependencies' := (readStringArray_again hdependencies).1
  have hinputs' := readDeclared_always_again hinputs fun v a => readInputs_again
  have houtputs' := readDeclared_always_again houtputs fun v a => readNamedIdentifiers_again
  have hprofile' := readDeclared_again hprofile fun v o => readProfile_again
  have hnames' := readDeclared_always_again hnames fun v a ha => (readCapabilityNames_again ha).1
  have hwritten : (names.map fun ns => ns.filterMap StepCapability.ofName?).map
      (fun cs => Json.strings (cs.map StepCapability.name)) = names.map Json.strings := by
    cases names with
    | none => rfl
    | some ns =>
      unfold readDeclared at hnames
      split at hnames
      · simp at hnames
      · obtain ⟨a, ha, hsome⟩ := always_eq_clean_iff.mp hnames
        cases hsome
        simp only [Option.map_some, (readCapabilityNames_again ha).2]
  have hpathLocks' := readDeclared_always_again hpathLocks fun v a => readSafeRepositoryPaths_again
  have hresourceLocks' :=
    readDeclared_always_again hresourceLocks fun v a => readNamedIdentifiers_again
  have htimeoutMs' := readDeclared_again htimeoutMs fun v o => readTimeoutMs_again
  have hretry' := readDeclared_again hretry fun v o => readRetry_again
  simp only [hfield, bind_eq_clean_iff, pure_eq_clean_iff]
  refine ⟨id, hid', title, htitle', description, hdescription', dependencies, hdependencies',
    inputs, hinputs', outputs, houtputs', profile, hprofile', names, ?_, pathLocks, hpathLocks',
    resourceLocks, hresourceLocks', timeoutMs, htimeoutMs', retry, hretry', rfl⟩
  rw [← hwritten] at hnames'
  exact hnames'

private theorem readQuestions_again {value : Option Json} {path : String} {questions : List String}
    (h : readQuestions value path = ⟨questions, []⟩) :
    readQuestions (some (Json.strings questions)) path = ⟨questions, []⟩ := by
  unfold readQuestions at h ⊢
  simp only [bind_eq_clean_iff, pure_eq_clean_iff] at h ⊢
  obtain ⟨xs, hread, u, hne, rfl⟩ := h
  exact ⟨xs, (readStringArray_again hread).1, u, hne, rfl⟩

private theorem readStepBody_again {kind : StepKind} {fields : List (String × Json)}
    {path : String} {body : StepBody} (h : readStepBody kind fields path = ⟨body, []⟩)
    (common : StepDefinitionCommon) :
    readStepBody kind (Json.definedFields (StepDefinition.properties { common with body })) path =
        ⟨body, []⟩ ∧
      stepKind? (Json.field (Json.definedFields
        (StepDefinition.properties { common with body })) "kind") = some kind := by
  have hfield := StepDefinition.field_toJson { common with body }
  unfold readStepBody at h ⊢
  simp only [hfield]
  cases kind with
  | investigation =>
    simp only [bind_eq_clean_iff, pure_eq_clean_iff] at h ⊢
    obtain ⟨questions, hquestions, rfl⟩ := h
    exact ⟨⟨questions, readQuestions_again hquestions, rfl⟩, rfl⟩
  | change =>
    simp only [bind_eq_clean_iff, pure_eq_clean_iff] at h ⊢
    obtain ⟨criteria, hcriteria, paths, hpaths, commands, hcommands, rfl⟩ := h
    exact ⟨⟨criteria, (readStringArray_again hcriteria).1, paths, readAllowedPaths_again hpaths,
      commands, (readValidationCommands_again hcommands).1, rfl⟩, rfl⟩
  | command =>
    simp only [bind_eq_clean_iff, pure_eq_clean_iff] at h ⊢
    obtain ⟨invocation, hinvocation, rfl⟩ := h
    exact ⟨⟨invocation, readCommandObject_again hinvocation, rfl⟩, rfl⟩
  | approval =>
    simp only [bind_eq_clean_iff, pure_eq_clean_iff] at h ⊢
    obtain ⟨prompt, hprompt, rfl⟩ := h
    exact ⟨⟨prompt, (readNonEmptyString_again hprompt _).1, rfl⟩, rfl⟩

/-- A step read without issue reads back as itself. -/
theorem readStep_again {index : Nat} {value : Json} {step : StepDefinition}
    (h : readStep index value = ⟨step, []⟩) : readStep index step.toJson = ⟨step, []⟩ := by
  unfold readStep at h
  split at h
  · simp only [bind_eq_clean_iff] at h
    obtain ⟨common, hcommon, h⟩ := h
    split at h
    · next kind _ =>
      simp only [bind_eq_clean_iff, pure_eq_clean_iff] at h
      obtain ⟨body, hbody, u, hprofile, u', hcapabilities, rfl⟩ := h
      obtain ⟨hbody', hkind⟩ := readStepBody_again hbody common.common
      simp only [readStep, StepDefinition.toJson, bind_eq_clean_iff]
      refine ⟨common, readStepCommon_again hcommon body, ?_⟩
      rw [hkind]
      simp only [bind_eq_clean_iff, pure_eq_clean_iff]
      exact ⟨body, hbody', u, hprofile, u', hcapabilities, rfl⟩
    · simp [bind_eq_clean_iff] at h
  · simp [bind_eq_clean_iff] at h

private theorem readFinalValidationCommands_again {hasChangeStep : Bool} {value : Option Json}
    {cs : List ValidationCommand}
    (h : readFinalValidationCommands hasChangeStep value = ⟨cs, []⟩) :
    readFinalValidationCommands hasChangeStep (some (.arr (cs.map ValidationCommand.toJson))) =
      ⟨cs, []⟩ := by
  have hread : ∀ v : Option Json, readValidationCommands v "finalValidationCommands" = ⟨cs, []⟩ →
      readFinalValidationCommands hasChangeStep (some (.arr (cs.map ValidationCommand.toJson))) =
        ⟨cs, []⟩ := by
    intro v hv
    obtain ⟨hagain, hne⟩ := readValidationCommands_again hv
    cases cs with
    | nil => exact absurd rfl hne
    | cons c rest => cases hasChangeStep <;> exact hagain
  unfold readFinalValidationCommands at h
  split at h
  · split at h
    · exact hread _ h
    · simp [bind_eq_clean_iff] at h
  · next hfalse =>
    have hno : hasChangeStep = false := by simpa using hfalse
    subst hno
    split at h
    · rw [pure_eq_clean_iff] at h
      subst h
      rfl
    · rw [pure_eq_clean_iff] at h
      subst h
      rfl
    · exact hread _ h
    · simp [bind_eq_clean_iff] at h

private theorem readFinalValidationCommands_congr {hasChangeStep hasChangeStep' : Bool}
    {items : List Json} {cs cs' : List ValidationCommand}
    (h : readFinalValidationCommands hasChangeStep (some (.arr items)) = ⟨cs, []⟩)
    (h' : readFinalValidationCommands hasChangeStep' (some (.arr items)) = ⟨cs', []⟩) : cs = cs' := by
  cases items with
  | nil =>
    cases hasChangeStep with
    | true => simp [readFinalValidationCommands, bind_eq_clean_iff] at h
    | false =>
      cases hasChangeStep' with
      | true => simp [readFinalValidationCommands, bind_eq_clean_iff] at h'
      | false =>
        rw [h] at h'
        exact congrArg Reading.value h'
  | cons item rest =>
    have hread : ∀ b, readFinalValidationCommands b (some (.arr (item :: rest))) =
        readValidationCommands (some (.arr (item :: rest))) "finalValidationCommands" := by
      intro b
      cases b <;> rfl
    rw [hread] at h h'
    rw [h] at h'
    exact congrArg Reading.value h'

/-- What a plan read without issue satisfies. -/
structure CleanPlan (plan : WorkflowPlan) : Prop where
  nonempty : plan.steps ≠ []
  identity : checkEach (checkStepIdentity plan.steps) 0 plan.steps = ⟨(), []⟩
  dependencies : checkEach (checkStepDependencies plan.steps) 0 plan.steps = ⟨(), []⟩
  inputs : checkEach (checkStepInputs plan.steps) 0 plan.steps = ⟨(), []⟩

private theorem checkStepInputs_clean_iff {steps : List StepDefinition} {step : StepDefinition}
    {index : Nat} :
    checkStepInputs steps index step = ⟨(), []⟩ ↔
      ∀ input ∈ step.inputs.getD [], input.stepId = "" ∨ input.output = "" ∨
        input.stepId ∈ step.dependencies ∧ declaresOutput steps input = true := by
  unfold checkStepInputs
  rw [checkEach_eq_clean_iff, ← forall_getElem?_iff]
  refine forall_congr' fun i => forall_congr' fun input => imp_congr_right fun _ => ?_
  dsimp only
  split
  · next hempty => exact iff_of_true rfl (hempty.imp_right Or.inl)
  · next hfull =>
    rw [not_or] at hfull
    split
    · next hunlinked => simp [hfull, hunlinked]
    · next hlinked =>
      rw [not_not] at hlinked
      simp [hfull, hlinked]

/-- The checks over the steps of a plan: its graph, and the outputs its inputs name. -/
theorem cleanPlan_iff {plan : WorkflowPlan} :
    CleanPlan plan ↔ plan.steps ≠ [] ∧ Node.WellFormed plan.nodes ∧
      (∀ step ∈ plan.steps, matchesIdPattern step.id = true) ∧
      (∀ step ∈ plan.steps, step.id ∉ step.dependencies) ∧
      ∀ step ∈ plan.steps, ∀ input ∈ step.inputs.getD [], input.stepId = "" ∨ input.output = "" ∨
        input.stepId ∈ step.dependencies ∧ declaresOutput plan.steps input = true := by
  have hgraph := @checkedGraph_iff _ StepDefinition.node plan.steps
  have hchecks : (checkEach (checkStepIdentity plan.steps) 0 plan.steps = ⟨(), []⟩ ∧
      checkEach (checkStepDependencies plan.steps) 0 plan.steps = ⟨(), []⟩) ↔
      Node.WellFormed plan.nodes ∧ (∀ step ∈ plan.steps, matchesIdPattern step.id = true) ∧
        ∀ step ∈ plan.steps, step.id ∉ step.dependencies := by
    rw [show (Node.WellFormed plan.nodes ∧
        (∀ step ∈ plan.steps, matchesIdPattern step.id = true) ∧
        ∀ step ∈ plan.steps, step.id ∉ step.dependencies) ↔ _ from hgraph.symm]
    simp only [checkEach_eq_clean_iff, checkStepIdentity, checkStepDependencies,
      bind_eq_clean_iff, issueIf_eq_clean_iff, Nat.zero_add, not_not, exists_const,
      StepDefinition.node]
    refine and_congr_right fun _ => forall_congr' fun i => forall_congr' fun step => ?_
    exact imp_congr_right fun _ => forall_getElem?_iff
  have hinputs : checkEach (checkStepInputs plan.steps) 0 plan.steps = ⟨(), []⟩ ↔
      ∀ step ∈ plan.steps, ∀ input ∈ step.inputs.getD [], input.stepId = "" ∨ input.output = "" ∨
        input.stepId ∈ step.dependencies ∧ declaresOutput plan.steps input = true := by
    rw [checkEach_eq_clean_iff, ← forall_getElem?_iff]
    exact forall_congr' fun i => forall_congr' fun step =>
      imp_congr_right fun _ => checkStepInputs_clean_iff
  constructor
  · intro h
    obtain ⟨hwf, hpattern, hirreflexive⟩ := hchecks.mp ⟨h.identity, h.dependencies⟩
    exact ⟨h.nonempty, hwf, hpattern, hirreflexive, hinputs.mp h.inputs⟩
  · rintro ⟨hne, hwf, hpattern, hirreflexive, hdeclared⟩
    obtain ⟨hidentity, hdependencies⟩ := hchecks.mpr ⟨hwf, hpattern, hirreflexive⟩
    exact ⟨hne, hidentity, hdependencies, hinputs.mpr hdeclared⟩

theorem readWorkflowPlan_clean {fields : List (String × Json)} {plan : WorkflowPlan}
    (h : readWorkflowPlan fields = ⟨plan, []⟩) :
    ∃ items, Json.field fields "steps" = some (.arr items) ∧ items ≠ [] ∧
      readEach readStep 0 items = ⟨plan.steps, []⟩ ∧
      readNonEmptyString (Json.field fields "title") "title" = ⟨plan.title, []⟩ ∧
      readFinalValidationCommands (plan.steps.any fun step => step.kind = .change)
        (Json.field fields "finalValidationCommands") = ⟨plan.finalValidationCommands, []⟩ ∧
      Json.field fields "version" = some (.number 4) ∧ CleanPlan plan := by
  simp only [readWorkflowPlan, bind_eq_clean_iff, pure_eq_clean_iff] at h
  obtain ⟨u0, hversion, title, htitle, u1, hsteps, steps, hread, commands, hcommands, u2,
    hidentity, u3, hdependencies, u4, hinputs, rfl⟩ := h
  have hversion' : Json.field fields "version" = some (.number 4) := by
    unfold checkSchemaVersion at hversion
    split at hversion
    · assumption
    · simp at hversion
  unfold checkRequiredSteps at hsteps
  split at hsteps
  · next item rest hitems =>
    rw [hitems] at hread
    refine ⟨item :: rest, hitems, by simp, hread, htitle, hcommands, hversion', ?_⟩
    refine ⟨?_, hidentity, hdependencies, hinputs⟩
    have hlen := (readEach_eq_clean_iff.mp hread).1
    rintro rfl
    simp [stepItems] at hlen
  · simp at hsteps

theorem readWorkflowPlan_of_clean {fields : List (String × Json)} {plan : WorkflowPlan}
    {items : List Json} (hsteps : Json.field fields "steps" = some (.arr items))
    (hne : items ≠ []) (hread : readEach readStep 0 items = ⟨plan.steps, []⟩)
    (htitle : readNonEmptyString (Json.field fields "title") "title" = ⟨plan.title, []⟩)
    (hcommands : readFinalValidationCommands (plan.steps.any fun step => step.kind = .change)
      (Json.field fields "finalValidationCommands") = ⟨plan.finalValidationCommands, []⟩)
    (hversion : Json.field fields "version" = some (.number 4)) (hclean : CleanPlan plan) :
    readWorkflowPlan fields = ⟨plan, []⟩ := by
  cases items with
  | nil => exact absurd rfl hne
  | cons item rest =>
    simp only [readWorkflowPlan, bind_eq_clean_iff, pure_eq_clean_iff, hversion, hsteps]
    exact ⟨(), rfl, plan.title, htitle, (), rfl, plan.steps, hread,
      plan.finalValidationCommands, hcommands, (), hclean.identity, (), hclean.dependencies, (),
      hclean.inputs, rfl⟩

end Reading

/-! ## Acceptance -/

/-- What acceptance of a document as a plan means. -/
theorem validateWorkflowPlan_ok_iff {value : Json} {plan : WorkflowPlan} :
    validateWorkflowPlan value = .ok plan ↔
      ∃ fields, value = .obj fields ∧ Reading.readWorkflowPlan fields = ⟨plan, []⟩ ∧
        findCycle plan.nodes = none := by
  unfold validateWorkflowPlan validateWorkflowPlanResult
  cases value with
  | obj fields =>
    simp only [Json.obj.injEq, exists_eq_left']
    cases hread : Reading.readWorkflowPlan fields with
    | mk p issues =>
      cases issues with
      | nil =>
        cases hcycle : findCycle p.nodes with
        | none =>
          simp only [if_true, Except.ok.injEq, Reading.mk.injEq, and_true]
          constructor
          · rintro rfl
            exact ⟨rfl, hcycle⟩
          · exact fun h => h.1
        | some cycle =>
          simp only [if_true, Reading.mk.injEq, and_true]
          constructor
          · intro h
            cases h
          · rintro ⟨rfl, hnone⟩
            rw [hcycle] at hnone
            cases hnone
      | cons issue rest => simp
  | _ => simp

/-- The steps of a plan form a well-formed acyclic graph of identifiers. -/
structure WellFormedSteps (steps : List StepDefinition) : Prop where
  nonempty : steps ≠ []
  graph : Node.WellFormed (steps.map StepDefinition.node)
  acyclic : Node.Acyclic (steps.map StepDefinition.node)
  pattern : ∀ step ∈ steps, matchesIdPattern step.id = true

/-- An accepted plan's steps form a well-formed acyclic graph. -/
theorem validateWorkflowPlan_wellFormed {value : Json} {plan : WorkflowPlan}
    (h : validateWorkflowPlan value = .ok plan) : WellFormedSteps plan.steps := by
  obtain ⟨fields, -, hread, hcycle⟩ := validateWorkflowPlan_ok_iff.mp h
  obtain ⟨-, -, -, -, -, -, -, hclean⟩ := Reading.readWorkflowPlan_clean hread
  obtain ⟨hne, hwf, hpattern, -⟩ := Reading.cleanPlan_iff.mp hclean
  exact ⟨hne, hwf, acyclic_of_findCycle hwf hcycle, hpattern⟩

/-- The steps of an accepted plan are read without an issue. -/
theorem validateWorkflowPlan_reads {value : Json} {plan : WorkflowPlan}
    (h : validateWorkflowPlan value = .ok plan) :
    ∃ items, Reading.readEach Reading.readStep 0 items = ⟨plan.steps, []⟩ := by
  obtain ⟨fields, -, hread, -⟩ := validateWorkflowPlan_ok_iff.mp h
  obtain ⟨items, -, -, hitems, -⟩ := Reading.readWorkflowPlan_clean hread
  exact ⟨items, hitems⟩

/-- An accepted plan is a normal form: validating it again gives the same plan. -/
theorem validateWorkflowPlan_toJson {value : Json} {plan : WorkflowPlan}
    (h : validateWorkflowPlan value = .ok plan) : validateWorkflowPlan plan.toJson = .ok plan := by
  obtain ⟨fields, -, hread, hcycle⟩ := validateWorkflowPlan_ok_iff.mp h
  obtain ⟨items, hsteps, hne, hitems, htitle, hcommands, hversion, hclean⟩ :=
    Reading.readWorkflowPlan_clean hread
  rw [validateWorkflowPlan_ok_iff]
  refine ⟨_, rfl, ?_, hcycle⟩
  apply @Reading.readWorkflowPlan_of_clean _ plan (plan.steps.map StepDefinition.toJson)
  · rfl
  · simpa using hclean.nonempty
  · exact Reading.readEach_again hitems fun _ _ _ => Reading.readStep_again
  · exact (Reading.readNonEmptyString_again htitle _).1
  · exact Reading.readFinalValidationCommands_again hcommands
  · rfl
  · exact hclean

/-- A document that appends steps to a plan's is read step by step as the plan is: an accepted one
keeps what was read of the plan's steps, and the commands read of the plan. -/
theorem validateWorkflowPlan_grown {base plan grown : WorkflowPlan} {proposed : List Json}
    (h : validateWorkflowPlan base.toJson = .ok plan)
    (hgrown : validateWorkflowPlan
      (.obj (base.fieldsWith (base.steps.map StepDefinition.toJson ++ proposed))) = .ok grown) :
    grown.steps.take base.steps.length = plan.steps ∧
      grown.steps.length = base.steps.length + proposed.length ∧
      grown.finalValidationCommands = plan.finalValidationCommands := by
  obtain ⟨fields, hfields, hread, -⟩ := validateWorkflowPlan_ok_iff.mp h
  cases hfields
  obtain ⟨fields', hfields', hread', -⟩ := validateWorkflowPlan_ok_iff.mp hgrown
  cases hfields'
  obtain ⟨items, hsteps, -, hitems, -, hcommands, -⟩ := Reading.readWorkflowPlan_clean hread
  obtain ⟨items', hsteps', -, hitems', -, hcommands', -⟩ := Reading.readWorkflowPlan_clean hread'
  cases hsteps
  cases hsteps'
  obtain ⟨hlength, heach⟩ := Reading.readEach_eq_clean_iff.mp hitems
  obtain ⟨hlength', heach'⟩ := Reading.readEach_eq_clean_iff.mp hitems'
  rw [List.length_map] at hlength
  rw [List.length_append, List.length_map] at hlength'
  refine ⟨?_, hlength'.symm, ?_⟩
  · apply List.ext_getElem?
    intro i
    rw [List.getElem?_take]
    by_cases hi : i < base.steps.length
    · rw [if_pos hi]
      have hstep : i < plan.steps.length := by omega
      have hstep' : i < grown.steps.length := by omega
      have hitem : (base.steps.map StepDefinition.toJson)[i]? = some base.steps[i].toJson := by
        rw [List.getElem?_map, List.getElem?_eq_getElem hi]
        rfl
      have hitem' : (base.steps.map StepDefinition.toJson ++ proposed)[i]? =
          some base.steps[i].toJson := by
        rw [List.getElem?_append_left (by rw [List.length_map]; exact hi), hitem]
      have hold := heach i _ _ hitem (List.getElem?_eq_getElem hstep)
      have hnew := heach' i _ _ hitem' (List.getElem?_eq_getElem hstep')
      rw [hold] at hnew
      rw [List.getElem?_eq_getElem hstep, List.getElem?_eq_getElem hstep']
      exact congrArg some (congrArg Reading.value hnew).symm
    · rw [if_neg hi, List.getElem?_eq_none (by omega)]
  · exact (Reading.readFinalValidationCommands_congr hcommands hcommands').symm

end BuildConductor.Domain
