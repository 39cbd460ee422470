import BuildConductor.Domain.PlanTranslation
import BuildConductor.Domain.Review
import Mathlib.Data.List.Lex

/-!
# The change workflow

The approved tasks as change steps, then rounds of one review per category, each but the last
followed by a repair of what it found. The generated steps depend on every task, and each round on
the repair before it, so every step of the plan but the last reviews comes before the last reviews.
`src/src/workflows/change.ts:16-165`.
-/

namespace BuildConductor.Workflows

open Base Domain

/-- `REVIEW_FINDINGS_OUTPUT`. -/
def reviewFindingsOutput : String := "findings"

/-- `REPAIR_EVIDENCE_OUTPUT`. -/
def repairEvidenceOutput : String := "evidence"

/-- `CHANGE_WORKFLOW_REPAIR_ROUNDS`. -/
def changeWorkflowRepairRounds : Nat := 2

/-- The rounds of `buildChangeWorkflowPlan`. -/
def rounds : Nat := changeWorkflowRepairRounds + 1

/-- `src/src/engine/steps/review.ts:68-70`. -/
def reviewStepId (round : Nat) (category : ReviewCategory) : String :=
  s!"review-{round}-{category.name}"

/-- `src/src/engine/steps/repair.ts:28-30`. -/
def repairStepId (round : Nat) : String := s!"repair-{round}"

/-- `src/src/workflows/change.ts:28-30`. -/
def reviewRoundStepIds (round : Nat) : List String := ReviewCategory.all.map (reviewStepId round)

/-- The review of one category in one round. -/
def reviewRoundStep (round : Nat) (dependencies : List String) (category : ReviewCategory) :
    StepDefinition :=
  let previous := if round > 1 then some (round - 1) else none
  { id := reviewStepId round category
    title := s!"Independent {category.name} review (round {round})"
    description := s!"Review the complete integrated result for {
      category.name} problems and report structured findings."
    dependencies :=
      match previous with
      | none => dependencies
      | some previous => dependencies ++ [reviewStepId previous category]
    inputs := previous.map fun previous => [⟨reviewStepId previous category, reviewFindingsOutput⟩]
    outputs := some [reviewFindingsOutput]
    profile := some .review
    capabilities := some [.readRepository]
    pathLocks := none
    resourceLocks := none
    timeoutMs := none
    retry := none
    body := .investigation [s!"Which {category.name} problems does the integrated result contain?"] }

/-- `src/src/workflows/change.ts:32-66`. -/
def reviewRoundSteps (round : Nat) (dependencies : List String) : List StepDefinition :=
  ReviewCategory.all.map (reviewRoundStep round dependencies)

/-- `src/src/workflows/change.ts:68-96`. -/
def repairRoundStep (round : Nat) (allowedPaths : List String)
    (validationCommands : List ValidationCommand) : StepDefinition :=
  let reviewIds := reviewRoundStepIds round
  { id := repairStepId round
    title := s!"Repair the round {round} review findings"
    description := "Apply fixes for the prioritized repair-required findings from the independent reviews. A round with nothing to repair succeeds without touching the repository."
    dependencies := reviewIds
    inputs := some (reviewIds.map fun stepId => ⟨stepId, reviewFindingsOutput⟩)
    outputs := some [repairEvidenceOutput]
    profile := some .repair
    capabilities := none
    pathLocks := none
    resourceLocks := none
    timeoutMs := none
    retry := none
    body := .change
      ["Every repair-required finding is addressed or explicitly reported as unrepairable"]
      allowedPaths validationCommands }

/-- The UTF-16 code units strings are compared by. -/
def codeUnits (s : String) : List Nat :=
  s.toList.flatMap fun c =>
    if c.toNat < 0x10000 then [c.toNat]
    else [0xD800 + (c.toNat - 0x10000) / 0x400, 0xDC00 + (c.toNat - 0x10000) % 0x400]

/-- The paths a repair may touch: those of every task, once each, in order.
`src/src/workflows/change.ts:138-144`. -/
def repairPaths (steps : List StepDefinition) : List String :=
  ((steps.flatMap StepDefinition.allowedPaths).eraseDups).insertionSort
    fun left right => codeUnits left ≤ codeUnits right

/-- A change step that publishes the checks of its commit. `src/src/workflows/change.ts:133-136`. -/
def evidencedStep (step : StepDefinition) : StepDefinition :=
  { step with outputs := some (step.outputs.getD [] ++ [repairEvidenceOutput]) }

/-- The steps one round adds. `src/src/workflows/change.ts:147-157`. -/
def roundSteps (changeIds paths : List String) (commands : List ValidationCommand) (round : Nat) :
    List StepDefinition :=
  reviewRoundSteps round (if round = 1 then changeIds else [repairStepId (round - 1)]) ++
    if round < rounds then [repairRoundStep round paths commands] else []

/-- The ids no task may have. `src/src/workflows/change.ts:114-122`. -/
def reservedStepIds : List String :=
  (List.range' 1 rounds).flatMap fun round =>
    reviewRoundStepIds round ++ if round < rounds then [repairStepId round] else []

/-- The plan document of the workflow. `src/src/workflows/change.ts:130-164`. -/
def changeWorkflow (translated : WorkflowPlan) : WorkflowPlan :=
  let changeSteps := translated.steps.map evidencedStep
  let generated := (List.range' 1 rounds).flatMap
    (roundSteps (changeSteps.map (·.id)) (repairPaths translated.steps)
      translated.finalValidationCommands)
  ⟨translated.title, changeSteps ++ generated, translated.finalValidationCommands⟩

/-- `src/src/workflows/change.ts:111-165`. -/
def buildChangeWorkflowPlan (taskPlan : Json) : Except String WorkflowPlan := do
  let translated ← translateLegacyTaskPlan taskPlan
  match translated.steps.find? fun step => step.id ∈ reservedStepIds with
  | some step =>
    .error s!"Task id {step.id} collides with a generated workflow step; rename the task"
  | none => validateWorkflowPlan (changeWorkflow translated).toJson

/-! ## The generated steps -/

/-- The steps of all rounds. -/
def generatedSteps (changeIds paths : List String) (commands : List ValidationCommand) :
    List StepDefinition :=
  (List.range' 1 rounds).flatMap (roundSteps changeIds paths commands)

theorem changeWorkflow_steps (translated : WorkflowPlan) :
    (changeWorkflow translated).steps = translated.steps.map evidencedStep ++
      generatedSteps ((translated.steps.map evidencedStep).map (·.id))
        (repairPaths translated.steps) translated.finalValidationCommands := rfl

theorem generatedSteps_ids (changeIds paths : List String) (commands : List ValidationCommand) :
    (generatedSteps changeIds paths commands).map (·.id) = reservedStepIds := rfl

/-- The nodes after the reviews of the first round. -/
private def laterNodes : List (Node String) :=
  ((generatedSteps [] [] []).drop ReviewCategory.all.length).map StepDefinition.node

private theorem laterNodes_follow : Node.Follows (reviewRoundStepIds 1) laterNodes := by
  decide +kernel

private theorem laterNodes_reserved : ∀ n ∈ laterNodes, n.id ∈ reservedStepIds := by
  decide +kernel

private theorem nodup_reviewRoundStepIds : (reviewRoundStepIds 1).Nodup := by
  decide +kernel

private theorem reviewRoundStepIds_reserved : ∀ id ∈ reviewRoundStepIds 1, id ∈ reservedStepIds := by
  decide +kernel

/-- The generated steps follow any steps whose ids are not theirs. -/
theorem generatedSteps_follow {changeIds : List String} (hnodup : changeIds.Nodup)
    (hfresh : ∀ id ∈ changeIds, id ∉ reservedStepIds) (paths : List String)
    (commands : List ValidationCommand) :
    Node.Follows changeIds ((generatedSteps changeIds paths commands).map StepDefinition.node) := by
  have hnew : ∀ id ∈ reservedStepIds, id ∉ changeIds := fun id hid hmem => hfresh id hmem hid
  have hsplit : (generatedSteps changeIds paths commands).map StepDefinition.node =
      ((reviewRoundStepIds 1).map fun id => ⟨id, changeIds⟩) ++ laterNodes := rfl
  rw [hsplit]
  apply Node.Follows.append
  · exact Node.follows_fan hnodup (fun d hd => hd) nodup_reviewRoundStepIds
      fun id hid => hnew id (reviewRoundStepIds_reserved id hid)
  · exact laterNodes_follow.extend fun n hn => hnew n.id (laterNodes_reserved n hn)

/-! ## The accepted plan -/

instance : DecidablePred NormalText := fun s => inferInstanceAs (Decidable (trim s = s ∧ s ≠ ""))

private theorem reservedStepIds_normal : ∀ id ∈ reservedStepIds,
    matchesIdPattern id = true ∧ NormalText id := by
  decide +kernel

private theorem reviewStepId_reserved : ∀ round ∈ List.range' 1 rounds,
    ∀ category ∈ ReviewCategory.all, reviewStepId round category ∈ reservedStepIds := by
  decide +kernel

private theorem reviewRoundStep_texts (round : Nat) (category : ReviewCategory) :
    NormalText (reviewRoundStep round [] category).title ∧
      NormalText (reviewRoundStep round [] category).description ∧
      NormalText s!"Which {category.name} problems does the integrated result contain?" := by
  refine ⟨normalText_of_visible ?_ ?_, normalText_of_visible ?_ ?_, normalText_of_visible ?_ ?_⟩
  · exact startsVisible_append (startsVisible_append (startsVisible_append
      (startsVisible_append (by decide) _) _) _) _
  · exact endsVisible_append _ (by decide)
  · exact startsVisible_append (startsVisible_append (by decide) _) _
  · exact endsVisible_append _ (by decide)
  · exact startsVisible_append (startsVisible_append (by decide) _) _
  · exact endsVisible_append _ (by decide)

private theorem repairRoundStep_texts (round : Nat) :
    NormalText (repairRoundStep round [] []).title ∧
      NormalText (repairRoundStep round [] []).description := by
  refine ⟨normalText_of_visible ?_ ?_, normalText_of_visible ?_ ?_⟩
  · exact startsVisible_append (startsVisible_append (by decide) _) _
  · exact endsVisible_append _ (by decide)
  · show startsVisible (repairRoundStep 0 [] []).description = true
    decide +kernel
  · show endsVisible (repairRoundStep 0 [] []).description = true
    decide +kernel

private theorem repairStepId_reserved : ∀ round ∈ List.range' 1 changeWorkflowRepairRounds,
    repairStepId round ∈ reservedStepIds ∧ ∀ id ∈ reviewRoundStepIds round, id ∈ reservedStepIds := by
  decide +kernel

private theorem normalText_outputs :
    NormalText reviewFindingsOutput ∧ NormalIdentifiers [reviewFindingsOutput] ∧
      NormalIdentifiers [repairEvidenceOutput] :=
  ⟨by decide +kernel, ⟨by decide +kernel, by decide +kernel, by decide⟩,
    ⟨by decide +kernel, by decide +kernel, by decide⟩⟩

private theorem reviewRoundStep_plain {round : Nat} (hround : round ∈ List.range' 1 rounds)
    {dependencies : List String} (hdependencies : ∀ d ∈ dependencies, NormalText d)
    (category : ReviewCategory) : PlainStep (reviewRoundStep round dependencies category) := by
  have hcategory := category.mem_all
  obtain ⟨htitle, hdescription, hquestion⟩ := reviewRoundStep_texts round category
  have hid : ∀ previous ∈ List.range' 1 rounds, NormalText (reviewStepId previous category) :=
    fun previous hprevious =>
      (reservedStepIds_normal _ (reviewStepId_reserved previous hprevious category hcategory)).2
  have hprevious : round > 1 → round - 1 ∈ List.range' 1 rounds := by
    rw [List.mem_range'_1] at hround ⊢
    omega
  refine ⟨hid round hround, htitle, hdescription, ?_, ?_, ?_, ?_, ?_, rfl, rfl, rfl, rfl,
    ⟨by simp, ?_⟩⟩
  · unfold reviewRoundStep
    dsimp only
    by_cases hlater : round > 1
    · rw [if_pos hlater]
      intro d hd
      rcases List.mem_append.mp hd with hd | hd
      · exact hdependencies d hd
      · rw [List.mem_singleton.mp hd]
        exact hid _ (hprevious hlater)
    · rw [if_neg hlater]
      exact hdependencies
  · unfold reviewRoundStep
    dsimp only
    by_cases hlater : round > 1
    · rw [if_pos hlater]
      intro inputs hinputs input hinput
      cases hinputs
      rw [List.mem_singleton.mp hinput]
      exact ⟨hid _ (hprevious hlater), normalText_outputs.1⟩
    · rw [if_neg hlater]
      intro inputs hinputs
      cases hinputs
  · intro outputs houtputs
    cases houtputs
    exact normalText_outputs.2.1
  · intro profile hprofile
    cases hprofile
    show CapabilityProfileName.review ∈ StepKind.investigation.profiles
    decide
  · intro capabilities hcapabilities
    cases hcapabilities
    show ∀ c ∈ [StepCapability.readRepository], c ∈ StepKind.investigation.capabilityMaxima
    decide
  · intro question hmem
    rw [List.mem_singleton.mp hmem]
    exact hquestion

private theorem repairRoundStep_plain {round : Nat}
    (hround : round ∈ List.range' 1 changeWorkflowRepairRounds) {paths : List String}
    (hpaths : NormalPaths paths) {commands : List ValidationCommand} (hne : commands ≠ [])
    (hcommands : ∀ c ∈ commands, NormalCommand c) :
    PlainStep (repairRoundStep round paths commands) := by
  obtain ⟨htitle, hdescription⟩ := repairRoundStep_texts round
  obtain ⟨hid, hreviews⟩ := repairStepId_reserved round hround
  refine ⟨(reservedStepIds_normal _ hid).2, htitle, hdescription, ?_, ?_, ?_, ?_, ?_, rfl, rfl,
    rfl, rfl, ⟨by decide +kernel, hpaths, hne, hcommands⟩⟩
  · exact fun d hd => (reservedStepIds_normal d (hreviews d hd)).2
  · intro inputs hinputs input hinput
    cases hinputs
    obtain ⟨id, hmem, rfl⟩ := List.mem_map.mp hinput
    exact ⟨(reservedStepIds_normal id (hreviews id hmem)).2, normalText_outputs.1⟩
  · intro outputs houtputs
    cases houtputs
    exact normalText_outputs.2.2
  · intro profile hprofile
    cases hprofile
    show CapabilityProfileName.repair ∈ StepKind.change.profiles
    decide
  · intro capabilities hcapabilities
    cases hcapabilities

theorem mem_generatedSteps_iff {changeIds paths : List String} {commands : List ValidationCommand}
    {step : StepDefinition} :
    step ∈ generatedSteps changeIds paths commands ↔
      (∃ round ∈ List.range' 1 rounds, ∃ category,
        step = reviewRoundStep round
          (if round = 1 then changeIds else [repairStepId (round - 1)]) category) ∨
      ∃ round ∈ List.range' 1 changeWorkflowRepairRounds, step = repairRoundStep round paths commands := by
  unfold generatedSteps roundSteps reviewRoundSteps
  simp only [List.mem_flatMap, List.mem_append, List.mem_map]
  constructor
  · rintro ⟨round, hround, ⟨category, -, rfl⟩ | hrepair⟩
    · exact Or.inl ⟨round, hround, category, rfl⟩
    · split at hrepair
      · next hlast =>
        rw [List.mem_singleton.mp hrepair]
        refine Or.inr ⟨round, ?_, rfl⟩
        rw [List.mem_range'_1] at hround ⊢
        unfold rounds at hlast
        omega
      · cases hrepair
  · rintro (⟨round, hround, category, rfl⟩ | ⟨round, hround, rfl⟩)
    · exact ⟨round, hround, Or.inl ⟨category, category.mem_all, rfl⟩⟩
    · rw [List.mem_range'_1] at hround
      have hlast : round < rounds := by
        unfold rounds
        omega
      refine ⟨round, List.mem_range'_1.mpr (by omega), Or.inr ?_⟩
      rw [if_pos hlast]
      exact List.mem_singleton_self _

/-- The paths of a repair are those of the tasks. -/
theorem mem_repairPaths_iff {steps : List StepDefinition} {path : String} :
    path ∈ repairPaths steps ↔ ∃ step ∈ steps, path ∈ step.allowedPaths := by
  unfold repairPaths
  rw [List.mem_insertionSort, List.mem_eraseDups, List.mem_flatMap]

private theorem repairPaths_normal {steps : List StepDefinition} (hne : steps ≠ [])
    (h : ∀ step ∈ steps, NormalPaths step.allowedPaths) : NormalPaths (repairPaths steps) where
  normal := by
    intro path hpath
    obtain ⟨step, hstep, hmem⟩ := mem_repairPaths_iff.mp hpath
    exact (h step hstep).normal path hmem
  nodup := (List.perm_insertionSort _ _).nodup_iff.mpr (nodup_eraseDups _)
  nonempty := by
    obtain ⟨step, hstep⟩ := List.exists_mem_of_ne_nil steps hne
    obtain ⟨path, hpath⟩ := List.exists_mem_of_ne_nil _ (h step hstep).nonempty
    exact List.ne_nil_of_mem (mem_repairPaths_iff.mpr ⟨step, hstep, hpath⟩)

/-- An input names an output of a step of the plan. -/
private theorem declaresOutput_of_mem {steps : List StepDefinition}
    (hnodup : (steps.map (·.id)).Nodup) {step : StepDefinition} (hstep : step ∈ steps)
    {output : String} (houtput : output ∈ step.outputs.getD []) :
    Reading.declaresOutput steps ⟨step.id, output⟩ = true := by
  unfold Reading.declaresOutput
  rw [List.findRev?_eq_find?_reverse]
  cases hfind : steps.reverse.find? fun other => other.id = step.id with
  | none =>
    have hno := List.find?_eq_none.mp hfind step (List.mem_reverse.mpr hstep)
    simp at hno
  | some other =>
    have hother := List.mem_reverse.mp (List.mem_of_find?_eq_some hfind)
    have hid : other.id = step.id := by simpa using List.find?_some hfind
    rw [List.inj_on_of_nodup_map hnodup hother hstep hid]
    exact decide_eq_true houtput

section Accepted

variable {legacy : TaskPlan}

theorem changeWorkflow_nodes (legacy : TaskPlan) :
    (changeWorkflow legacy.translated).nodes = legacy.nodes ++
      (generatedSteps (Node.ids legacy.nodes) (repairPaths legacy.translated.steps)
        legacy.finalValidationCommands).map StepDefinition.node := by
  have hids : (legacy.translated.steps.map evidencedStep).map (·.id) = Node.ids legacy.nodes := by
    unfold TaskPlan.translated TaskPlan.nodes Node.ids
    simp only [List.map_map]
    rfl
  unfold WorkflowPlan.nodes
  rw [changeWorkflow_steps, hids, List.map_append]
  congr 1
  unfold TaskPlan.translated TaskPlan.nodes
  simp only [List.map_map]
  rfl

theorem mem_changeWorkflow_iff {step : StepDefinition} :
    step ∈ (changeWorkflow legacy.translated).steps ↔
      (∃ task ∈ legacy.tasks, step = evidencedStep task.toStep) ∨
      step ∈ generatedSteps (Node.ids legacy.nodes) (repairPaths legacy.translated.steps)
        legacy.finalValidationCommands := by
  have hids : (legacy.translated.steps.map evidencedStep).map (·.id) = Node.ids legacy.nodes := by
    unfold TaskPlan.translated TaskPlan.nodes Node.ids
    simp only [List.map_map]
    rfl
  rw [changeWorkflow_steps, hids, List.mem_append]
  refine or_congr_left ?_
  unfold TaskPlan.translated
  simp only [List.map_map, List.mem_map, Function.comp_apply]
  exact exists_congr fun task => and_congr_right fun _ => eq_comm

private theorem changeWorkflow_plain (h : ValidTaskPlan legacy) :
    ∀ step ∈ (changeWorkflow legacy.translated).steps, PlainStep step := by
  have hpaths : NormalPaths (repairPaths legacy.translated.steps) := by
    apply repairPaths_normal
    · simpa [TaskPlan.translated] using h.nonempty
    · intro step hstep
      obtain ⟨task, htask, rfl⟩ := List.mem_map.mp hstep
      exact (h.tasks task htask).allowedPaths
  intro step hstep
  rcases mem_changeWorkflow_iff.mp hstep with ⟨task, htask, rfl⟩ | hgenerated
  · apply (h.tasks task htask).plainStep
    intro outputs houtputs
    cases houtputs
    exact normalText_outputs.2.2
  · rcases mem_generatedSteps_iff.mp hgenerated with
      ⟨round, hround, category, rfl⟩ | ⟨round, hround, rfl⟩
    · apply reviewRoundStep_plain hround
      split
      · intro d hd
        obtain ⟨n, hn, rfl⟩ := List.mem_map.mp hd
        obtain ⟨task, htask, rfl⟩ := List.mem_map.mp hn
        exact (h.tasks task htask).id
      · next hlater =>
        intro d hd
        rw [List.mem_singleton.mp hd]
        refine (reservedStepIds_normal _ (repairStepId_reserved (round - 1) ?_).1).2
        rw [List.mem_range'_1] at hround ⊢
        unfold rounds at hround
        omega
    · exact repairRoundStep_plain hround hpaths h.commanded h.finalValidationCommands

private theorem changeWorkflow_graph (h : ValidTaskPlan legacy)
    (hfresh : ∀ task ∈ legacy.tasks, task.id ∉ reservedStepIds) :
    Node.WellFormed (changeWorkflow legacy.translated).nodes ∧
      Node.Acyclic (changeWorkflow legacy.translated).nodes := by
  rw [changeWorkflow_nodes]
  have hfollows := generatedSteps_follow h.wellFormed.nodup_ids (by
    intro id hid
    obtain ⟨n, hn, rfl⟩ := List.mem_map.mp hid
    obtain ⟨task, htask, rfl⟩ := List.mem_map.mp hn
    exact hfresh task htask) (repairPaths legacy.translated.steps) legacy.finalValidationCommands
  exact ⟨hfollows.wellFormed h.wellFormed,
    hfollows.acyclic h.wellFormed (acyclic_of_findCycle h.wellFormed h.acyclic)⟩

/-- Every input of a generated step names the findings of a review it depends on. -/
private theorem generatedSteps_inputs {changeIds paths : List String}
    {commands : List ValidationCommand} {step : StepDefinition}
    (hstep : step ∈ generatedSteps changeIds paths commands) {input : StepInputReference}
    (hinput : input ∈ step.inputs.getD []) :
    input.stepId ∈ step.dependencies ∧
      ∃ review ∈ generatedSteps changeIds paths commands,
        input = ⟨review.id, reviewFindingsOutput⟩ ∧ reviewFindingsOutput ∈ review.outputs.getD [] := by
  have hreview : ∀ round ∈ List.range' 1 rounds, ∀ category,
      ∃ review ∈ generatedSteps changeIds paths commands,
        (⟨reviewStepId round category, reviewFindingsOutput⟩ : StepInputReference) =
          ⟨review.id, reviewFindingsOutput⟩ ∧ reviewFindingsOutput ∈ review.outputs.getD [] :=
    fun round hround category => ⟨_, mem_generatedSteps_iff.mpr (Or.inl ⟨round, hround, category, rfl⟩),
      rfl, List.mem_singleton_self _⟩
  rcases mem_generatedSteps_iff.mp hstep with ⟨round, hround, category, rfl⟩ | ⟨round, hround, rfl⟩
  · unfold reviewRoundStep at hinput ⊢
    dsimp only at hinput ⊢
    by_cases hlater : round > 1
    · rw [if_pos hlater] at hinput ⊢
      rw [List.mem_singleton.mp hinput]
      refine ⟨List.mem_append_right _ (List.mem_singleton_self _), hreview (round - 1) ?_ category⟩
      rw [List.mem_range'_1] at hround ⊢
      omega
    · rw [if_neg hlater] at hinput
      cases hinput
  · obtain ⟨id, hid, rfl⟩ := List.mem_map.mp hinput
    refine ⟨hid, ?_⟩
    obtain ⟨category, -, rfl⟩ := List.mem_map.mp hid
    apply hreview round
    rw [List.mem_range'_1] at hround ⊢
    unfold rounds
    omega

private theorem changeWorkflow_clean (h : ValidTaskPlan legacy)
    (hfresh : ∀ task ∈ legacy.tasks, task.id ∉ reservedStepIds) :
    Reading.CleanPlan (changeWorkflow legacy.translated) := by
  obtain ⟨hwf, rank, hrank⟩ := changeWorkflow_graph h hfresh
  rw [Reading.cleanPlan_iff]
  refine ⟨?_, hwf, ?_, ?_, ?_⟩
  · obtain ⟨task, htask⟩ := List.exists_mem_of_ne_nil _ h.nonempty
    exact List.ne_nil_of_mem (mem_changeWorkflow_iff.mpr (Or.inl ⟨task, htask, rfl⟩))
  · intro step hstep
    rcases mem_changeWorkflow_iff.mp hstep with ⟨task, htask, rfl⟩ | hgenerated
    · exact h.pattern task htask
    · refine (reservedStepIds_normal step.id ?_).1
      rw [← generatedSteps_ids]
      exact List.mem_map_of_mem hgenerated
  · intro step hstep hself
    exact Nat.lt_irrefl _ (hrank step.node (List.mem_map_of_mem hstep) step.id hself)
  · intro step hstep input hinput
    rcases mem_changeWorkflow_iff.mp hstep with ⟨task, -, rfl⟩ | hgenerated
    · cases hinput
    · obtain ⟨hdependency, review, hreview, rfl, houtput⟩ := generatedSteps_inputs hgenerated hinput
      have hids : ((changeWorkflow legacy.translated).steps.map (·.id)).Nodup := by
        have hnodup := hwf.nodup_ids
        unfold Node.ids WorkflowPlan.nodes at hnodup
        rwa [List.map_map] at hnodup
      exact Or.inr (Or.inr ⟨hdependency, declaresOutput_of_mem hids
        (mem_changeWorkflow_iff.mpr (Or.inr hreview)) houtput⟩)

/-- A plan is built exactly from an accepted task plan none of whose ids is reserved, and it is the
change workflow of its tasks. -/
theorem buildChangeWorkflowPlan_ok_iff {value : Json} {plan : WorkflowPlan} :
    buildChangeWorkflowPlan value = .ok plan ↔
      ∃ legacy, validateTaskPlan value = .ok legacy ∧
        (∀ task ∈ legacy.tasks, task.id ∉ reservedStepIds) ∧
        plan = changeWorkflow legacy.translated := by
  unfold buildChangeWorkflowPlan
  rw [Base.bind_ok_iff]
  have hreserved : ∀ legacy : TaskPlan,
      (legacy.translated.steps.find? fun step => step.id ∈ reservedStepIds) = none ↔
        ∀ task ∈ legacy.tasks, task.id ∉ reservedStepIds := by
    intro legacy
    rw [List.find?_eq_none]
    unfold TaskPlan.translated
    simp only [List.forall_mem_map, decide_eq_true_eq, TaskDefinition.toStep_id]
  have hbuilt : ∀ legacy, ValidTaskPlan legacy →
      (∀ task ∈ legacy.tasks, task.id ∉ reservedStepIds) →
      (validateWorkflowPlan (changeWorkflow legacy.translated).toJson = .ok plan ↔
        plan = changeWorkflow legacy.translated) := by
    intro legacy hvalid hfresh
    obtain ⟨hwf, hacyclic⟩ := changeWorkflow_graph hvalid hfresh
    rw [validateWorkflowPlan_plain_iff (changeWorkflow_plain hvalid) hvalid.title hvalid.commanded
      hvalid.finalValidationCommands]
    exact and_iff_left ⟨changeWorkflow_clean hvalid hfresh, findCycle_of_acyclic hwf hacyclic⟩
  constructor
  · rintro ⟨translated, htranslated, hplan⟩
    obtain ⟨legacy, hlegacy, rfl⟩ := translateLegacyTaskPlan_ok_iff.mp htranslated
    split at hplan
    · cases hplan
    · next hnone =>
      have hfresh := (hreserved legacy).mp hnone
      exact ⟨legacy, hlegacy, hfresh,
        (hbuilt legacy (validateTaskPlan_valid hlegacy) hfresh).mp hplan⟩
  · rintro ⟨legacy, hlegacy, hfresh, hplan⟩
    refine ⟨legacy.translated, translateLegacyTaskPlan_ok_iff.mpr ⟨legacy, hlegacy, rfl⟩, ?_⟩
    rw [(hreserved legacy).mpr hfresh]
    exact (hbuilt legacy (validateTaskPlan_valid hlegacy) hfresh).mpr hplan

/-- The steps of a built plan form a graph. -/
theorem buildChangeWorkflowPlan_wellFormed {value : Json} {plan : WorkflowPlan}
    (h : buildChangeWorkflowPlan value = .ok plan) : Node.WellFormed plan.nodes := by
  obtain ⟨legacy, hlegacy, hfresh, rfl⟩ := buildChangeWorkflowPlan_ok_iff.mp h
  exact (changeWorkflow_graph (validateTaskPlan_valid hlegacy) hfresh).1

end Accepted

end BuildConductor.Workflows
