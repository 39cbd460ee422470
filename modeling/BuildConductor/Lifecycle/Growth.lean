import Mathlib.Logic.Relation
import BuildConductor.Lifecycle.System
import BuildConductor.Lifecycle.Plans

/-!
# Growth of a plan

An admission appends: the topological order of the grown plan is the old one followed by the
new steps, so the integrated steps stay a prefix of it, however many admissions follow one
another. The validator reads the whole plan again, final validation commands included.
`src/src/engine/admission.ts:63-179`, `src/src/domain/dag.ts:483-522`,
`src/src/storage/workflow-state-store.ts:463-491`.
-/

namespace BuildConductor.Lifecycle

open Base Domain Security Engine Storage

/-- One record for each step of a plan, under its id and its definition. The store checks it of
every run and of its plan as the validator reads it.
`src/src/storage/workflow-state-store.ts:265-319`. -/
structure RecordsPlan (run : WorkflowRunState) (plan : WorkflowPlan) : Prop where
  recorded : ∀ definition ∈ plan.steps, ∃ record,
    run.steps.get? definition.id = some record ∧ record.definition = definition
  planned : ∀ stepId record, run.steps.get? stepId = some record →
    record.definition ∈ plan.steps ∧ record.definition.id = stepId

/-- The store accepts only runs that hold the records of their plan. -/
theorem recordsPlan_of_accepted {sha256Hex : String → String} {run : WorkflowRunState}
    {plan : WorkflowPlan} (h : RunAccepted sha256Hex run plan) : RecordsPlan run plan := by
  constructor
  · intro definition hdefinition
    obtain ⟨record, hrecord, haccepted⟩ := h.steps.records definition hdefinition
    exact ⟨record, hrecord, haccepted.definition_eq⟩
  · intro stepId record hrecord
    obtain ⟨hdefinition, hid, -⟩ :=
      h.steps.record (validateWorkflowPlan_wellFormed h.reads) hrecord
    exact ⟨hdefinition, hid⟩

/-- What append-only growth means of the run an admission gives. -/
structure AppendOnly (run next : WorkflowRunState) : Prop where
  validates : validateWorkflowPlan next.plan.toJson = .ok next.plan
  steps : ∃ added order, next.plan.steps = run.plan.steps ++ added ∧
    topologicalStepIds next.plan = topologicalStepIds run.plan ++ order ∧
    order.Perm (added.map fun step => step.id)
  recorded : RecordsPlan next next.plan
  records : ∀ stepId record, run.steps.get? stepId = some record → ∃ state,
    next.steps.get? stepId = some { record with state } ∧
      (reconcileWorkflowSteps run).steps.get? stepId = some { record with state }
  attempts : next.attempts = run.attempts
  head : next.integrationHead = run.integrationHead
  commands : next.plan.finalValidationCommands = run.plan.finalValidationCommands
  bounded : next.plan.steps.length ≤ maxWorkflowPlanSteps

/-- One admission after another. -/
def Admission (run next : WorkflowRunState) : Prop :=
  ∃ request now, admitSteps request now run = .ok next

variable {run next later : WorkflowRunState} {validated : WorkflowPlan} {now : Timestamp}
  {request : StepAdmissionRequest}

/-! ## One admission -/

private theorem grownPlan_validates {proposed : List Json} {plan : WorkflowPlan}
    (h : grownPlan run proposed = .ok plan) :
    validateWorkflowPlan (grownDocument run.plan proposed) = .ok plan := by
  rw [validateWorkflowPlan, (grownPlan_ok h).1]

/-- The run's steps are the ones the validator read when an admission is accepted. -/
private theorem grownPlan_reads {proposed : List Json} {plan : WorkflowPlan}
    (hplan : validateWorkflowPlan run.plan.toJson = .ok validated)
    (h : grownPlan run proposed = .ok plan) :
    validated.steps = run.plan.steps ∧
      plan.steps.length = run.plan.steps.length + proposed.length ∧
      plan.finalValidationCommands = validated.finalValidationCommands := by
  obtain ⟨htake, hlength, hcommands⟩ :=
    validateWorkflowPlan_grown hplan (grownPlan_validates h)
  refine ⟨?_, hlength, hcommands⟩
  rw [← htake]
  exact (grownPlan_ok h).2

private theorem RecordsPlan.planKept (hrecords : RecordsPlan run validated)
    (hplan : validateWorkflowPlan run.plan.toJson = .ok validated)
    (hsteps : validated.steps = run.plan.steps) : PlanKept run := by
  obtain ⟨hrecorded, hplanned⟩ := hrecords
  have hwf := validateWorkflowPlan_wellFormed hplan
  rw [hsteps] at hrecorded hplanned hwf
  exact ⟨hwf, hrecorded, hplanned⟩

/-- The grown plan is sorted like the old one, then the new steps. -/
theorem topologicalStepIds_grown {plan : WorkflowPlan} (hkept : PlanKept run)
    (hsteps : WellFormedSteps plan.steps) {added : List StepDefinition}
    (hgrown : plan.steps = run.plan.steps ++ added) :
    ∃ order, topologicalStepIds plan = topologicalStepIds run.plan ++ order ∧
      order.Perm (added.map fun step => step.id) := by
  have hnodes : plan.nodes = run.plan.nodes ++ added.map StepDefinition.node := by
    rw [WorkflowPlan.nodes, hgrown, List.map_append]
    rfl
  have hwf : Node.WellFormed plan.nodes := hsteps.graph
  have hacyclic : Node.Acyclic plan.nodes := hsteps.acyclic
  rw [hnodes] at hwf hacyclic
  have hne : ∀ n ∈ run.plan.nodes ++ added.map StepDefinition.node, n.id ≠ "" := by
    rw [← hnodes]
    intro n hn
    obtain ⟨step, hstep, rfl⟩ := List.mem_map.mp hn
    exact ne_empty_of_matchesIdPattern (hsteps.pattern step hstep)
  obtain ⟨order, horder, hperm⟩ :=
    topologicalIds_append hkept.steps.graph hkept.steps.acyclic hwf hacyclic hne
  refine ⟨order, ?_, ?_⟩
  · rw [topologicalStepIds, hnodes]
    exact horder
  · rw [Node.ids, List.map_map] at hperm
    exact hperm

/-- The new steps follow the old ones, so a reconciliation gives each old step what it gave it
before. -/
private theorem reconcile_admitted {plan : WorkflowPlan} (hkept : PlanKept run)
    (hsteps : WellFormedSteps plan.steps)
    (hgrown : plan.steps = run.plan.steps ++ plan.steps.drop run.plan.steps.length)
    {proposed : List Json} (hok : grownPlan run proposed = .ok plan) {stepId : String}
    {record : WorkflowStepRecord} (hrecord : run.steps.get? stepId = some record) :
    (reconciledSteps { run with plan }
      (admittedSteps run.steps (plan.steps.drop run.plan.steps.length))).get? stepId =
      (reconcileWorkflowSteps run).steps.get? stepId := by
  have hadmitted := hkept.admitted hok
  have hold : ∀ id earlier, run.steps.get? id = some earlier →
      (admittedSteps run.steps (plan.steps.drop run.plan.steps.length)).get? id = some earlier :=
    fun id earlier hearlier => (get?_admittedSteps hkept hsteps hgrown).mpr (Or.inl hearlier)
  -- Induction along the old order: the dependencies of a step precede it there.
  apply hkept.induction (P := fun stepId _ => (reconciledSteps { run with plan }
    (admittedSteps run.steps (plan.steps.drop run.plan.steps.length))).get? stepId =
      (reconcileWorkflowSteps run).steps.get? stepId) _ hrecord
  intro pre stepId post record horder hrecord ih
  by_cases hwaiting : record.state.isWaiting = true
  · have hbefore := hkept.reconcile_waiting_eq hrecord hwaiting
    have hafter := hadmitted.reconcile_waiting_eq (hold stepId record hrecord) hwaiting
    have hsame : ∀ id ∈ record.definition.dependencies,
        (reconciledSteps { run with plan }
          (admittedSteps run.steps (plan.steps.drop run.plan.steps.length))).get? id =
          (reconcileWorkflowSteps run).steps.get? id := by
      intro id hid
      obtain ⟨dependency, hdependency⟩ := hkept.dependency_recorded hrecord hid
      exact ih id (hkept.dependencies_before hrecord horder id hid) dependency hdependency
    rw [hbefore]
    apply hafter.trans
    congr 2
    apply readiness_congr
    · intro id hid
      exact congrArg _ (hsame id hid)
    · intro id hid
      exact congrArg _ (hsame id hid)
  · have hresting := Bool.eq_false_iff.mpr hwaiting
    rw [reconcile_keeps hrecord hresting]
    exact reconcile_keeps (hold stepId record hrecord) hresting

private theorem admitSteps_bound (h : admitSteps request now run = .ok next) :
    run.plan.steps.length + request.steps.length ≤ maxWorkflowPlanSteps := by
  unfold admitSteps at h
  simp only [bind_ok_iff, exists_unit_iff, ensure_ok_iff, require_ok_iff] at h
  obtain ⟨-, -, -, -, -, -, hbound, -⟩ := h
  exact hbound

/-- Everything an accepted admission does to a run whose plan validates. -/
private structure Admitted (run next : WorkflowRunState) (validated : WorkflowPlan) : Prop where
  kept : PlanKept run
  validates : validateWorkflowPlan next.plan.toJson = .ok next.plan
  steps : ∃ added order, next.plan.steps = run.plan.steps ++ added ∧
    topologicalStepIds next.plan = topologicalStepIds run.plan ++ order ∧
    order.Perm (added.map fun step => step.id) ∧
    ∀ definition ∈ added, ∃ record,
      next.steps.get? definition.id = some record ∧ record.integratedCommit = none
  recorded : PlanKept next
  records : ∀ stepId record, run.steps.get? stepId = some record → ∃ state,
    next.steps.get? stepId = some { record with state } ∧
      (reconcileWorkflowSteps run).steps.get? stepId = some { record with state }
  attempts : next.attempts = run.attempts
  head : next.integrationHead = run.integrationHead
  header : SameHeader run next
  commands : next.plan.finalValidationCommands = validated.finalValidationCommands
  bounded : next.plan.steps.length ≤ maxWorkflowPlanSteps

private theorem admitSteps_admitted (hplan : validateWorkflowPlan run.plan.toJson = .ok validated)
    (hrecords : RecordsPlan run validated) (h : admitSteps request now run = .ok next) :
    Admitted run next validated := by
  have hbound := admitSteps_bound h
  obtain ⟨-, authority, plan, -, hok, -, hheader, hnext, -, -, -, hsteps, hattempts, hhead⟩ :=
    admitSteps_ok h
  obtain ⟨hread, hlength, hcommands⟩ := grownPlan_reads hplan hok
  obtain ⟨hwf, hgrown⟩ := grownPlan_steps hok
  have hkept := hrecords.planKept hplan hread
  have hrecorded : PlanKept next := by
    apply (hkept.admitted hok).of_sameDefinitions hnext
    rw [hsteps]
    exact sameDefinitions_of_states (reconciledSteps_sameButStates _ _)
  refine ⟨hkept, ?_, ?_, hrecorded, ?_, hattempts, hhead, hheader, ?_, ?_⟩
  · rw [hnext]
    exact validateWorkflowPlan_toJson (grownPlan_validates hok)
  · obtain ⟨order, horder, hperm⟩ := topologicalStepIds_grown hkept hwf hgrown
    refine ⟨plan.steps.drop run.plan.steps.length, order, ?_, ?_, hperm, ?_⟩
    · rw [hnext]
      exact hgrown
    · rw [hnext]
      exact horder
    · intro definition hdefinition
      have hadmitted := (get?_admittedSteps hkept hwf hgrown).mpr
        (Or.inr ⟨definition, hdefinition, rfl, rfl⟩)
      obtain ⟨state, hstate⟩ := (sameButStates_iff.mp (reconciledSteps_sameButStates
        { run with plan } _)).2 _ _ hadmitted
      rw [hsteps]
      exact ⟨_, hstate, rfl⟩
  · intro stepId record hrecord
    obtain ⟨state, hstate⟩ :=
      (sameButStates_iff.mp (reconcile_sameButStates run)).2 stepId record hrecord
    refine ⟨state, ?_, hstate⟩
    rw [hsteps, reconcile_admitted hkept hwf hgrown hok hrecord]
    exact hstate
  · rw [hnext, hcommands]
  · rw [hnext]
    omega

/-! ## Many admissions -/

/-- Under a kept plan, a recorded step is looked up under the definition it records. -/
theorem PlanKept.mutatingCommit_eq (h : PlanKept run) {stepId : String}
    {record : WorkflowStepRecord} (hrecord : run.steps.get? stepId = some record) :
    mutatingCommit run run.plan stepId =
      if stepRequiresIntegration run.capabilityProfiles record.definition then
        some record.integratedCommit
      else none := by
  obtain ⟨hdefinition, rfl⟩ := h.planned stepId record hrecord
  rw [mutatingCommit, definitionOf_eq (nodup_stepIds h.steps) hdefinition, hrecord]

/-- The integrated steps after an admission: those before it, and none of the new ones. -/
private theorem Admitted.integrated (h : Admitted run next validated)
    (hbeginning : IntegratedPrefix (commitsAlong run run.plan (topologicalStepIds run.plan))
      run.baseCommit run.integrationHead) :
    IntegratedPrefix (commitsAlong next next.plan (topologicalStepIds next.plan))
      next.baseCommit next.integrationHead := by
  obtain ⟨added, order, hsteps, horder, hperm, hfresh⟩ := h.steps
  have hold : commitsAlong next next.plan (topologicalStepIds run.plan) =
      commitsAlong run run.plan (topologicalStepIds run.plan) := by
    apply List.filterMap_congr
    intro stepId hstepId
    obtain ⟨record, hrecord⟩ := h.kept.mem_order_iff.mp hstepId
    obtain ⟨state, hnext, -⟩ := h.records stepId record hrecord
    rw [h.kept.mutatingCommit_eq hrecord, h.recorded.mutatingCommit_eq hnext,
      h.header.capabilityProfiles]
  have hnew : ∀ commit ∈ commitsAlong next next.plan order, commit = none := by
    intro commit hcommit
    obtain ⟨stepId, hstepId, hmutating⟩ := List.mem_filterMap.mp hcommit
    obtain ⟨definition, hdefinition, rfl⟩ := List.mem_map.mp (hperm.mem_iff.mp hstepId)
    obtain ⟨record, hrecord, hnone⟩ := hfresh definition hdefinition
    rw [h.recorded.mutatingCommit_eq hrecord, hnone] at hmutating
    split at hmutating
    · exact (Option.some.inj hmutating).symm
    · cases hmutating
  obtain ⟨done, waiting, hcommits, hhead⟩ := hbeginning
  refine ⟨done, waiting + (commitsAlong next next.plan order).length, ?_, ?_⟩
  · rw [horder, commitsAlong_append, hold, hcommits, List.eq_replicate_of_mem hnew,
      List.length_replicate, List.append_assoc, List.replicate_append_replicate]
  · rw [h.head, h.header.baseCommit, hhead]

/-- What stays true of every run that admissions grow from a run. -/
private structure GrownFrom (run later : WorkflowRunState) : Prop where
  recorded : ∃ validated, validateWorkflowPlan later.plan.toJson = .ok validated ∧
    RecordsPlan later validated
  order : ∃ order, topologicalStepIds later.plan = topologicalStepIds run.plan ++ order
  integrated : IntegratedPrefix (commitsAlong run run.plan (topologicalStepIds run.plan))
      run.baseCommit run.integrationHead →
    IntegratedPrefix (commitsAlong later later.plan (topologicalStepIds later.plan))
      later.baseCommit later.integrationHead

private theorem grownFrom (hplan : validateWorkflowPlan run.plan.toJson = .ok validated)
    (hrecords : RecordsPlan run validated) (h : Relation.ReflTransGen Admission run later) :
    GrownFrom run later := by
  induction h with
  | refl => exact ⟨⟨validated, hplan, hrecords⟩, ⟨[], (List.append_nil _).symm⟩, id⟩
  | tail _ hadmission ih =>
    obtain ⟨request, now, hadmission⟩ := hadmission
    obtain ⟨read, hread, hrecorded⟩ := ih.recorded
    have hadmitted := admitSteps_admitted hread hrecorded hadmission
    obtain ⟨order, horder⟩ := ih.order
    obtain ⟨added, more, -, hmore, -⟩ := hadmitted.steps
    refine ⟨⟨_, hadmitted.validates, hadmitted.recorded.recorded, hadmitted.recorded.planned⟩,
      ⟨order ++ more, ?_⟩, fun hbeginning => hadmitted.integrated (ih.integrated hbeginning)⟩
    rw [hmore, horder, List.append_assoc]

/-! ## Append-only growth -/

/-- A refused admission leaves the store as it was, and an accepted one is append-only exactly when
the validator reads the final validation commands of the run as they are. However many admissions
follow, the old order stays a prefix and so do the integrated steps. -/
theorem admission_append_only_iff (hplan : validateWorkflowPlan run.plan.toJson = .ok validated)
    (hrecords : RecordsPlan run validated) (request : StepAdmissionRequest) (now : Timestamp) :
    (∀ sha256Hex error revision, admitSteps request now run = .error error →
      afterTransaction sha256Hex (admitSteps request now) ⟨revision, run⟩ = ⟨revision, run⟩) ∧
    (∀ next, admitSteps request now run = .ok next →
      (AppendOnly run next ↔
        validated.finalValidationCommands = run.plan.finalValidationCommands)) ∧
    ∀ later, Relation.ReflTransGen Admission run later →
      (∃ order, topologicalStepIds later.plan = topologicalStepIds run.plan ++ order) ∧
      (IntegratedPrefix (commitsAlong run run.plan (topologicalStepIds run.plan))
          run.baseCommit run.integrationHead →
        IntegratedPrefix (commitsAlong later later.plan (topologicalStepIds later.plan))
          later.baseCommit later.integrationHead) := by
  refine ⟨?_, ?_, ?_⟩
  · intro sha256Hex error revision herror
    exact afterTransaction_of_error sha256Hex herror
  · intro next hnext
    have hadmitted := admitSteps_admitted hplan hrecords hnext
    constructor
    · intro happend
      rw [← hadmitted.commands, happend.commands]
    · intro hcommands
      obtain ⟨added, order, hsteps, horder, hperm, -⟩ := hadmitted.steps
      exact
        { validates := hadmitted.validates
          steps := ⟨added, order, hsteps, horder, hperm⟩
          recorded := ⟨hadmitted.recorded.recorded, hadmitted.recorded.planned⟩
          records := hadmitted.records
          attempts := hadmitted.attempts
          head := hadmitted.head
          commands := hadmitted.commands.trans hcommands
          bounded := hadmitted.bounded }
  · intro later hlater
    have hgrown := grownFrom hplan hrecords hlater
    exact ⟨hgrown.order, hgrown.integrated⟩

/-! ## A run whose session proposes a step -/

/-- An authority that grants everything inside one path. -/
def smallAuthority : FrozenAuthority where
  source := .derived
  digest := "digest"
  envelope :=
    { outcome := "outcome"
      acceptanceCriteria := []
      repositories := [⟨"/repo", ⟨StepCapability.all, ["src/a"], []⟩⟩]
      forbiddenActions := []
      sandboxValidation := .none
      validation := ⟨[], false⟩
      escalation := ⟨[], []⟩ }

/-- A run whose step `edit` is under way, with its final validation commands. -/
def proposingRun (finalValidationCommands : List ValidationCommand) : WorkflowRunState :=
  { smallRun [editStep] with
    plan := ⟨"plan", [editStep], finalValidationCommands⟩
    authority := some smallAuthority
    steps := .ofList [("edit", editRecord .running)]
    attempts := [editAttempt .running none] }

/-- The proposal of a step that reads what `edit` wrote. -/
def checkProposal : StepAdmissionRequest := ⟨[checkStep.toJson], "edit", "follow up"⟩

private theorem recordsPlan_proposingRun
    (finalValidationCommands read : List ValidationCommand) :
    RecordsPlan (proposingRun finalValidationCommands) ⟨"plan", [editStep], read⟩ := by
  constructor
  · intro definition hdefinition
    rw [List.mem_singleton.mp hdefinition]
    exact ⟨editRecord .running, rfl, rfl⟩
  · intro stepId record hrecord
    obtain ⟨rfl, rfl⟩ : stepId = "edit" ∧ record = editRecord .running := by
      have hentry := (OrderedRecord.mem_entries_iff _ _ _).mpr hrecord
      simpa using List.mem_singleton.mp hentry
    exact ⟨List.mem_singleton_self _, rfl⟩

/-- White space around a final validation command is lost when the validator reads the grown plan. -/
theorem admission_not_append_only : ¬ ∀ (run next : WorkflowRunState) (validated : WorkflowPlan)
    (request : StepAdmissionRequest) (now : Timestamp),
    validateWorkflowPlan run.plan.toJson = .ok validated → RecordsPlan run validated →
    admitSteps request now run = .ok next → AppendOnly run next := by
  intro h
  cases hnext : admitSteps checkProposal (clock "2") (proposingRun [⟨" true", []⟩]) with
  | error error => cases hnext
  | ok next =>
    have happend := h _ next _ _ _ rfl (recordsPlan_proposingRun _ _) hnext
    have hcommands := happend.commands
    have hread : next.plan.finalValidationCommands = [⟨"true", []⟩] := by
      cases hnext
      rfl
    rw [hread] at hcommands
    exact absurd hcommands (by decide)

/-- An admission to a run with trimmed commands is append-only. -/
theorem admission_append_only_iff_proposingRun :
    ∃ next, admitSteps checkProposal (clock "2") (proposingRun [⟨"true", []⟩]) = .ok next ∧
      AppendOnly (proposingRun [⟨"true", []⟩]) next :=
  ⟨_, rfl, ((admission_append_only_iff rfl (recordsPlan_proposingRun _ _) checkProposal
    (clock "2")).2.1 _ rfl).mpr rfl⟩

end BuildConductor.Lifecycle
