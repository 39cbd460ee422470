import BuildConductor.Domain.PlanSpelling
import BuildConductor.Storage.Acceptance

/-!
# The plan a loaded run carries

A stored run is checked against the plan its document reads as, and the document itself is handed
on. `src/src/storage/workflow-state-store.ts:531-597`.
-/

namespace BuildConductor.Storage

open Base Domain Engine Security

/-! ## Stored runs with the plan as a document -/

/-- A stored run whose plan is any document. The plan inside `run` stands for nothing. -/
structure StoredRunDocument where
  revision : Nat
  planDocument : Json
  run : WorkflowRunState

variable (sha256Hex : String → String)

/-- The run part of the check, over the plan document. `src/src/storage/workflow-state-store.ts:540-596`. -/
def validateRunDocument (planDocument : Json) (run : WorkflowRunState) : Except String Unit := do
  assertString run.id "run.id"
  ensure (isSafeRunId run.id) s!"Unsafe run id: {run.id}"
  assertString run.repositoryRoot "run.repositoryRoot"
  assertString run.baseBranch "run.baseBranch"
  assertString run.baseCommit "run.baseCommit"
  assertString run.integrationBranch "run.integrationBranch"
  assertString run.integrationHead "run.integrationHead"
  assertString run.createdAt "run.createdAt"
  assertString run.updatedAt "run.updatedAt"
  let plan ← validateWorkflowPlan planDocument
  assertCapabilityProfiles run.capabilityProfiles "run.capabilityProfiles"
  validateRunAuthority sha256Hex run plan
  ensure (1 ≤ run.maxConcurrentWorkers ∧ run.maxConcurrentWorkers ≤ maxConcurrentWorkersLimit)
    s!"run.maxConcurrentWorkers must be an integer from 1 to {maxConcurrentWorkersLimit}"
  validateStoredSteps run plan
  validateStoredAttempts run plan
  validateStoredIntegration run plan
  validateStoredEvents run

/-- `src/src/storage/workflow-state-store.ts:531-597`. -/
def validateStoredRunDocument (stored : StoredRunDocument) : Except String StoredRunDocument := do
  assertCountingInteger stored.revision "revision"
  validateRunDocument sha256Hex stored.planDocument stored.run
  pure stored

/-- A run that holds its plan is checked over the document of that plan. -/
theorem validateRun_eq_document (run : WorkflowRunState) :
    validateRun sha256Hex run = validateRunDocument sha256Hex run.plan.toJson run := rfl

/-- What an accepted run document establishes of its steps. -/
theorem validateStoredRunDocument_steps {sha256Hex : String → String}
    {stored loaded : StoredRunDocument} (h : validateStoredRunDocument sha256Hex stored = .ok loaded) :
    loaded = stored ∧ ∃ plan, validateWorkflowPlan stored.planDocument = .ok plan ∧
      StepsAccepted stored.run plan := by
  obtain ⟨-, h⟩ := seq_ok_iff.mp h
  obtain ⟨hrun, h⟩ := seq_ok_iff.mp h
  unfold validateRunDocument at hrun
  simp only [seq_ok_iff] at hrun
  obtain ⟨-, -, -, -, -, -, -, -, -, hrun⟩ := hrun
  obtain ⟨plan, hplan, hrun⟩ := bind_ok_iff.mp hrun
  obtain ⟨-, hrun⟩ := seq_ok_iff.mp hrun
  obtain ⟨-, hrun⟩ := seq_ok_iff.mp hrun
  obtain ⟨-, hrun⟩ := seq_ok_iff.mp hrun
  obtain ⟨hsteps, -⟩ := seq_ok_iff.mp hrun
  refine ⟨(Except.ok.inj h).symm, plan, hplan, validateStoredSteps_ok_iff.mp hsteps⟩

/-! ## The plan that was checked -/

/-- A loaded run holds the plan it was checked against, and a record with the definition of every
step its plan orders. -/
structure CarriesCheckedPlan (loaded : StoredRunDocument) : Prop where
  checked : ∃ plan, validateWorkflowPlan loaded.planDocument = .ok plan ∧
    loaded.planDocument.Same plan.toJson
  recorded : ∀ stepId ∈ topologicalIds ((documentSteps loaded.planDocument).map documentNode),
    ∃ record, loaded.run.steps.get? stepId = some record ∧
      ∃ item ∈ documentSteps loaded.planDocument, (documentNode item).id = stepId ∧
        item.Same record.definition.toJson

/-- A loaded run carries the plan that was checked just when the plan document is written as the
reader writes it. -/
theorem carriesCheckedPlan_iff {sha256Hex : String → String} {stored loaded : StoredRunDocument}
    (h : validateStoredRunDocument sha256Hex stored = .ok loaded) :
    CarriesCheckedPlan loaded ↔ IsNormalPlanDocument loaded.planDocument := by
  obtain ⟨rfl, plan, hplan, hsteps⟩ := validateStoredRunDocument_steps h
  constructor
  · intro hcarries
    obtain ⟨checked, hchecked, hsame⟩ := hcarries.checked
    exact (same_plan_iff hchecked).mp hsame
  · intro hnormal
    have hsame := (same_plan_iff hplan).mpr hnormal
    refine ⟨⟨plan, hplan, hsame⟩, ?_⟩
    rw [documentNodes_of_same hsame]
    intro stepId hstepId
    have hwf := validateWorkflowPlan_wellFormed hplan
    have hlinear : Node.Linearizes plan.nodes (topologicalIds plan.nodes) := by
      apply topologicalIds_linearizes hwf.graph _ hwf.acyclic
      intro n hn
      obtain ⟨step, hstep, rfl⟩ := List.mem_map.mp hn
      exact ne_empty_of_matchesIdPattern (hwf.pattern step hstep)
    rw [hlinear.perm.mem_iff] at hstepId
    obtain ⟨n, hn, rfl⟩ := List.mem_map.mp hstepId
    obtain ⟨step, hstep, rfl⟩ := List.mem_map.mp hn
    obtain ⟨record, hrecord, haccepted⟩ := hsteps.records step hstep
    obtain ⟨item, hitem, hitemSame⟩ := exists_left_of_forall₂ (documentSteps_of_same hsame) hstep
    refine ⟨record, hrecord, item, hitem, ?_, ?_⟩
    · rw [documentNode_of_same hitemSame]
    · rw [haccepted.definition_eq]
      exact hitemSame

/-- A stored run of one investigation step whose plan is some document. -/
def investigationDocument (planDocument : Json) : StoredRunDocument where
  revision := 1
  planDocument := planDocument
  run := smallRun [investigationStep "look" []]

/-- The plan of the run, with the id of its step written in a given way. -/
def investigationPlan (id : String) : Json :=
  (smallPlan [{ investigationStep "look" [] with id }]).toJson

private theorem accepted_of_isOk {stored : StoredRunDocument}
    (h : (validateStoredRunDocument id stored).isOk = true) :
    validateStoredRunDocument id stored = .ok stored := by
  cases hrun : validateStoredRunDocument id stored with
  | error message =>
    rw [hrun] at h
    cases h
  | ok loaded => rw [(validateStoredRunDocument_steps hrun).1]

theorem carriesCheckedPlan_investigation :
    CarriesCheckedPlan (investigationDocument (investigationPlan "look")) ↔
      IsNormalPlanDocument (investigationPlan "look") :=
  @carriesCheckedPlan_iff id _ _ (accepted_of_isOk (by decide +kernel))

/-- A run whose plan writes the id of its step with a blank behind it is loaded as it is stored. Its
plan orders a step without a record. -/
theorem untrimmed_plan_loaded :
    validateStoredRunDocument id (investigationDocument (investigationPlan "look ")) =
        .ok (investigationDocument (investigationPlan "look ")) ∧
      ¬ CarriesCheckedPlan (investigationDocument (investigationPlan "look ")) := by
  refine ⟨accepted_of_isOk (by decide +kernel), fun h => ?_⟩
  have horder : topologicalIds ((documentSteps (investigationPlan "look ")).map documentNode) =
      ["look "] := by decide +kernel
  obtain ⟨record, hrecord, -⟩ := h.recorded "look " (by
    show "look " ∈ topologicalIds ((documentSteps (investigationPlan "look ")).map documentNode)
    rw [horder]
    exact List.mem_singleton_self _)
  have hnone : ((smallRun [investigationStep "look" []]).steps.get? "look ").isSome = false := by
    decide +kernel
  change (smallRun [investigationStep "look" []]).steps.get? "look " = some record at hrecord
  rw [hrecord] at hnone
  cases hnone

end BuildConductor.Storage
