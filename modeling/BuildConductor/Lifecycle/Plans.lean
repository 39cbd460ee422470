import BuildConductor.Lifecycle.Transactions

/-!
# The plan of a run

Every reachable run holds one record for each step of a well-formed plan, under the
definition the plan gives it. Only an admission changes the plan, and it appends.
`src/src/engine/admission.ts:61-179`, `src/src/domain/steps.ts:482-644`.
-/

namespace BuildConductor.Lifecycle

open Base Domain Security Engine Workflows Storage

/-- A run holds exactly the records of a well-formed plan. -/
structure PlanKept (run : WorkflowRunState) : Prop where
  steps : WellFormedSteps run.plan.steps
  recorded : ∀ definition ∈ run.plan.steps, ∃ record,
    run.steps.get? definition.id = some record ∧ record.definition = definition
  planned : ∀ stepId record, run.steps.get? stepId = some record →
    record.definition ∈ run.plan.steps ∧ record.definition.id = stepId

namespace PlanKept

variable {run : WorkflowRunState}

theorem linearizes (h : PlanKept run) :
    Node.Linearizes run.plan.nodes (topologicalStepIds run.plan) := by
  apply topologicalIds_linearizes h.steps.graph _ h.steps.acyclic
  intro n hn
  obtain ⟨step, hstep, rfl⟩ := List.mem_map.mp hn
  exact ne_empty_of_matchesIdPattern (h.steps.pattern step hstep)

theorem nodup_order (h : PlanKept run) : (topologicalStepIds run.plan).Nodup :=
  h.linearizes.perm.nodup_iff.mpr h.steps.graph.nodup_ids

/-- The order lists the recorded steps. -/
theorem mem_order_iff (h : PlanKept run) {stepId : String} :
    stepId ∈ topologicalStepIds run.plan ↔ ∃ record, run.steps.get? stepId = some record := by
  rw [h.linearizes.perm.mem_iff]
  constructor
  · intro hmem
    obtain ⟨n, hn, rfl⟩ := List.mem_map.mp hmem
    obtain ⟨definition, hdefinition, rfl⟩ := List.mem_map.mp hn
    obtain ⟨record, hrecord, -⟩ := h.recorded definition hdefinition
    exact ⟨record, hrecord⟩
  · rintro ⟨record, hrecord⟩
    obtain ⟨hdefinition, hid⟩ := h.planned stepId record hrecord
    exact List.mem_map.mpr ⟨record.definition.node, List.mem_map.mpr ⟨_, hdefinition, rfl⟩, hid⟩

/-- The order lists the dependencies of a step before it. -/
theorem dependencies_before (h : PlanKept run) {stepId : String} {record : WorkflowStepRecord}
    {pre post : List String} (hrecord : run.steps.get? stepId = some record)
    (horder : topologicalStepIds run.plan = pre ++ stepId :: post) :
    ∀ d ∈ record.definition.dependencies, d ∈ pre := by
  obtain ⟨hdefinition, hid⟩ := h.planned stepId record hrecord
  intro d hd
  exact h.linearizes.precede pre stepId post horder record.definition.node
    (List.mem_map.mpr ⟨_, hdefinition, rfl⟩) hid d hd

/-- A reconciliation gives every waiting step the state its dependencies end up giving it. -/
theorem reconcile_waiting_eq (h : PlanKept run) {stepId : String} {record : WorkflowStepRecord}
    (hrecord : run.steps.get? stepId = some record) (hwaiting : record.state.isWaiting = true) :
    (reconcileWorkflowSteps run).steps.get? stepId =
      some { record with
        state := readiness run.capabilityProfiles record.definition
          (reconcileWorkflowSteps run).steps } := by
  have hmem : stepId ∈ topologicalStepIds run.plan := h.mem_order_iff.mpr ⟨record, hrecord⟩
  obtain ⟨pre, post, horder⟩ := List.append_of_mem hmem
  exact reconcile_fixpoint horder h.nodup_order hrecord hwaiting (h.dependencies_before hrecord horder)

/-- Induction along the plan order. -/
theorem induction (h : PlanKept run) {P : String → WorkflowStepRecord → Prop}
    (hstep : ∀ pre stepId post record, topologicalStepIds run.plan = pre ++ stepId :: post →
      run.steps.get? stepId = some record →
      (∀ id ∈ pre, ∀ earlier, run.steps.get? id = some earlier → P id earlier) → P stepId record)
    {stepId : String} {record : WorkflowStepRecord} (hrecord : run.steps.get? stepId = some record) :
    P stepId record := by
  have hbeginning : ∀ pre post, topologicalStepIds run.plan = pre ++ post →
      ∀ id ∈ pre, ∀ earlier, run.steps.get? id = some earlier → P id earlier := by
    intro pre
    induction pre using List.reverseRecOn with
    | nil =>
      intro post _ id hid
      cases hid
    | append_singleton pre last ih =>
      intro post horder id hid earlier hearlier
      rw [List.append_assoc] at horder
      rcases List.mem_append.mp hid with hold | hlast
      · exact ih _ horder id hold earlier hearlier
      · rw [List.mem_singleton] at hlast
        rw [hlast] at hearlier ⊢
        exact hstep pre last post earlier horder hearlier (ih _ horder)
  apply hbeginning (topologicalStepIds run.plan) [] (List.append_nil _).symm stepId _ record hrecord
  exact h.mem_order_iff.mpr ⟨record, hrecord⟩

/-- The dependencies of a recorded step are recorded. -/
theorem dependency_recorded (h : PlanKept run) {stepId : String} {record : WorkflowStepRecord}
    (hrecord : run.steps.get? stepId = some record) {d : String}
    (hd : d ∈ record.definition.dependencies) : ∃ dependency, run.steps.get? d = some dependency := by
  obtain ⟨pre, post, horder⟩ := List.append_of_mem (h.mem_order_iff.mpr ⟨record, hrecord⟩)
  rw [← h.mem_order_iff, horder]
  exact List.mem_append_left _ (h.dependencies_before hrecord horder d hd)

end PlanKept

/-! ## Writes keep the definitions -/

/-- A record later in a run keeps its definition. -/
def KeepsDefinition (_stepId : String) (record later : WorkflowStepRecord) : Prop :=
  later.definition = record.definition

/-- The same steps under the same definitions. -/
def SameDefinitions (before after : OrderedRecord String WorkflowStepRecord) : Prop :=
  OrderedRecord.Pointwise KeepsDefinition before after

theorem SameDefinitions.refl (steps : OrderedRecord String WorkflowStepRecord) :
    SameDefinitions steps steps :=
  OrderedRecord.Pointwise.refl (fun _ record => (rfl : record.definition = _)) steps

theorem SameDefinitions.trans {first second third : OrderedRecord String WorkflowStepRecord}
    (h : SameDefinitions first second) (h' : SameDefinitions second third) :
    SameDefinitions first third := by
  apply OrderedRecord.Pointwise.trans _ h h'
  intro _ first second third hfirst hsecond
  exact Eq.trans hsecond hfirst

theorem SameDefinitions.symm {before after : OrderedRecord String WorkflowStepRecord}
    (h : SameDefinitions before after) : SameDefinitions after before :=
  OrderedRecord.Pointwise.symm (fun _ _ _ heq => Eq.symm heq) h

private theorem SameDefinitions.set {steps : OrderedRecord String WorkflowStepRecord}
    {stepId : String} {record later : WorkflowStepRecord}
    (hrecord : steps.get? stepId = some record) (h : later.definition = record.definition) :
    SameDefinitions steps (steps.set stepId later) :=
  OrderedRecord.pointwise_set (fun _ record => (rfl : record.definition = _)) hrecord h

theorem reconciledSteps_sameButStates (run : WorkflowRunState)
    (steps : OrderedRecord String WorkflowStepRecord) :
    SameButStates steps (reconciledSteps run steps) :=
  reconcile_sameButStates { run with steps }

theorem sameDefinitions_of_states {before after : OrderedRecord String WorkflowStepRecord}
    (h : SameButStates before after) : SameDefinitions before after :=
  h.pointwise fun _ record _ => (rfl : record.definition = _)

private theorem SameDefinitions.set_reconciled {steps : OrderedRecord String WorkflowStepRecord}
    {stepId : String} {record later : WorkflowStepRecord} (run : WorkflowRunState)
    (hrecord : steps.get? stepId = some record) (h : later.definition = record.definition) :
    SameDefinitions steps (reconciledSteps run (steps.set stepId later)) :=
  (SameDefinitions.set hrecord h).trans
    (sameDefinitions_of_states (reconciledSteps_sameButStates run _))

theorem Settles.definition {now : Timestamp} {decision : InterruptedAttemptDecision}
    {interrupted : WorkflowStepAttempt} {definition : StepDefinition}
    {settleAttempt : WorkflowStepAttempt → WorkflowStepAttempt}
    {settleRecord : WorkflowStepRecord → WorkflowStepRecord} {outcome : RecoveryOutcome}
    (h : Settles now decision interrupted definition settleAttempt settleRecord outcome)
    (record : WorkflowStepRecord) :
    (settleRecord record).definition = record.definition := by
  cases h with
  | adopted _ => rfl
  | retried _ _ _ => rfl
  | failed _ _ => rfl

variable {run next : WorkflowRunState} {now : Timestamp}

private theorem Recovers.sameDefinitions
    {decide : WorkflowStepAttempt → InterruptedAttemptDecision} {done : List WorkflowStepAttempt}
    {steps : OrderedRecord String WorkflowStepRecord} {attempts : List WorkflowStepAttempt}
    {recovered : List RecoveredAttempt}
    (h : Recovers now decide run done steps attempts recovered) : SameDefinitions run.steps steps := by
  induction h with
  | nil => exact SameDefinitions.refl _
  | snoc _ hrecord hsettles ih =>
    exact ih.trans (SameDefinitions.set hrecord (hsettles.definition _))

private theorem settledRecord_definition (outcome : StepOutcome) (retrying : Bool)
    (record : WorkflowStepRecord) :
    (settledRecord outcome retrying record).definition = record.definition := by
  unfold settledRecord
  split
  · rfl
  · split <;> rfl
  · rfl

/-- Whether a transaction admits steps. -/
def Transaction.isAdmission : Transaction → Bool
  | .admission _ => true
  | _ => false

/-- Every transaction but an admission keeps the header, the plan and the definitions. -/
theorem Transaction.apply_sameDefinitions {transaction : Transaction}
    (h : transaction.apply now run = .ok next) (hadmission : transaction.isAdmission = false) :
    SameHeader run next ∧ next.plan = run.plan ∧ SameDefinitions run.steps next.steps := by
  cases transaction with
  | requestCancellation reason =>
    cases h
    have hwrite := requestCancellation_rewrites reason now run
    refine ⟨hwrite.header, hwrite.plan, ?_⟩
    rw [hwrite.steps]
    exact SameDefinitions.refl _
  | reserve attempt =>
    rcases reserveAttempt_ok h with ⟨-, rfl⟩ | ⟨-, record, hrecord, hwrite⟩
    · exact ⟨SameHeader.refl _, rfl, SameDefinitions.refl _⟩
    · refine ⟨hwrite.header, hwrite.plan, ?_⟩
      rw [hwrite.steps]
      exact SameDefinitions.set hrecord rfl
  | markRunning attemptId =>
    cases h
    exact ⟨(markAttemptRunning_rewrites attemptId now run).header, rfl, SameDefinitions.refl _⟩
  | recordWorker attemptId workerId =>
    cases h
    exact ⟨(recordWorker_rewrites attemptId workerId now run).header, rfl, SameDefinitions.refl _⟩
  | settleStep stepId attempt executed routing =>
    obtain ⟨record, artifactIds, hrecord, hwrite⟩ := settleStep_ok h
    refine ⟨hwrite.header, hwrite.plan, ?_⟩
    rw [hwrite.steps]
    exact SameDefinitions.set_reconciled run hrecord (settledRecord_definition _ _ _)
  | failStep stepId message =>
    obtain ⟨record, hrecord, hwrite⟩ := failStep_ok h
    refine ⟨hwrite.header, hwrite.plan, ?_⟩
    rw [hwrite.steps]
    apply SameDefinitions.set_reconciled run hrecord
    rfl
  | recordIntegration ticket commit =>
    obtain ⟨record, hrecord, hwrite⟩ := recordIntegration_ok h
    refine ⟨hwrite.header, hwrite.plan, ?_⟩
    rw [hwrite.steps]
    apply SameDefinitions.set_reconciled run hrecord
    rfl
  | recordIntegrationFailure ticket error =>
    obtain ⟨record, hrecord, hwrite⟩ := recordIntegrationFailure_ok h
    refine ⟨hwrite.header, hwrite.plan, ?_⟩
    rw [hwrite.steps]
    apply SameDefinitions.set_reconciled run hrecord
    rfl
  | settleRun cancelled =>
    cases h
    have hwrite := settleRun_rewrites cancelled now run
    refine ⟨hwrite.header, hwrite.plan, ?_⟩
    rw [hwrite.steps]
    exact sameDefinitions_of_states (settledSteps_sameButStates cancelled run)
  | recover decide =>
    obtain ⟨⟨settled, recovered⟩, hrecover, rfl⟩ := map_ok_iff.mp h
    obtain ⟨bound, hbound⟩ := exists_number_bound (activeAttempts run)
    obtain ⟨steps, attempts, hrecovers, ⟨-, rfl⟩ | ⟨-, hwrite⟩⟩ :=
      recoverWorkflowRun_ok hbound hrecover
    · exact ⟨SameHeader.refl _, rfl, SameDefinitions.refl _⟩
    · refine ⟨hwrite.header, hwrite.plan, ?_⟩
      rw [hwrite.steps]
      have hunblocked : SameDefinitions steps (unblocked steps) := by
        apply OrderedRecord.pointwise_mapValues
        intro stepId record
        unfold KeepsDefinition
        split <;> rfl
      exact (hrecovers.sameDefinitions.trans hunblocked).trans
        (sameDefinitions_of_states (reconciledSteps_sameButStates _ _))
  | relaunch stopped =>
    cases h
    obtain ⟨bound, hbound⟩ := exists_attemptIds_bound run
    have hwrite := @relaunchSteps_rewrites run now stopped bound hbound
    refine ⟨hwrite.header, hwrite.plan, ?_⟩
    rw [hwrite.steps]
    have hplanned : SameDefinitions run.steps (relaunchedSteps stopped run.steps) := by
      apply OrderedRecord.pointwise_mapValues
      intro stepId record
      unfold KeepsDefinition
      split <;> rfl
    exact hplanned.trans (sameDefinitions_of_states (reconciledSteps_sameButStates _ _))
  | retry =>
    obtain ⟨bound, hbound⟩ := exists_attemptIds_bound run
    obtain ⟨-, ⟨-, rfl⟩ | ⟨-, hwrite⟩⟩ := retrySteps_ok hbound h
    · exact ⟨SameHeader.refl _, rfl, SameDefinitions.refl _⟩
    · refine ⟨hwrite.header, hwrite.plan, ?_⟩
      rw [hwrite.steps]
      have hplanned : SameDefinitions run.steps (retriedSteps run.steps) := by
        apply OrderedRecord.pointwise_mapValues
        intro stepId record
        unfold KeepsDefinition
        split <;> rfl
      exact hplanned.trans (sameDefinitions_of_states (reconciledSteps_sameButStates _ _))
  | admission request => cases hadmission

theorem PlanKept.of_sameDefinitions (h : PlanKept run) (hplan : next.plan = run.plan)
    (hsame : SameDefinitions run.steps next.steps) : PlanKept next := by
  constructor
  · rw [hplan]
    exact h.steps
  · intro definition hdefinition
    rw [hplan] at hdefinition
    obtain ⟨record, hrecord, heq⟩ := h.recorded definition hdefinition
    obtain ⟨later, hlater, hsameDefinition⟩ := hsame.right hrecord
    exact ⟨later, hlater, hsameDefinition.trans heq⟩
  · intro stepId later hlater
    obtain ⟨record, hrecord, hsameDefinition⟩ := hsame.left hlater
    rw [hplan, hsameDefinition]
    exact h.planned stepId record hrecord

/-- The records a reconciliation started from hold the plan it left. -/
theorem PlanKept.before_reconciled {steps : OrderedRecord String WorkflowStepRecord}
    (hkept : PlanKept next) (hplan : next.plan = run.plan)
    (hsteps : next.steps = reconciledSteps run steps) : PlanKept { run with steps } := by
  have hsame : SameDefinitions next.steps steps := by
    rw [hsteps]
    exact (sameDefinitions_of_states (reconciledSteps_sameButStates run steps)).symm
  exact @PlanKept.of_sameDefinitions next { run with steps } hkept hplan.symm hsame

/-! ## Where plans come from -/

theorem nodup_stepIds {steps : List StepDefinition} (h : WellFormedSteps steps) :
    (steps.map fun step => step.id).Nodup := by
  have hnodup := h.graph.nodup_ids
  rwa [Node.ids, List.map_map] at hnodup

/-- A created run: it is running, nothing has run, and it has room for a worker. -/
structure Created (input : CreateWorkflowRunStateInput) (run : WorkflowRunState) : Prop where
  plan : run.plan = input.plan
  steps : run.steps = input.plan.steps.foldl (fun steps definition =>
    steps.set definition.id (initialStepRecord definition)) .empty
  state : run.state = .running
  attempts : run.attempts = []
  workers_pos : 1 ≤ run.maxConcurrentWorkers

theorem createWorkflowRunState_ok {input : CreateWorkflowRunStateInput}
    (h : createWorkflowRunState input = .ok run) : Created input run := by
  unfold createWorkflowRunState at h
  rw [seq_ok_iff, ensure_ok_iff] at h
  obtain ⟨⟨hpositive, -⟩, hrun⟩ := h
  rw [← Except.ok.inj hrun]
  refine ⟨rfl, ?_, rfl, rfl, hpositive⟩
  rw [OrderedRecord.ofList, List.foldl_map]

/-- A run created from a well-formed plan holds its steps. -/
theorem PlanKept.of_create {input : CreateWorkflowRunStateInput}
    (h : createWorkflowRunState input = .ok run) (hsteps : WellFormedSteps input.plan.steps) :
    PlanKept run := by
  have hcreated := createWorkflowRunState_ok h
  have hplan := hcreated.plan
  have hrecords := hcreated.steps
  have hnodup := nodup_stepIds hsteps
  rw [← hplan] at hsteps hrecords hnodup
  refine ⟨hsteps, ?_, ?_⟩
  · intro definition hdefinition
    refine ⟨initialStepRecord definition, ?_, rfl⟩
    rw [hrecords]
    exact OrderedRecord.get?_foldl_set_of_mem _ initialStepRecord hnodup hdefinition _
  · intro stepId record hrecord
    rw [hrecords] at hrecord
    rcases OrderedRecord.get?_foldl_set_cases _ initialStepRecord hnodup hrecord with
      ⟨definition, hdefinition, hid, rfl⟩ | ⟨-, hnone⟩
    · exact ⟨hdefinition, hid⟩
    · rw [OrderedRecord.get?_empty] at hnone
      cases hnone

/-- Every record of a created run is the initial one of its definition. -/
theorem Created.initial {input : CreateWorkflowRunStateInput} (h : Created input run)
    (hkept : PlanKept run) {stepId : String} {record : WorkflowStepRecord}
    (hrecord : run.steps.get? stepId = some record) : record = initialStepRecord record.definition := by
  have hnodup := nodup_stepIds hkept.steps
  rw [h.plan] at hnodup
  rw [h.steps] at hrecord
  rcases OrderedRecord.get?_foldl_set_cases _ initialStepRecord hnodup hrecord with
    ⟨definition, -, -, rfl⟩ | ⟨-, hnone⟩
  · rfl
  · rw [OrderedRecord.get?_empty] at hnone
    cases hnone

/-- A grown plan is the plan of the run with admitted steps appended, and well-formed. -/
theorem grownPlan_steps {proposed : List Json} {plan : WorkflowPlan}
    (h : grownPlan run proposed = .ok plan) :
    WellFormedSteps plan.steps ∧
      plan.steps = run.plan.steps ++ plan.steps.drop run.plan.steps.length := by
  obtain ⟨hvalid, htake⟩ := grownPlan_ok h
  have hok : validateWorkflowPlan (grownDocument run.plan proposed) = .ok plan := by
    rw [validateWorkflowPlan, hvalid]
  refine ⟨validateWorkflowPlan_wellFormed hok, ?_⟩
  calc plan.steps
      = plan.steps.take run.plan.steps.length ++ plan.steps.drop run.plan.steps.length :=
        (List.take_append_drop ..).symm
    _ = run.plan.steps ++ plan.steps.drop run.plan.steps.length := by rw [htake]

/-- The records after an admission: those there were, and a planned one for each admitted step. -/
theorem get?_admittedSteps {plan : WorkflowPlan} (hkept : PlanKept run)
    (hsteps : WellFormedSteps plan.steps)
    (hgrown : plan.steps = run.plan.steps ++ plan.steps.drop run.plan.steps.length)
    {stepId : String} {record : WorkflowStepRecord} :
    (admittedSteps run.steps (plan.steps.drop run.plan.steps.length)).get? stepId = some record ↔
      run.steps.get? stepId = some record ∨
        ∃ definition ∈ plan.steps.drop run.plan.steps.length,
          definition.id = stepId ∧ admittedStepRecord definition = record := by
  have hnodup := nodup_stepIds hsteps
  rw [hgrown, List.map_append, List.nodup_append] at hnodup
  constructor
  · intro hrecord
    rcases OrderedRecord.get?_foldl_set_cases _ admittedStepRecord hnodup.2.1 hrecord with
      hadded | ⟨-, hold⟩
    · exact Or.inr hadded
    · exact Or.inl hold
  · rintro (hold | ⟨definition, hdefinition, rfl, rfl⟩)
    · obtain ⟨hdefinition, hid⟩ := hkept.planned stepId record hold
      have hfresh : stepId ∉ (plan.steps.drop run.plan.steps.length).map fun step => step.id := by
        intro hmem
        exact hnodup.2.2 stepId (List.mem_map.mpr ⟨record.definition, hdefinition, hid⟩) stepId hmem
          rfl
      unfold admittedSteps
      rw [OrderedRecord.get?_foldl_set_of_not_mem _ admittedStepRecord hfresh]
      exact hold
    · exact OrderedRecord.get?_foldl_set_of_mem _ admittedStepRecord hnodup.2.1 hdefinition _

/-- The run an admission reconciles holds exactly the records of the grown plan. -/
theorem PlanKept.admitted {proposed : List Json} {plan : WorkflowPlan} (hkept : PlanKept run)
    (h : grownPlan run proposed = .ok plan) :
    PlanKept { run with
      plan
      steps := admittedSteps run.steps (plan.steps.drop run.plan.steps.length) } := by
  obtain ⟨hsteps, hgrown⟩ := grownPlan_steps h
  refine ⟨hsteps, ?_, ?_⟩
  · intro definition hdefinition
    dsimp only at hdefinition
    rw [hgrown] at hdefinition
    rcases List.mem_append.mp hdefinition with hold | hnew
    · obtain ⟨record, hrecord, heq⟩ := hkept.recorded definition hold
      exact ⟨record, (get?_admittedSteps hkept hsteps hgrown).mpr (Or.inl hrecord), heq⟩
    · exact ⟨admittedStepRecord definition,
        (get?_admittedSteps hkept hsteps hgrown).mpr (Or.inr ⟨definition, hnew, rfl, rfl⟩), rfl⟩
  · intro stepId record hrecord
    rcases (get?_admittedSteps hkept hsteps hgrown).mp hrecord with hold | ⟨definition, hnew, rfl, rfl⟩
    · obtain ⟨hdefinition, hid⟩ := hkept.planned stepId record hold
      dsimp only
      rw [hgrown]
      exact ⟨List.mem_append_left _ hdefinition, hid⟩
    · exact ⟨List.mem_of_mem_drop hnew, rfl⟩

/-- Every transaction keeps the plan of a run. -/
theorem Transaction.apply_planKept {transaction : Transaction}
    (h : transaction.apply now run = .ok next) (hkept : PlanKept run) : PlanKept next := by
  by_cases hadmission : transaction.isAdmission = true
  · cases transaction with
    | admission request =>
      obtain ⟨-, authority, plan, -, hgrown, -, -, hplan, -, -, -, hsteps, -, -⟩ := admitSteps_ok h
      apply (hkept.admitted hgrown).of_sameDefinitions hplan
      rw [hsteps]
      exact sameDefinitions_of_states (reconciledSteps_sameButStates _ _)
    | _ => cases hadmission
  · obtain ⟨-, hplan, hsame⟩ := apply_sameDefinitions h (Bool.eq_false_iff.mpr hadmission)
    exact hkept.of_sameDefinitions hplan hsame

end BuildConductor.Lifecycle
