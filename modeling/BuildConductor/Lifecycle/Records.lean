import BuildConductor.Lifecycle.Attempts

/-!
# What one write does to a step

Every write updates the record of a step in one way, and a reconciliation may then move a step
that waits. Supports `src/src/engine/engine.ts:252-723`, `src/src/engine/recovery.ts:267-366`,
`src/src/engine/scheduler.ts:39-82`.
-/

namespace BuildConductor.Lifecycle

open Base Domain Security Engine Workflows Storage

/-- A reconciliation leaves a record as it is, or moves a waiting step. -/
def Reconciles (settled later : WorkflowStepRecord) : Prop :=
  later = { settled with state := later.state } ∧
    (later.state = settled.state ∨ settled.state.isWaiting = true ∧
      (later.state = .planned ∨ later.state = .ready ∨ later.state = .blocked))

theorem Reconciles.refl (record : WorkflowStepRecord) : Reconciles record record :=
  ⟨rfl, Or.inl rfl⟩

/-- What a write makes of the record of a step before it reconciles. -/
def Transaction.updates (now : Timestamp) (run : WorkflowRunState) (stepId : String)
    (record settled : WorkflowStepRecord) : Transaction → Prop
  | .reserve attempt =>
    settled =
      if stepId = attempt.stepId ∧ stepId ∈ launchableStepIds run then
        reservedRecord record attempt.id
      else record
  | .settleStep id attempt executed routing =>
    settled =
      if stepId = id then
        settledRecord (settledOutcome executed routing)
          (settlementRetries record.definition attempt executed routing) record
      else record
  | .failStep id message =>
    settled =
      if stepId = id then { record with state := .failed, error := some message } else record
  | .recordIntegration ticket commit =>
    settled =
      if stepId = ticket.stepId then { record with integratedCommit := some commit } else record
  | .recordIntegrationFailure ticket error =>
    settled =
      if stepId = ticket.stepId then
        { record with
          state := .failed
          integrationError := some (integrationFailureMessage ticket.stepId error) }
      else record
  | .settleRun cancelled =>
    settled =
      if isCancelling cancelled run.state = true ∧ isOpenStep record = true then
        { record with state := .cancelled }
      else record
  | .recover decide =>
    (∃ attempt ∈ activeAttempts run, attempt.stepId = stepId ∧
      ∃ settleAttempt settleRecord outcome,
        Settles now (decide attempt) attempt record.definition settleAttempt settleRecord outcome ∧
        settled = settleRecord record) ∨
    (stepId ∉ activeStepIds run ∧
      settled =
        if activeAttempts run ≠ [] ∧ record.state = .blocked then { record with state := .planned }
        else record)
  | .relaunch stopped =>
    settled =
      if record.state = .blocked ∨ (record.state = .failed ∧ stepId ∈ stopped) then
        { record with state := .planned, error := none }
      else record
  | .retry =>
    settled =
      if record.state = .failed ∨ record.state = .blocked then
        { record with state := .planned, error := none, integrationError := none }
      else record
  | .requestCancellation _ | .markRunning _ | .recordWorker _ _ | .admission _ => settled = record

private theorem get?_reconciledSteps (run : WorkflowRunState)
    {steps : OrderedRecord String WorkflowStepRecord} {stepId : String}
    {settled : WorkflowStepRecord} (h : steps.get? stepId = some settled) :
    ∃ later, (reconciledSteps run steps).get? stepId = some later ∧ Reconciles settled later := by
  obtain ⟨state, hlater⟩ :=
    (sameButStates_iff.mp (reconciledSteps_sameButStates run steps)).2 stepId settled h
  obtain ⟨before, hbefore, hsame, hcases⟩ := @reconcile_record { run with steps } _ _ hlater
  rw [show before = settled from Option.some.inj (hbefore.symm.trans h)] at hsame hcases
  exact ⟨_, hlater, hsame, hcases⟩

private theorem get?_set_reconciled (run : WorkflowRunState)
    {steps : OrderedRecord String WorkflowStepRecord} {id stepId : String}
    {updated record : WorkflowStepRecord} (h : steps.get? stepId = some record) :
    ∃ later, (reconciledSteps run (steps.set id updated)).get? stepId = some later ∧
      Reconciles (if stepId = id then updated else record) later := by
  apply get?_reconciledSteps
  rw [OrderedRecord.get?_set]
  split
  · rfl
  · exact h

private theorem isOpenStep_reconciles {settled later : WorkflowStepRecord}
    (h : Reconciles settled later) : isOpenStep later = isOpenStep settled := by
  obtain ⟨-, hkept | ⟨hwaiting, hlater⟩⟩ := h
  · unfold isOpenStep
    rw [hkept]
  · have hopen : isOpenStep settled = true := by
      unfold isOpenStep
      cases hstate : settled.state <;> simp_all [StepRunState.isWaiting]
    rw [hopen]
    unfold isOpenStep
    rcases hlater with hstate | hstate | hstate <;> rw [hstate] <;> rfl

section Write

variable {run next : WorkflowRunState} {now : Timestamp} {stepId : String}
  {record : WorkflowStepRecord}

/-- Recovery settles the record of each step whose attempt it takes, and no other. -/
theorem Recovers.updated {decide : WorkflowStepAttempt → InterruptedAttemptDecision}
    {done : List WorkflowStepAttempt} {steps : OrderedRecord String WorkflowStepRecord}
    {attempts : List WorkflowStepAttempt} {recovered : List RecoveredAttempt}
    (h : Recovers now decide run done steps attempts recovered)
    (hunique : (done.map (·.stepId)).Nodup) (hrecord : run.steps.get? stepId = some record) :
    (∃ attempt ∈ done, attempt.stepId = stepId ∧ ∃ settleAttempt settleRecord outcome,
      Settles now (decide attempt) attempt record.definition settleAttempt settleRecord outcome ∧
      steps.get? stepId = some (settleRecord record)) ∨
    (stepId ∉ done.map (·.stepId) ∧ steps.get? stepId = some record) := by
  induction h with
  | nil => exact Or.inr ⟨List.not_mem_nil, hrecord⟩
  | @snoc done steps attempts recovered attempt found settleAttempt settleRecord outcome _ hfound
      hsettles ih =>
    rw [List.map_append, List.nodup_append] at hunique
    obtain ⟨hbefore, -, hapart⟩ := hunique
    by_cases hid : stepId = attempt.stepId
    · left
      have hfresh : stepId ∉ done.map (·.stepId) := by
        intro hmem
        exact hapart stepId hmem attempt.stepId (List.mem_singleton_self _) hid
      rcases ih hbefore with ⟨earlier, hearlier, hsame, -⟩ | ⟨-, hkept⟩
      · exact absurd (List.mem_map.mpr ⟨earlier, hearlier, hsame⟩) hfresh
      · rw [← hid, hkept, Option.some.injEq] at hfound
        rw [← hfound] at hsettles
        refine ⟨attempt, List.mem_append_right _ (List.mem_singleton_self _), hid.symm,
          settleAttempt, settleRecord, outcome, hsettles, ?_⟩
        rw [hid, OrderedRecord.get?_set_self, hfound]
    · rcases ih hbefore with ⟨earlier, hearlier, hsame, hrest⟩ | ⟨hfresh, hkept⟩
      · left
        refine ⟨earlier, List.mem_append_left _ hearlier, hsame, ?_⟩
        rw [OrderedRecord.get?_set_of_ne _ _ hid]
        exact hrest
      · right
        rw [OrderedRecord.get?_set_of_ne _ _ hid, List.map_append, List.mem_append, not_or]
        exact ⟨⟨hfresh, fun hmem => hid (List.mem_singleton.mp hmem)⟩, hkept⟩

theorem Settles.not_blocked {decision : InterruptedAttemptDecision}
    {interrupted : WorkflowStepAttempt} {definition : StepDefinition}
    {settleAttempt : WorkflowStepAttempt → WorkflowStepAttempt}
    {settleRecord : WorkflowStepRecord → WorkflowStepRecord} {outcome : RecoveryOutcome}
    (h : Settles now decision interrupted definition settleAttempt settleRecord outcome)
    (record : WorkflowStepRecord) : (settleRecord record).state ≠ .blocked := by
  cases h with
  | adopted _ => simp
  | retried _ _ _ => simp
  | failed _ _ => simp

/-- One write updates the record of a step, and a reconciliation may then move it. -/
theorem Transaction.apply_updates {transaction : Transaction}
    (h : transaction.apply now run = .ok next) (hkept : PlanKept run)
    (hunique : (activeStepIds run).Nodup) (hrecord : run.steps.get? stepId = some record) :
    ∃ settled later, transaction.updates now run stepId record settled ∧
      Reconciles settled later ∧ next.steps.get? stepId = some later := by
  have hsame (heq : next.steps = run.steps) : ∃ later, Reconciles record later ∧
      next.steps.get? stepId = some later :=
    ⟨record, Reconciles.refl record, by rw [heq]; exact hrecord⟩
  have hset (id : String) (updated : WorkflowStepRecord)
      (heq : next.steps = reconciledSteps run (run.steps.set id updated)) :
      ∃ later, Reconciles (if stepId = id then updated else record) later ∧
        next.steps.get? stepId = some later := by
    obtain ⟨later, hlater, hreconciles⟩ := @get?_set_reconciled run _ id _ updated _ hrecord
    exact ⟨later, hreconciles, by rw [heq]; exact hlater⟩
  cases transaction with
  | requestCancellation reason =>
    cases h
    obtain ⟨later, hlater⟩ := hsame (requestCancellation_rewrites reason now run).steps
    exact ⟨record, later, rfl, hlater⟩
  | reserve attempt =>
    rcases reserveAttempt_ok h with ⟨hnot, rfl⟩ | ⟨hlaunchable, found, hfound, hwrite⟩
    · refine ⟨record, record, ?_, Reconciles.refl record, hrecord⟩
      rw [updates, if_neg]
      rintro ⟨rfl, hmem⟩
      exact hnot hmem
    · refine ⟨_, _, rfl, Reconciles.refl _, ?_⟩
      rw [hwrite.steps, OrderedRecord.get?_set]
      by_cases hid : stepId = attempt.stepId
      · rw [← hid, hrecord, Option.some.injEq] at hfound
        rw [if_pos hid, if_pos ⟨hid, by rw [hid]; exact hlaunchable⟩, hfound]
      · rw [if_neg hid, if_neg (fun hboth => hid hboth.1)]
        exact hrecord
  | markRunning attemptId =>
    cases h
    obtain ⟨later, hlater⟩ := hsame rfl
    exact ⟨record, later, rfl, hlater⟩
  | recordWorker attemptId workerId =>
    cases h
    obtain ⟨later, hlater⟩ := hsame rfl
    exact ⟨record, later, rfl, hlater⟩
  | settleStep id attempt executed routing =>
    obtain ⟨found, artifactIds, hfound, hwrite⟩ := settleStep_ok h
    obtain ⟨later, hlater⟩ := hset _ _ hwrite.steps
    refine ⟨_, later, ?_, hlater⟩
    by_cases hid : stepId = id
    · rw [← hid, hrecord, Option.some.injEq] at hfound
      rw [updates, if_pos hid, if_pos hid, hfound]
    · rw [updates, if_neg hid, if_neg hid]
  | failStep id message =>
    obtain ⟨found, hfound, hwrite⟩ := failStep_ok h
    obtain ⟨later, hlater⟩ := hset _ _ hwrite.steps
    refine ⟨_, later, ?_, hlater⟩
    by_cases hid : stepId = id
    · rw [← hid, hrecord, Option.some.injEq] at hfound
      rw [updates, if_pos hid, if_pos hid, hfound]
    · rw [updates, if_neg hid, if_neg hid]
  | recordIntegration ticket commit =>
    obtain ⟨found, hfound, hwrite⟩ := recordIntegration_ok h
    obtain ⟨later, hlater⟩ := hset _ _ hwrite.steps
    refine ⟨_, later, ?_, hlater⟩
    by_cases hid : stepId = ticket.stepId
    · rw [← hid, hrecord, Option.some.injEq] at hfound
      rw [updates, if_pos hid, if_pos hid, hfound]
    · rw [updates, if_neg hid, if_neg hid]
  | recordIntegrationFailure ticket error =>
    obtain ⟨found, hfound, hwrite⟩ := recordIntegrationFailure_ok h
    obtain ⟨later, hlater⟩ := hset _ _ hwrite.steps
    refine ⟨_, later, ?_, hlater⟩
    by_cases hid : stepId = ticket.stepId
    · rw [← hid, hrecord, Option.some.injEq] at hfound
      rw [updates, if_pos hid, if_pos hid, hfound]
    · rw [updates, if_neg hid, if_neg hid]
  | settleRun cancelled =>
    cases h
    obtain ⟨later, hlater, hreconciles⟩ := get?_reconciledSteps run hrecord
    have hlater' : (reconcileWorkflowSteps run).steps.get? stepId = some later := hlater
    rw [(settleRun_rewrites cancelled now run).steps, settledSteps]
    by_cases hcancelling : isCancelling cancelled run.state = true
    · rw [if_pos hcancelling]
      simp only [cancelOpenSteps, OrderedRecord.get?_mapValues, hlater', Option.map_some]
      by_cases hopen : isOpenStep record = true
      · refine ⟨_, _, rfl, ?_, rfl⟩
        rw [if_pos ⟨hcancelling, hopen⟩, if_pos ((isOpenStep_reconciles hreconciles).trans hopen)]
        rw [hreconciles.1]
        exact Reconciles.refl _
      · refine ⟨_, _, rfl, ?_, rfl⟩
        rw [if_neg (fun hboth => hopen hboth.2), if_neg]
        · exact hreconciles
        · rw [isOpenStep_reconciles hreconciles]
          exact hopen
    · rw [if_neg hcancelling]
      refine ⟨record, later, ?_, hreconciles, hlater'⟩
      rw [updates, if_neg (fun hboth => hcancelling hboth.1)]
  | recover decide =>
    obtain ⟨⟨settled, recovered⟩, hrecover, rfl⟩ := map_ok_iff.mp h
    obtain ⟨bound, hbound⟩ := exists_number_bound (activeAttempts run)
    obtain ⟨steps, attempts, hrecovers, ⟨hnone, rfl⟩ | ⟨hsome, hwrite⟩⟩ :=
      recoverWorkflowRun_ok hbound hrecover
    · refine ⟨record, record, Or.inr ⟨?_, ?_⟩, Reconciles.refl record, hrecord⟩
      · rw [activeStepIds, hnone]
        exact List.not_mem_nil
      · rw [if_neg (fun hboth => hboth.1 hnone)]
    · have hunblocked : ∀ before, steps.get? stepId = some before → ∃ later,
          Reconciles (if before.state = .blocked then { before with state := .planned } else before)
            later ∧ settled.steps.get? stepId = some later := by
        intro before hbefore
        obtain ⟨later, hlater, hreconciles⟩ := @get?_reconciledSteps run (unblocked steps) stepId
          (if before.state = .blocked then { before with state := .planned } else before)
          (by rw [unblocked, OrderedRecord.get?_mapValues, hbefore]; rfl)
        exact ⟨later, hreconciles, by rw [hwrite.steps]; exact hlater⟩
      rcases hrecovers.updated hunique hrecord with
        ⟨attempt, hattempt, hid, settleAttempt, settleRecord, outcome, hsettles, hsteps⟩ |
        ⟨hfresh, hsteps⟩
      · obtain ⟨later, hlater⟩ := hunblocked _ hsteps
        rw [if_neg (hsettles.not_blocked record)] at hlater
        exact ⟨_, later, Or.inl ⟨attempt, hattempt, hid, _, _, _, hsettles, rfl⟩, hlater⟩
      · obtain ⟨later, hlater⟩ := hunblocked _ hsteps
        refine ⟨_, later, Or.inr ⟨hfresh, ?_⟩, hlater⟩
        by_cases hblocked : record.state = .blocked
        · rw [if_pos hblocked, if_pos ⟨hsome, hblocked⟩]
        · rw [if_neg hblocked, if_neg (fun hboth => hblocked hboth.2)]
  | relaunch stopped =>
    cases h
    obtain ⟨bound, hbound⟩ := exists_attemptIds_bound run
    obtain ⟨later, hlater, hreconciles⟩ := @get?_reconciledSteps run
      (relaunchedSteps stopped run.steps) stepId _
      (by rw [relaunchedSteps, OrderedRecord.get?_mapValues, hrecord]; rfl)
    refine ⟨_, later, rfl, hreconciles, ?_⟩
    rw [(@relaunchSteps_rewrites run now stopped bound hbound).steps]
    exact hlater
  | retry =>
    obtain ⟨bound, hbound⟩ := exists_attemptIds_bound run
    obtain ⟨-, ⟨hnone, hnext⟩ | ⟨-, hwrite⟩⟩ := retrySteps_ok hbound h
    · refine ⟨record, record, ?_, Reconciles.refl record, by rw [hnext]; exact hrecord⟩
      rw [updates, if_neg]
      intro hreset
      have hmem : stepId ∈ retryResetIds run :=
        List.mem_map.mpr ⟨(stepId, record), List.mem_filter.mpr
          ⟨(OrderedRecord.mem_entries_iff _ _ _).mpr hrecord, decide_eq_true hreset⟩, rfl⟩
      rw [hnone] at hmem
      cases hmem
    · obtain ⟨later, hlater, hreconciles⟩ := @get?_reconciledSteps run
        (retriedSteps run.steps) stepId _
        (by rw [retriedSteps, OrderedRecord.get?_mapValues, hrecord]; rfl)
      refine ⟨_, later, rfl, hreconciles, ?_⟩
      rw [hwrite.steps]
      exact hlater
  | admission request =>
    obtain ⟨-, authority, plan, -, hgrown, -, -, -, -, -, -, hsteps, -, -⟩ := admitSteps_ok h
    obtain ⟨hwell, hplan⟩ := grownPlan_steps hgrown
    obtain ⟨later, hlater, hreconciles⟩ := get?_reconciledSteps { run with plan }
      ((get?_admittedSteps hkept hwell hplan).mpr (Or.inl hrecord))
    exact ⟨record, later, rfl, hreconciles, by rw [hsteps]; exact hlater⟩

/-- A record of a step there was none of is a planned one an admission added. -/
theorem Transaction.apply_new_record {transaction : Transaction}
    (h : transaction.apply now run = .ok next) (hkept : PlanKept run)
    {later : WorkflowStepRecord} (hlater : next.steps.get? stepId = some later) :
    (∃ record, run.steps.get? stepId = some record) ∨
      (∃ request, transaction = .admission request) ∧
        Reconciles (admittedStepRecord later.definition) later := by
  by_cases hadmission : transaction.isAdmission = true
  · cases transaction with
    | admission request =>
      obtain ⟨-, authority, plan, -, hgrown, -, -, -, -, -, -, hsteps, -, -⟩ := admitSteps_ok h
      obtain ⟨hwell, hplan⟩ := grownPlan_steps hgrown
      rw [hsteps] at hlater
      obtain ⟨before, hbefore, hsame, hcases⟩ := reconcile_record hlater
      rcases (get?_admittedSteps hkept hwell hplan).mp hbefore with hold | ⟨definition, -, -, rfl⟩
      · exact Or.inl ⟨before, hold⟩
      · right
        refine ⟨⟨request, rfl⟩, ?_, ?_⟩
        · rw [hsame]
          rfl
        · rw [hsame]
          exact hcases
    | _ => cases hadmission
  · left
    obtain ⟨-, -, hsame⟩ := apply_sameDefinitions h (Bool.eq_false_iff.mpr hadmission)
    obtain ⟨record, hrecord, -⟩ := hsame.left hlater
    exact ⟨record, hrecord⟩

end Write

end BuildConductor.Lifecycle
