import BuildConductor.Domain.StepFacts
import BuildConductor.Lifecycle.Numbering
import BuildConductor.Lifecycle.Progress

/-!
# The retry budget

A step that waits has attempts left, so a launch never exceeds the budget: a settlement and a
recovery make a step ready again only when the number of its newest attempt is below it. A
cancelled step, and one that failed for good, is never launched again.
`src/src/engine/retry.ts:22-51`, `src/src/engine/engine.ts:252-537`,
`src/src/engine/recovery.ts:306-346`.
-/

namespace BuildConductor.Lifecycle

open Base Domain Security Engine Workflows Storage

/-- The attempts a step may have. -/
def stepBudget (definition : StepDefinition) : Nat := (stepRetryPolicy definition).maxAttempts

/-- A step that may still be launched without being reopened. -/
def Open (record : WorkflowStepRecord) : Prop :=
  record.state = .planned ∨ record.state = .ready ∨ record.state = .blocked

/-- A record within its budget, with attempts left while the step may be launched. -/
structure WithinBudget (record : WorkflowStepRecord) : Prop where
  bounded : record.attemptIds.length ≤ stepBudget record.definition
  spare : Open record → record.attemptIds.length < stepBudget record.definition

/-- Every step is within its budget. -/
def Budgeted (run : WorkflowRunState) : Prop :=
  ∀ stepId record, run.steps.get? stepId = some record → WithinBudget record

/-- An outcome after which a step is never retried. -/
def StepOutcome.isFinal : StepOutcome → Prop
  | .cancelled _ _ => True
  | .failed _ _ retryable => retryable = some false
  | .succeeded _ _ _ _ => False

theorem open_of_waiting {record : WorkflowStepRecord} (h : record.state.isWaiting = true) :
    Open record := by
  unfold Open
  cases hstate : record.state <;> simp_all [StepRunState.isWaiting]

private theorem WithinBudget.reconciles {settled later : WorkflowStepRecord}
    (h : WithinBudget settled) (hreconciles : Reconciles settled later) : WithinBudget later := by
  obtain ⟨hsame, hcases⟩ := hreconciles
  rw [hsame]
  refine ⟨h.bounded, ?_⟩
  intro hopen
  apply h.spare
  rcases hcases with hkept | ⟨hwaiting, -⟩
  · rw [Open, ← hkept]
    exact hopen
  · exact open_of_waiting hwaiting

private theorem WithinBudget.closed {record settled : WorkflowStepRecord} (h : WithinBudget record)
    (hids : settled.attemptIds = record.attemptIds)
    (hdefinition : settled.definition = record.definition) (hclosed : ¬ Open settled) :
    WithinBudget settled := by
  refine ⟨?_, fun hopen => absurd hopen hclosed⟩
  rw [hids, hdefinition]
  exact h.bounded

private theorem WithinBudget.same_state {record settled : WorkflowStepRecord}
    (h : WithinBudget record) (hids : settled.attemptIds = record.attemptIds)
    (hdefinition : settled.definition = record.definition)
    (hopen : Open settled → Open record) : WithinBudget settled := by
  constructor
  · rw [hids, hdefinition]
    exact h.bounded
  · intro hsettled
    rw [hids, hdefinition]
    exact h.spare (hopen hsettled)

private theorem WithinBudget.spared {record settled : WorkflowStepRecord}
    (hspare : record.attemptIds.length < stepBudget record.definition)
    (hids : settled.attemptIds = record.attemptIds)
    (hdefinition : settled.definition = record.definition) : WithinBudget settled := by
  constructor
  · rw [hids, hdefinition]
    omega
  · intro _
    rw [hids, hdefinition]
    exact hspare

/-- A settlement retries only an attempt below the budget. -/
theorem settlementRetries_below {definition : StepDefinition} {attempt : WorkflowStepAttempt}
    {executed : StepExecutionResult} {routing : Except RoutingFailure (List ArtifactSummary)}
    (h : settlementRetries definition attempt executed routing = true) :
    attempt.number < stepBudget definition ∧
      ¬ StepOutcome.isFinal (settledOutcome executed routing) := by
  have hclass := of_decide_eq_true h
  unfold classifyStepFailure at hclass
  cases houtcome : settledOutcome executed routing with
  | succeeded summary workerId commit evidence => simp [houtcome] at hclass
  | cancelled error workerId => simp [houtcome] at hclass
  | failed error workerId retryable =>
    rw [houtcome] at hclass
    dsimp only at hclass
    by_cases hretryable : retryable = some false
    · rw [if_pos hretryable] at hclass
      simp at hclass
    · rw [if_neg hretryable] at hclass
      by_cases hexhausted : (stepRetryPolicy definition).maxAttempts ≤ attempt.number
      · rw [if_pos hexhausted] at hclass
        simp at hclass
      · refine ⟨?_, hretryable⟩
        unfold stepBudget
        omega

section Write

variable {run next : WorkflowRunState} {now : Timestamp} {transaction : Transaction}
  {stepId : String} {record settled : WorkflowStepRecord}

/-- What a write makes of a record stays within the budget, when it settles the newest attempt of
the step. -/
private theorem updates_withinBudget (h : WithinBudget record)
    (hupdates : transaction.updates now run stepId record settled)
    (hretry : transaction ≠ .retry) (hrelaunch : ∀ stopped, transaction ≠ .relaunch stopped)
    (hrecord : run.steps.get? stepId = some record) (hnumbered : Numbered run)
    (hsettles : ∀ id attempt executed routing,
      transaction = .settleStep id attempt executed routing → attempt.stepId = id ∧
        ∃ stored ∈ run.attempts, SameAttempt attempt stored ∧ stored.state.isActive = true) :
    WithinBudget settled := by
  have hnewest : ∀ stored ∈ run.attempts, stored.state.isActive = true → stored.stepId = stepId →
      stored.number = record.attemptIds.length := by
    intro stored hstored hactive hid
    rw [hnumbered.newest stored hstored hactive, hid, hnumbered.ids stepId record hrecord,
      List.length_map]
  cases transaction with
  | reserve attempt =>
    rw [Transaction.updates] at hupdates
    rw [hupdates]
    split
    · next hlaunch =>
      obtain ⟨-, -, -, before, hbefore, hwaiting, -⟩ := launchable_facts hlaunch.2
      rw [hrecord, Option.some.injEq] at hbefore
      rw [← hbefore] at hwaiting
      have hspare := h.spare (open_of_waiting hwaiting)
      refine ⟨?_, ?_⟩
      · rw [reservedRecord, List.length_append, List.length_singleton]
        exact hspare
      · rintro (hstate | hstate | hstate) <;> cases hstate
    · exact h
  | settleStep id attempt executed routing =>
    rw [Transaction.updates] at hupdates
    rw [hupdates]
    split
    · next hid =>
      obtain ⟨hstep, stored, hstored, hsame, hactive⟩ := hsettles id attempt executed routing rfl
      unfold settledRecord
      split
      · exact h.closed rfl rfl (by simp [Open])
      · split
        · next hretries =>
          have hbelow := (settlementRetries_below hretries).1
          rw [← hsame.number, hnewest stored hstored hactive (by rw [hsame.stepId, hstep, hid])]
            at hbelow
          exact WithinBudget.spared hbelow rfl rfl
        · exact h.closed rfl rfl (by simp [Open])
      · exact h.closed rfl rfl (by simp [Open])
    · exact h
  | failStep id message | recordIntegrationFailure ticket error =>
    rw [Transaction.updates] at hupdates
    rw [hupdates]
    split
    · exact h.closed rfl rfl (by simp [Open])
    · exact h
  | settleRun cancelled =>
    rw [Transaction.updates] at hupdates
    rw [hupdates]
    split
    · exact h.closed rfl rfl (by simp [Open])
    · exact h
  | recordIntegration ticket commit =>
    rw [Transaction.updates] at hupdates
    rw [hupdates]
    split
    · exact h.same_state rfl rfl id
    · exact h
  | recover decide =>
    rcases hupdates with ⟨attempt, hattempt, hid, settleAttempt, settleRecord, outcome, hsettles,
      rfl⟩ | ⟨-, rfl⟩
    · obtain ⟨hstored, hactive⟩ := List.mem_filter.mp hattempt
      cases hsettles with
      | adopted _ =>
        exact h.closed rfl rfl (by simp [Open])
      | retried _ _ hbelow =>
        rw [hnewest attempt hstored hactive hid] at hbelow
        exact WithinBudget.spared hbelow rfl rfl
      | failed _ _ =>
        exact h.closed rfl rfl (by simp [Open])
    · split
      · next hblocked => exact h.same_state rfl rfl fun _ => Or.inr (Or.inr hblocked.2)
      · exact h
  | relaunch stopped => exact absurd rfl (hrelaunch stopped)
  | retry => exact absurd rfl hretry
  | requestCancellation reason | markRunning attemptId | recordWorker attemptId workerId
  | admission request =>
    rw [Transaction.updates] at hupdates
    rw [hupdates]
    exact h

private theorem Budgeted.apply (h : Budgeted run) (happly : transaction.apply now run = .ok next)
    (hkept : PlanKept run) (hkept' : PlanKept next) (hunique : (activeStepIds run).Nodup)
    (hretry : transaction ≠ .retry) (hrelaunch : ∀ stopped, transaction ≠ .relaunch stopped)
    (hnumbered : Numbered run) (hbudget : ∀ step ∈ next.plan.steps, 1 ≤ stepBudget step)
    (hsettles : ∀ id attempt executed routing,
      transaction = .settleStep id attempt executed routing → attempt.stepId = id ∧
        ∃ stored ∈ run.attempts, SameAttempt attempt stored ∧ stored.state.isActive = true) :
    Budgeted next := by
  intro stepId later hlater
  cases hbefore : run.steps.get? stepId with
  | none =>
    rcases Transaction.apply_new_record happly hkept hlater with ⟨record, hrecord⟩ | ⟨-, hnew⟩
    · rw [hbefore] at hrecord
      cases hrecord
    · have hpos := hbudget later.definition (hkept'.planned stepId later hlater).1
      apply WithinBudget.reconciles _ hnew
      exact ⟨Nat.zero_le _, fun _ => hpos⟩
  | some record =>
    obtain ⟨settled, found, hupdates, hreconciles, hfound⟩ :=
      Transaction.apply_updates happly hkept hunique hbefore
    rw [hlater, Option.some.injEq] at hfound
    rw [hfound]
    apply WithinBudget.reconciles _ hreconciles
    exact updates_withinBudget (h stepId record hbefore) hupdates hretry hrelaunch hbefore hnumbered
      hsettles

/-! ## Steps that are never launched again -/

/-- A step has ended without success and no attempt of it is active. -/
structure Concluded (run : WorkflowRunState) (stepId : String) : Prop where
  closed : ∃ record, run.steps.get? stepId = some record ∧
    (record.state = .failed ∨ record.state = .cancelled)
  idle : stepId ∉ activeStepIds run

private theorem Concluded.not_launchable (h : Concluded run stepId) :
    stepId ∉ launchableStepIds run := by
  intro hlaunch
  obtain ⟨record, hrecord, hclosed⟩ := h.closed
  obtain ⟨-, -, -, before, hbefore, hwaiting, -⟩ := launchable_facts hlaunch
  rw [hrecord, Option.some.injEq] at hbefore
  rw [← hbefore] at hwaiting
  rcases hclosed with hstate | hstate <;> rw [hstate] at hwaiting <;> cases hwaiting

private theorem Reconciles.closed {settled later : WorkflowStepRecord}
    (h : Reconciles settled later) (hclosed : settled.state = .failed ∨ settled.state = .cancelled) :
    later.state = .failed ∨ later.state = .cancelled := by
  rcases h.2 with hkept | ⟨hwaiting, -⟩
  · rw [hkept]
    exact hclosed
  · rcases hclosed with hstate | hstate <;> rw [hstate] at hwaiting <;> cases hwaiting

/-- No write but a reopening opens a concluded step again, or adds an attempt of it. -/
private theorem Concluded.apply (h : Concluded run stepId)
    (happly : transaction.apply now run = .ok next) (hkept : PlanKept run)
    (hunique : (activeStepIds run).Nodup) (hretry : transaction ≠ .retry)
    (hrelaunch : ∀ stopped, transaction ≠ .relaunch stopped)
    (hmark : ∀ attemptId, transaction = .markRunning attemptId →
      ∀ attempt ∈ run.attempts, attempt.id = attemptId → attempt.state.isActive = true)
    (hsettles : ∀ id attempt executed routing,
      transaction = .settleStep id attempt executed routing → attempt.stepId = id ∧
        ∃ stored ∈ run.attempts, SameAttempt attempt stored ∧ stored.state.isActive = true) :
    Concluded next stepId ∧
      (attemptsOf next stepId).map (·.id) = (attemptsOf run stepId).map (·.id) := by
  obtain ⟨record, hrecord, hclosed⟩ := h.closed
  refine ⟨⟨?_, ?_⟩, ?_⟩
  · obtain ⟨settled, later, hupdates, hreconciles, hlater⟩ :=
      Transaction.apply_updates happly hkept hunique hrecord
    refine ⟨later, hlater, hreconciles.closed ?_⟩
    cases transaction with
    | reserve attempt =>
      rw [Transaction.updates, if_neg (fun hboth => h.not_launchable hboth.2)] at hupdates
      rw [hupdates]
      exact hclosed
    | settleStep id attempt executed routing =>
      rw [Transaction.updates, if_neg] at hupdates
      · rw [hupdates]
        exact hclosed
      · intro hid
        obtain ⟨hstep, stored, hstored, hsame, hactive⟩ := hsettles id attempt executed routing rfl
        apply h.idle
        rw [hid, ← hstep, ← hsame.stepId]
        exact mem_activeStepIds_iff.mpr ⟨stored, hstored, hactive, rfl⟩
    | failStep id message | recordIntegrationFailure ticket error =>
      rw [Transaction.updates] at hupdates
      rw [hupdates]
      split
      · exact Or.inl rfl
      · exact hclosed
    | settleRun cancelled =>
      rw [Transaction.updates] at hupdates
      rw [hupdates]
      split
      · exact Or.inr rfl
      · exact hclosed
    | recordIntegration ticket commit =>
      rw [Transaction.updates] at hupdates
      rw [hupdates]
      split <;> exact hclosed
    | recover decide =>
      rcases hupdates with ⟨attempt, hattempt, hid, -⟩ | ⟨-, rfl⟩
      · exact absurd (List.mem_map.mpr ⟨attempt, hattempt, hid⟩) h.idle
      · rw [if_neg]
        · exact hclosed
        · rintro ⟨-, hblocked⟩
          rcases hclosed with hstate | hstate <;> rw [hstate] at hblocked <;> cases hblocked
    | relaunch stopped => exact absurd rfl (hrelaunch stopped)
    | retry => exact absurd rfl hretry
    | requestCancellation reason | markRunning attemptId | recordWorker attemptId workerId
    | admission request =>
      rw [Transaction.updates] at hupdates
      rw [hupdates]
      exact hclosed
  · intro hactive
    obtain ⟨later, hlater, hlive, hid⟩ := mem_activeStepIds_iff.mp hactive
    rcases Transaction.apply_active_attempt happly hmark hlater hlive with
      ⟨stored, hstored, hbefore, -, hsame⟩ | ⟨-, hlaunch⟩
    · apply h.idle
      rw [← hid, hsame.stepId]
      exact mem_activeStepIds_iff.mpr ⟨stored, hstored, hbefore, rfl⟩
    · rw [hid] at hlaunch
      exact h.not_launchable hlaunch
  · rcases Transaction.apply_attemptsOf happly with ⟨attempt, -, hlaunch, hattempts⟩ |
      ⟨-, f, hf, hattempts⟩
    · rw [hattempts, if_neg, List.append_nil]
      rintro rfl
      exact h.not_launchable hlaunch
    · rw [hattempts, List.map_map]
      apply List.map_congr_left
      intro x _
      exact (hf x).id

/-- A settlement with a final outcome concludes the step. -/
private theorem concluded_of_settlement {attempt : WorkflowStepAttempt}
    {executed : StepExecutionResult} {routing : Except RoutingFailure (List ArtifactSummary)}
    (happly : (Transaction.settleStep stepId attempt executed routing).apply now run = .ok next)
    (hkept : PlanKept run) (hunique : (activeStepIds run).Nodup)
    (hfinal : StepOutcome.isFinal (settledOutcome executed routing))
    (hstored : attempt.stepId = stepId ∧
      ∃ stored ∈ run.attempts, SameAttempt attempt stored ∧ stored.state.isActive = true) :
    Concluded next stepId := by
  obtain ⟨hstep, stored, hstored, hsame, hactive⟩ := hstored
  obtain ⟨record, artifactIds, hrecord, -⟩ := settleStep_ok happly
  constructor
  · obtain ⟨settled, later, hupdates, hreconciles, hlater⟩ :=
      Transaction.apply_updates happly hkept hunique hrecord
    refine ⟨later, hlater, hreconciles.closed ?_⟩
    rw [Transaction.updates, if_pos rfl] at hupdates
    rw [hupdates]
    have hnot : settlementRetries record.definition attempt executed routing = false := by
      rw [Bool.eq_false_iff]
      intro hretries
      exact (settlementRetries_below hretries).2 hfinal
    rw [hnot]
    cases houtcome : settledOutcome executed routing with
    | succeeded summary workerId commit evidence =>
      rw [houtcome] at hfinal
      cases hfinal
    | failed error workerId retryable => exact Or.inl rfl
    | cancelled error workerId => exact Or.inr rfl
  · intro hmem
    obtain ⟨later, hlater, hlive, hid⟩ := mem_activeStepIds_iff.mp hmem
    rcases Transaction.apply_active_attempt happly (by simp) hlater hlive with
      ⟨other, hother, hbefore, hopen, hsame'⟩ | ⟨hno, -⟩
    · -- The step had one active attempt, and the settlement ends it.
      have hsameStep : other.stepId = stored.stepId := by
        rw [← hsame'.stepId, hid, hsame.stepId, hstep]
      have heq : other = stored :=
        List.inj_on_of_nodup_map hunique (List.mem_filter.mpr ⟨hother, hbefore⟩)
          (List.mem_filter.mpr ⟨hstored, hactive⟩) hsameStep
      apply hopen
      rw [heq]
      exact hsame.id
    · cases hno

end Write

/-! ## Counting launches -/

/-- A list is no longer than the bounds of its classes allow. -/
private theorem length_le_sum {α κ : Type} [DecidableEq κ] {key : α → κ} {bound : κ → Nat}
    {keys : List κ} {xs : List α} (hmem : ∀ x ∈ xs, key x ∈ keys)
    (hbound : ∀ k ∈ keys, (xs.filter fun x => key x = k).length ≤ bound k) :
    xs.length ≤ (keys.map bound).sum := by
  induction keys generalizing xs with
  | nil =>
    cases xs with
    | nil => exact Nat.zero_le _
    | cons x xs => cases hmem x (List.mem_cons_self ..)
  | cons k keys ih =>
    have hsplit := List.length_eq_length_filter_add (l := xs) fun x => decide (key x = k)
    have hfirst := hbound k (List.mem_cons_self ..)
    have hrest : (xs.filter fun x => !decide (key x = k)).length ≤ (keys.map bound).sum := by
      apply ih
      · intro x hx
        obtain ⟨hxs, hne⟩ := List.mem_filter.mp hx
        rcases List.mem_cons.mp (hmem x hxs) with heq | hkeys
        · rw [heq] at hne
          simp at hne
        · exact hkeys
      · intro other hother
        have hsub : ((xs.filter fun x => !decide (key x = k)).filter fun x => key x = other).length ≤
            (xs.filter fun x => key x = other).length :=
          (List.filter_sublist.filter _).length_le
        have hle := hbound other (List.mem_cons_of_mem _ hother)
        omega
    rw [List.map_cons, List.sum_cons]
    omega

/-! ## Whole runs -/

section Runs

variable {accepts : WorkflowRunState → Prop} {world later : World} {transaction : Transaction}

/-- The engine without user retries and relaunches. -/
def unreopenedSystem (accepts : WorkflowRunState → Prop) : TransitionSystem World Action :=
  (engineSystem PlanValidated accepts).restrict Unreopened

private theorem not_reopening (h : Unreopened world (.write transaction)) :
    transaction ≠ .retry ∧ ∀ stopped, transaction ≠ .relaunch stopped := by
  constructor
  · rintro rfl
    exact h
  · rintro stopped rfl
    exact h

private theorem budgets_pos (h : (engineSystem PlanValidated accepts).Reachable world) :
    ∀ step ∈ world.run.plan.steps, 1 ≤ stepBudget step :=
  fun step hstep => (validateWorkflowPlan_steps (planNormal_reachable h) step hstep).budget_pos

private theorem budgeted_reachable (h : (unreopenedSystem accepts).Reachable world) :
    Budgeted world.run := by
  apply h.invariant
  · intro s hstarts
    have hreach : (engineSystem PlanValidated accepts).Reachable s := .of_initial hstarts
    have hkept := planKept_reachable hreach
    obtain ⟨input, -, hcreate⟩ := hstarts.input
    intro stepId record hrecord
    have hpos := budgets_pos hreach record.definition (hkept.planned stepId record hrecord).1
    rw [(createWorkflowRunState_ok hcreate).initial hkept hrecord]
    exact ⟨Nat.zero_le _, fun _ => hpos⟩
  · intro s a t hreach hbudgeted hstep
    have hbefore := hreach.of_restrict
    rcases Step.run_cases hstep.2 with hsame | ⟨transaction, now, rfl, happly⟩
    · rw [hsame]
      exact hbudgeted
    · have hafter := hbefore.step hstep.2
      obtain ⟨hretry, hrelaunch⟩ := not_reopening hstep.1
      exact hbudgeted.apply happly (planKept_reachable hbefore) (planKept_reachable hafter)
        (exclusive_reachable hbefore).single hretry hrelaunch (numbered_reachable hbefore)
        (budgets_pos hafter) ((tracked_reachable hbefore).settles_active hstep.2)

private theorem concluded_runs {stepId : String} (hreach : (unreopenedSystem accepts).Reachable world)
    (h : Concluded world.run stepId) (hruns : (unreopenedSystem accepts).Runs world later) :
    Concluded later.run stepId ∧
      (attemptsOf later.run stepId).map (·.id) = (attemptsOf world.run stepId).map (·.id) := by
  induction hruns with
  | refl => exact ⟨h, rfl⟩
  | snoc hruns hstep ih =>
    obtain ⟨hconcluded, hids⟩ := ih
    have hbefore := (hreach.runs hruns).of_restrict
    rcases Step.run_cases hstep.2 with hsame | ⟨transaction, now, rfl, happly⟩
    · rw [hsame]
      exact ⟨hconcluded, hids⟩
    · obtain ⟨hretry, hrelaunch⟩ := not_reopening hstep.1
      obtain ⟨hafter, hkept⟩ := hconcluded.apply happly (planKept_reachable hbefore)
        (exclusive_reachable hbefore).single hretry hrelaunch ((tracked_reachable hbefore).marks_active hstep.2)
        ((tracked_reachable hbefore).settles_active hstep.2)
      exact ⟨hafter, hkept.trans hids⟩

end Runs

end BuildConductor.Lifecycle
