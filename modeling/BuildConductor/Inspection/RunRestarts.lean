import BuildConductor.Domain.RunRecovery
import BuildConductor.Inspection.RunControl
import BuildConductor.Storage.RunRewriting

/-!
# Restarting a run that keeps its own attempts

Recovery after a restart and the retry of a failed run both rewrite a stored run. A recovered run is
one the store accepts, and so is a run whose failed steps are tried again. A run whose final
validation is tried again counts as reviewed, which the store accepts only when its reviews stand.
`src/src/domain/run.ts:321-412`, `src/src/inspection/run-control.ts:264-322`.
-/

namespace BuildConductor.Inspection

open Base Domain Storage.RunStore

variable {sha256Hex : String → String} {localeCompare : LocaleOrder}

/-! ## Tasks rewritten and recomputed -/

section Passes

variable {tasks : OrderedRecord String RunTask} {rewrite : String → RunTask → RunTask}
  {order : List String}

/-- A task after a pass over rewritten tasks is the rewritten task, reconciled. -/
private theorem pass_cases {id : String} {after : RunTask}
    (hget : (order.foldl reconcileTask (tasks.mapValues rewrite)).get? id = some after) :
    ∃ before, tasks.get? id = some before ∧ Reconciled (rewrite id before) after := by
  obtain ⟨mid, hmid, hreconciled⟩ :=
    (foldl_reconcileTask order (tasks.mapValues rewrite)).2.left hget
  rw [OrderedRecord.get?_mapValues, Option.map_eq_some_iff] at hmid
  obtain ⟨before, hbefore, rfl⟩ := hmid
  exact ⟨before, hbefore, hreconciled⟩

private theorem pass_rewrites (hrewrite : ∀ id before after, tasks.get? id = some before →
    Reconciled (rewrite id before) after → TaskRewrite before after) :
    TasksRewrite tasks (order.foldl reconcileTask (tasks.mapValues rewrite)) := by
  obtain ⟨hkeys, hpass⟩ := foldl_reconcileTask order (tasks.mapValues rewrite)
  refine ⟨hkeys.trans (OrderedRecord.keys_mapValues _ _), fun id => ?_⟩
  have hid := hpass id
  rw [OrderedRecord.get?_mapValues] at hid
  cases hbefore : tasks.get? id with
  | none =>
    rw [hbefore] at hid
    cases hafter : (order.foldl reconcileTask (tasks.mapValues rewrite)).get? id with
    | none => exact Option.Rel.none
    | some after =>
      rw [hafter] at hid
      cases hid
  | some before =>
    obtain ⟨after, hafter, hreconciled⟩ := hpass.right
      (show (tasks.mapValues rewrite).get? id = some (rewrite id before) by
        rw [OrderedRecord.get?_mapValues, hbefore]; rfl)
    rw [hafter]
    exact Option.Rel.some (hrewrite id before after hbefore hreconciled)

end Passes

/-! ## What an accepted run says about its tasks -/

section Facts

variable {run : OrchestrationRun} {plan : TaskPlan} {order : List String}
  (h : Accepted sha256Hex localeCompare run plan order)

include h

private theorem task_facts {id : String} {task : RunTask} (hget : run.tasks.get? id = some task) :
    (task.integrationError ≠ none → task.state = .failed) ∧
      (task.integratedCommit ≠ none → task.state = .succeeded) := by
  have hrecords := h.records
  unfold validateRecords at hrecords
  rw [seq_ok_iff] at hrecords
  have hid : id ∈ run.tasks.keys := by
    rw [OrderedRecord.mem_keys_iff, hget]
    rfl
  obtain ⟨definition, -, rfl, hchecked⟩ :=
    validateTasks_checked (validateTaskPlan_valid h.read) hrecords.1 hid
  unfold validateTask at hchecked
  simp only [bind_ok_iff, require_ok_iff, exists_unit_iff, ensure_ok_iff] at hchecked
  obtain ⟨found, hfound, -, -, -, -, hcommit, herror⟩ := hchecked
  rw [hget, Option.some.injEq] at hfound
  subst hfound
  exact ⟨fun hsome => herror.resolve_left hsome, fun hsome => hcommit.resolve_left hsome⟩

private theorem active_facts {id : String} {task : RunTask} (hget : run.tasks.get? id = some task) :
    (task.state.isRunning = true → id ∈ (activeTaskAttempts run).map (·.taskId)) ∧
      (task.state = .succeeded → task.attemptIds.any (fun attemptId =>
        (run.attempts.find? fun attempt => attempt.id = attemptId).map (·.state) =
          some .succeeded)) := by
  have hrecords := h.records
  unfold validateRecords validateActiveWork at hrecords
  simp only [seq_ok_iff, forM_ok_iff] at hrecords
  have htask := hrecords.2.2.2.2.2.2.2.2.2.2.2.2.2.2.2.2.1.2.2 (id, task)
    ((OrderedRecord.mem_entries_iff _ _ _).mpr hget)
  unfold validateActiveTask at htask
  rw [seq_ok_iff, ensure_ok_iff, ensure_ok_iff] at htask
  exact htask

private theorem find?_attempt {attempt : TaskAttempt} (hmem : attempt ∈ run.attempts) :
    (run.attempts.find? fun other => other.id = attempt.id) = some attempt := by
  have hrecords := h.records
  unfold validateRecords at hrecords
  simp only [seq_ok_iff] at hrecords
  have hattempts := hrecords.2.2.1
  unfold validateAttempts at hattempts
  rw [forEachAfter_ok_iff] at hattempts
  obtain ⟨before, after, hsplit⟩ := List.append_of_mem hmem
  have hchecked := hattempts before attempt after hsplit
  unfold validateAttempt at hchecked
  rw [List.nil_append] at hchecked
  have hfresh : attempt.id ∉ before.map (·.id) := by
    split at hchecked <;> simp only [seq_ok_iff, ensure_ok_iff] at hchecked
    · exact hchecked.2.2.2.2.2.2.2.2.2.2.2.2
    · exact hchecked.2.2.2.2.2.2.2.2.2.2
  have hnone : (before.find? fun other => decide (other.id = attempt.id)) = none := by
    rw [List.find?_eq_none]
    intro other hother hsame
    rw [decide_eq_true_eq] at hsame
    exact hfresh (List.mem_map.mpr ⟨other, hother, hsame⟩)
  rw [hsplit, List.find?_append, hnone]
  simp

private theorem ordered_again : topologicalTaskIds run.plan = .ok (topologicalIds plan.nodes) := by
  unfold topologicalTaskIds
  rw [h.read]
  rfl

private theorem reconcileTaskStates_eq {next : OrchestrationRun} (hplan : next.plan = run.plan) :
    reconcileTaskStates next = .ok
      { next with tasks := (topologicalIds plan.nodes).foldl reconcileTask next.tasks } := by
  unfold reconcileTaskStates
  rw [hplan, ordered_again h]
  rfl

end Facts

/-! ## Recovery -/

private theorem interruptTaskAttempt_interrupts (now : Timestamp) :
    InterruptsTasks (interruptTaskAttempt now) := by
  intro attempt
  unfold interruptTaskAttempt
  split
  · next hactive => exact Or.inr ⟨hactive, _, _, rfl⟩
  · exact Or.inl rfl

private theorem interruptReviewAttempt_interrupts (now : Timestamp) :
    InterruptsReviews (interruptReviewAttempt now) := by
  intro attempt
  unfold interruptReviewAttempt
  split
  · next hactive => exact Or.inr ⟨hactive, _, _, rfl⟩
  · exact Or.inl rfl

private theorem interruptRepairAttempt_interrupts (now : Timestamp) :
    InterruptsRepairs (interruptRepairAttempt now) := by
  intro attempt
  unfold interruptRepairAttempt
  split
  · next hactive => exact Or.inr ⟨hactive, _, _, rfl⟩
  · exact Or.inl rfl

private theorem interruptFinalAttempt_interrupts (now : Timestamp) :
    InterruptsFinals (interruptFinalAttempt now) := by
  intro attempt
  unfold interruptFinalAttempt
  split
  · next hrunning =>
    exact Or.inr ⟨hrunning, now.text, restartMessage, now.nonempty, by decide, rfl⟩
  · exact Or.inl rfl

/-- Nothing of the run is under way. -/
structure NothingUnderWay (run : OrchestrationRun) : Prop where
  attempts : ∀ attempt ∈ run.attempts, attempt.state.isActive = false
  reviewAttempts : ∀ attempt ∈ run.reviewAttempts, attempt.state.isActive = false
  repairAttempts : ∀ attempt ∈ run.repairAttempts, attempt.state.isActive = false
  finalValidationAttempts : ∀ attempt ∈ run.finalValidationAttempts, attempt.state ≠ .running
  tasks : ∀ id task, run.tasks.get? id = some task → task.state.isRunning = false
  blockedWorkers : run.blockedWorkers = []

/-- Attempts that had ended stay as they are, and what was integrated stays integrated. -/
structure KeepsEnded (before after : OrchestrationRun) : Prop where
  attempts : List.Forall₂ (fun a b => a.state.isActive = false → b = a)
    before.attempts after.attempts
  reviewAttempts : List.Forall₂ (fun a b => a.state.isActive = false → b = a)
    before.reviewAttempts after.reviewAttempts
  repairAttempts : List.Forall₂
    (fun a b => b.integratedCommit = a.integratedCommit ∧ (a.state.isActive = false → b = a))
    before.repairAttempts after.repairAttempts
  finalValidationAttempts : List.Forall₂ (fun a b => a.state ≠ .running → b = a)
    before.finalValidationAttempts after.finalValidationAttempts
  integratedCommits : ∀ id, (after.tasks.get? id).bind (·.integratedCommit) =
    (before.tasks.get? id).bind (·.integratedCommit)
  integrationHead : after.integrationHead = before.integrationHead

private theorem isInterrupted_iff {run : OrchestrationRun} :
    isInterrupted run = false ↔ NothingUnderWay run := by
  unfold isInterrupted
  rw [decide_eq_false_iff_not]
  simp only [not_or, not_not, Bool.not_eq_true, List.any_eq_false, decide_eq_true_eq, ne_eq]
  constructor
  · rintro ⟨hblocked, htasks, hreviews, hrepairs, hfinals, hrecords⟩
    refine ⟨htasks, hreviews, hrepairs, hfinals, fun id task hget => ?_, hblocked⟩
    exact hrecords task ((OrderedRecord.mem_values_iff _ _).mpr ⟨id, hget⟩)
  · intro h
    refine ⟨h.blockedWorkers, h.attempts, h.reviewAttempts, h.repairAttempts,
      h.finalValidationAttempts, fun task hmem => ?_⟩
    obtain ⟨id, hget⟩ := (OrderedRecord.mem_values_iff _ _).mp hmem
    exact h.tasks id task hget

private theorem interruptTaskAttempt_inactive (now : Timestamp) (attempt : TaskAttempt) :
    (interruptTaskAttempt now attempt).state.isActive = false := by
  unfold interruptTaskAttempt
  split
  · rfl
  · next hactive => exact Bool.eq_false_iff.mpr hactive

private theorem interruptReviewAttempt_inactive (now : Timestamp) (attempt : ReviewAttempt) :
    (interruptReviewAttempt now attempt).state.isActive = false := by
  unfold interruptReviewAttempt
  split
  · rfl
  · next hactive => exact Bool.eq_false_iff.mpr hactive

private theorem interruptRepairAttempt_inactive (now : Timestamp) (attempt : RepairAttempt) :
    (interruptRepairAttempt now attempt).state.isActive = false := by
  unfold interruptRepairAttempt
  split
  · rfl
  · next hactive => exact Bool.eq_false_iff.mpr hactive

private theorem interruptFinalAttempt_ended (now : Timestamp) (attempt : FinalValidationAttempt) :
    (interruptFinalAttempt now attempt).state ≠ .running := by
  unfold interruptFinalAttempt
  split
  · simp
  · next hrunning => exact hrunning

/-- A task that was under way is planned again, and every other task is kept. -/
private theorem replanTask_cases (task : RunTask) :
    task.state.isRunning = true ∧ replanTask task = { task with state := .planned } ∨
      task.state.isRunning = false ∧ replanTask task = task := by
  unfold replanTask
  split
  · next hrunning => exact Or.inl ⟨hrunning, rfl⟩
  · next hrunning => exact Or.inr ⟨Bool.eq_false_iff.mpr hrunning, rfl⟩

/-- The tasks of a recovered run. -/
def recoveredTasks (run : OrchestrationRun) (plan : TaskPlan) : OrderedRecord String RunTask :=
  (topologicalIds plan.nodes).foldl reconcileTask (run.tasks.mapValues fun _ task => replanTask task)

private theorem isKept_of_running {state : TaskState} (h : state.isRunning = true) :
    state.isKept = true := by
  cases state <;> first | rfl | cases h

private theorem recoveredTasks_idle {run : OrchestrationRun} {plan : TaskPlan} {id : String}
    {task : RunTask} (hget : (recoveredTasks run plan).get? id = some task) :
    task.state.isRunning = false := by
  obtain ⟨before, -, hreconciled⟩ := pass_cases hget
  by_contra hrunning
  rw [Bool.not_eq_false] at hrunning
  have hstate := hreconciled.state_of_kept (isKept_of_running hrunning)
  rcases replanTask_cases before with ⟨-, heq⟩ | ⟨hidle, heq⟩
  · rw [hstate, heq] at hrunning
    cases hrunning
  · rw [hstate, heq, hidle] at hrunning
    cases hrunning

/-- What recovery rewrites. -/
def recoveryRewriting (run : OrchestrationRun) (plan : TaskPlan) (now : Timestamp) : Rewriting where
  revision := run.revision
  state := if run.state = .validating then .reviewed else run.state
  tasks := recoveredTasks run plan
  onTask := interruptTaskAttempt now
  onReview := interruptReviewAttempt now
  onRepair := interruptRepairAttempt now
  onFinal := interruptFinalAttempt now
  blockedWorkers := []
  updatedAt := now.text

section Recovery

variable {run : OrchestrationRun} {plan : TaskPlan} {order : List String}
  (h : Accepted sha256Hex localeCompare run plan order)

include h

private theorem recoveredTasks_rewrite : TasksRewrite run.tasks (recoveredTasks run plan) := by
  apply pass_rewrites
  intro id before after hget hreconciled
  obtain ⟨herror, hcommit⟩ := task_facts h hget
  rcases replanTask_cases before with ⟨hrunning, heq⟩ | ⟨hidle, heq⟩
  · rw [heq] at hreconciled
    have hnone : before.integrationError = none := by
      by_contra hsome
      rw [herror hsome] at hrunning
      cases hrunning
    refine ⟨hreconciled.definition, hreconciled.attemptIds, hreconciled.integratedCommit,
      Or.inl (hreconciled.integrationError.trans hnone), fun hsome => ?_⟩
    rw [hcommit hsome] at hrunning
    cases hrunning
  · rw [heq] at hreconciled
    refine ⟨hreconciled.definition, hreconciled.attemptIds, hreconciled.integratedCommit, ?_,
      fun hsome => hreconciled.kept (by rw [hcommit hsome]; rfl)⟩
    rw [hreconciled.integrationError]
    by_cases hnone : before.integrationError = none
    · exact Or.inl hnone
    · exact Or.inr ⟨rfl, hreconciled.kept (by rw [herror hnone]; rfl)⟩

private theorem recoveredTasks_succeeded {id : String} {task : RunTask}
    (hget : (recoveredTasks run plan).get? id = some task) (hstate : task.state = .succeeded) :
    task.attemptIds.any fun attemptId =>
      (run.attempts.find? fun attempt => attempt.id = attemptId).map (·.state) = some .succeeded := by
  obtain ⟨before, hbefore, hreconciled⟩ := pass_cases hget
  have hsame := hreconciled.state_of_kept (by rw [hstate]; rfl)
  rw [hstate] at hsame
  rcases replanTask_cases before with ⟨-, heq⟩ | ⟨-, heq⟩
  · rw [heq] at hsame
    cases hsame
  · rw [heq] at hreconciled hsame
    rw [hreconciled.attemptIds]
    exact (active_facts h hbefore).2 hsame.symm

omit h in
private theorem runningFinalAttempts_interrupted (now : Timestamp) :
    (run.finalValidationAttempts.map (interruptFinalAttempt now)).filter
      (fun attempt => decide (attempt.state = .running)) = [] := by
  rw [List.filter_eq_nil_iff]
  intro attempt hattempt
  obtain ⟨before, -, rfl⟩ := List.mem_map.mp hattempt
  simpa using interruptFinalAttempt_ended now before

private theorem recovery_sound (now : Timestamp) : (recoveryRewriting run plan now).Sound run := by
  have hheader := h.header
  have happroval := h.approval
  have hrecords := h.records
  unfold validateHeader at hheader
  unfold validateApproval at happroval
  unfold validateRecords at hrecords
  simp only [seq_ok_iff, ensure_ok_iff] at hheader happroval hrecords
  have hreviewed := hrecords.2.2.2.2.2.2.2.2.2.2.2.2.1
  have hsettled := hrecords.2.2.2.2.2.2.2.2.2.2.2.2.2.2.2.1
  rw [validateReviewedState_ok_iff] at hreviewed
  unfold validateSettledState at hsettled
  rw [seq_ok_iff, ensure_ok_iff, ensure_ok_iff] at hsettled
  refine
    { revision := hheader.1
      updatedAt := now.nonempty
      tasks := recoveredTasks_rewrite h
      onTask := interruptTaskAttempt_interrupts now
      onReview := interruptReviewAttempt_interrupts now
      onRepair := interruptRepairAttempt_interrupts now
      onFinal := interruptFinalAttempt_interrupts now
      blockedWorkers := rfl
      approved := ?_
      unapproved := ?_
      running := ?_
      succeeded := fun id task hget hstate => recoveredTasks_succeeded h hget hstate
      reviewed := ?_
      validating := ?_
      completed := ?_
      unsuccessful := ?_ }
  · intro hrequires
    apply happroval.2.2.2.1
    unfold recoveryRewriting at hrequires
    dsimp only at hrequires
    split at hrequires
    · next hvalidating => rw [hvalidating]; rfl
    · exact hrequires
  · intro hstate
    apply happroval.2.2.2.2
    unfold recoveryRewriting at hstate
    dsimp only at hstate
    split at hstate
    · simp at hstate
    · exact hstate
  · intro id task hget hrunning
    rw [recoveredTasks_idle hget] at hrunning
    cases hrunning
  · intro hlegacy hstate
    apply hreviewed hlegacy
    unfold recoveryRewriting at hstate
    dsimp only at hstate
    split at hstate
    · next hvalidating => rw [hvalidating]; rfl
    · exact hstate
  · have hnone : runningFinalAttempts ((recoveryRewriting run plan now).apply run) = [] :=
      runningFinalAttempts_interrupted now
    rw [hnone]
    refine iff_of_false ?_ (by simp)
    unfold recoveryRewriting
    dsimp only
    split
    · simp
    · next hne => exact hne
  · intro hstate
    unfold recoveryRewriting at hstate
    dsimp only at hstate
    split at hstate
    · cases hstate
    · exact hstate
  · intro hstate
    apply hsettled.2
    unfold recoveryRewriting at hstate
    dsimp only at hstate
    split at hstate
    · simp at hstate
    · exact hstate

private theorem recoverInterruptedRun_eq (now : Timestamp) (hinterrupted : isInterrupted run = true) :
    recoverInterruptedRun run now = .ok ((recoveryRewriting run plan now).apply run) := by
  unfold recoverInterruptedRun
  rw [if_pos hinterrupted,
    reconcileTaskStates_eq h (show (interruptRun run now).plan = run.plan from rfl)]
  rfl

omit h in
private theorem recovered_underWay (now : Timestamp) :
    NothingUnderWay ((recoveryRewriting run plan now).apply run) := by
  refine ⟨?_, ?_, ?_, ?_, fun id task hget => recoveredTasks_idle hget, rfl⟩
  · intro attempt hattempt
    obtain ⟨before, -, rfl⟩ := List.mem_map.mp hattempt
    exact interruptTaskAttempt_inactive now before
  · intro attempt hattempt
    obtain ⟨before, -, rfl⟩ := List.mem_map.mp hattempt
    exact interruptReviewAttempt_inactive now before
  · intro attempt hattempt
    obtain ⟨before, -, rfl⟩ := List.mem_map.mp hattempt
    exact interruptRepairAttempt_inactive now before
  · intro attempt hattempt
    obtain ⟨before, -, rfl⟩ := List.mem_map.mp hattempt
    exact interruptFinalAttempt_ended now before

private theorem recovered_keeps (now : Timestamp) :
    KeepsEnded run ((recoveryRewriting run plan now).apply run) := by
  refine ⟨?_, ?_, ?_, ?_, (recoveredTasks_rewrite h).get?_integratedCommit, rfl⟩
  · refine List.forall₂_map_right_iff.mpr (List.forall₂_same.mpr fun attempt _ hended => ?_)
    show interruptTaskAttempt now attempt = attempt
    unfold interruptTaskAttempt
    rw [if_neg (by rw [hended]; simp)]
  · refine List.forall₂_map_right_iff.mpr (List.forall₂_same.mpr fun attempt _ hended => ?_)
    show interruptReviewAttempt now attempt = attempt
    unfold interruptReviewAttempt
    rw [if_neg (by rw [hended]; simp)]
  · refine List.forall₂_map_right_iff.mpr (List.forall₂_same.mpr fun attempt _ => ⟨?_, fun hended => ?_⟩)
    · show (interruptRepairAttempt now attempt).integratedCommit = attempt.integratedCommit
      unfold interruptRepairAttempt
      split <;> rfl
    · show interruptRepairAttempt now attempt = attempt
      unfold interruptRepairAttempt
      rw [if_neg (by rw [hended]; simp)]
  · refine List.forall₂_map_right_iff.mpr (List.forall₂_same.mpr fun attempt _ hended => ?_)
    show interruptFinalAttempt now attempt = attempt
    unfold interruptFinalAttempt
    rw [if_neg hended]

end Recovery

private theorem KeepsEnded.refl (run : OrchestrationRun) : KeepsEnded run run where
  attempts := List.forall₂_same.mpr fun _ _ _ => rfl
  reviewAttempts := List.forall₂_same.mpr fun _ _ _ => rfl
  repairAttempts := List.forall₂_same.mpr fun _ _ => ⟨rfl, fun _ => rfl⟩
  finalValidationAttempts := List.forall₂_same.mpr fun _ _ _ => rfl
  integratedCommits := fun _ => rfl
  integrationHead := rfl

/-- Recovery of an accepted run gives an accepted run with nothing under way, whatever safe revision
it is stored at, and recovering that run changes nothing. -/
private theorem recovery_accepted {run : OrchestrationRun} (h : AcceptsRun sha256Hex localeCompare run)
    (now : Timestamp) :
    ∃ recovered, recoverInterruptedRun run now = .ok recovered ∧
      (∀ revision ≤ maxSafeInteger,
        AcceptsRun sha256Hex localeCompare { recovered with revision }) ∧
      NothingUnderWay recovered ∧ KeepsEnded run recovered ∧
      ∀ revision later, recoverInterruptedRun { recovered with revision } later =
        .ok { recovered with revision } := by
  obtain ⟨plan, order, haccepted⟩ := acceptsRun_iff.mp h
  have hagain : ∀ recovered, NothingUnderWay recovered → ∀ revision later,
      recoverInterruptedRun { recovered with revision } later = .ok { recovered with revision } := by
    intro recovered hidle revision later
    have hsame : isInterrupted { recovered with revision } = false := isInterrupted_iff.mpr
      ⟨hidle.attempts, hidle.reviewAttempts, hidle.repairAttempts, hidle.finalValidationAttempts,
        hidle.tasks, hidle.blockedWorkers⟩
    unfold recoverInterruptedRun
    rw [if_neg (by rw [hsame]; simp)]
    rfl
  cases hinterrupted : isInterrupted run with
  | true =>
    have hidle := @recovered_underWay run plan now
    refine ⟨_, recoverInterruptedRun_eq haccepted now hinterrupted, fun revision hrevision => ?_,
      hidle, recovered_keeps haccepted now, hagain _ hidle⟩
    exact acceptsRun_iff.mpr
      ⟨plan, order, (haccepted.rewritten (recovery_sound haccepted now)).revised hrevision⟩
  | false =>
    have hidle := isInterrupted_iff.mp hinterrupted
    refine ⟨run, ?_, fun revision hrevision => ?_, hidle, KeepsEnded.refl run, hagain run hidle⟩
    · unfold recoverInterruptedRun
      rw [if_neg (by rw [hinterrupted]; simp)]
      rfl
    · exact acceptsRun_iff.mpr ⟨plan, order, haccepted.revised hrevision⟩

/-! ## Retry -/

section Units

variable {run : OrchestrationRun} {unit : RunUnitView}

private theorem unitStateFromAttempts_ne_blocked (states : List AttemptState) :
    unitStateFromAttempts states ≠ .blocked := by
  unfold unitStateFromAttempts
  split <;> simp

private theorem legacyReviewUnits_spec (h : unit ∈ legacyReviewUnits run) :
    unit.role = .review ∧ unit.state ≠ .blocked := by
  unfold legacyReviewUnits at h
  rw [List.mem_flatMap] at h
  obtain ⟨round, -, h⟩ := h
  obtain ⟨category, -, rfl⟩ := List.mem_map.mp h
  exact ⟨rfl, unitStateFromAttempts_ne_blocked _⟩

private theorem legacyRepairUnits_spec (h : unit ∈ legacyRepairUnits run) :
    unit.role = .repair ∧ unit.state ≠ .blocked := by
  unfold legacyRepairUnits at h
  obtain ⟨round, -, rfl⟩ := List.mem_map.mp h
  exact ⟨rfl, unitStateFromAttempts_ne_blocked _⟩

/-- A change unit, and any unit that is blocked, is a task of the run in that state. -/
private theorem legacyUnit_task (h : unit ∈ (legacyRunView run).units) {state : TaskState}
    (hstate : unit.state = state) (hplanned : state ≠ .planned)
    (hchange : unit.role = .change ∨ state = .blocked) :
    (run.tasks.get? unit.id).map (·.state) = some state := by
  have hmem : unit ∈ run.plan.tasks.map (legacyTaskUnit run) ++ legacyReviewUnits run ++
      legacyRepairUnits run := h
  rw [List.mem_append, List.mem_append] at hmem
  rcases hmem with (htask | hreview) | hrepair
  · obtain ⟨definition, -, rfl⟩ := List.mem_map.mp htask
    unfold legacyTaskUnit at hstate ⊢
    dsimp only at hstate ⊢
    cases hget : (run.tasks.get? definition.id).map (·.state) with
    | none =>
      rw [hget] at hstate
      exact absurd hstate.symm hplanned
    | some found =>
      rw [hget] at hstate
      exact congrArg some hstate
  · obtain ⟨hrole, hblocked⟩ := legacyReviewUnits_spec hreview
    rcases hchange with hchange | hchange
    · rw [hrole] at hchange
      cases hchange
    · exact absurd (hstate.trans hchange) hblocked
  · obtain ⟨hrole, hblocked⟩ := legacyRepairUnits_spec hrepair
    rcases hchange with hchange | hchange
    · rw [hrole] at hchange
      cases hchange
    · exact absurd (hstate.trans hchange) hblocked

end Units

private theorem legacyReviewBlock_blocked {view : RunView} {work : RunRetryAssessment}
    (h : legacyReviewBlock view = some work) : ∃ code reason, work = .blocked code reason := by
  unfold legacyReviewBlock at h
  split at h
  · cases h
    exact ⟨_, _, rfl⟩
  · dsimp only at h
    split at h
    · cases h
      exact ⟨_, _, rfl⟩
    · cases h

private theorem finalValidationRetryWork_eq {view : RunView} {work : RunRetryAssessment}
    (h : finalValidationRetryWork view = some work) :
    ∃ attemptId, work = .finalValidation attemptId := by
  unfold finalValidationRetryWork at h
  rw [Option.bind_eq_some_iff] at h
  obtain ⟨attempt, -, hattempt⟩ := h
  split at hattempt
  · cases hattempt
    exact ⟨_, rfl⟩
  · cases hattempt

/-- The steps of a retry are those of the changes that failed. -/
private theorem legacyWork_steps {view : RunView} (hsource : view.source = .legacy)
    {failedIds resetIds : List String} (h : failedRunWork view = .steps failedIds resetIds) :
    stepRetryWork view ((failedUnits view).filter fun unit => unit.role = .change) =
      .steps failedIds resetIds := by
  unfold failedRunWork at h
  rw [hsource] at h
  dsimp only at h
  split at h
  · exact h
  · exfalso
    cases hfinal : finalValidationRetryWork view with
    | some work =>
      obtain ⟨attemptId, rfl⟩ := finalValidationRetryWork_eq hfinal
      rw [hfinal] at h
      cases h
    | none =>
      rw [hfinal] at h
      cases hreview : legacyReviewBlock view with
      | some work =>
        obtain ⟨code, reason, rfl⟩ := legacyReviewBlock_blocked hreview
        rw [hreview] at h
        cases h
      | none =>
        rw [hreview] at h
        cases h

/-- The steps a retry of a run with its own attempts resets: the failed tasks, and blocked ones. -/
private theorem legacy_steps {run : OrchestrationRun} {failedIds resetIds : List String}
    (h : retryableRunWork (legacyRunView run) = .steps failedIds resetIds) :
    (∀ id ∈ failedIds, (run.tasks.get? id).map (·.state) = some .failed) ∧
      ∀ id ∈ resetIds, id ∈ failedIds ∨ (run.tasks.get? id).map (·.state) = some .blocked := by
  have hchecked : RetryChecked (legacyRunView run) :=
    retryChecked_of_retryable fun code reason hblocked => by
      rw [h] at hblocked
      cases hblocked
  have hwork := hchecked.retryableRunWork_eq
  rw [h] at hwork
  have hsteps := legacyWork_steps rfl hwork.symm
  unfold stepRetryWork at hsteps
  simp only [RunRetryAssessment.steps.injEq] at hsteps
  obtain ⟨rfl, rfl⟩ := hsteps
  refine ⟨fun id hid => ?_, fun id hid => ?_⟩
  · obtain ⟨unit, hunit, rfl⟩ := List.mem_map.mp hid
    rw [List.mem_filter, failedUnits, List.mem_filter, decide_eq_true_eq, decide_eq_true_eq] at hunit
    exact legacyUnit_task hunit.1.1 hunit.1.2 (by simp) (Or.inl hunit.2)
  · rw [List.mem_filter, decide_eq_true_eq] at hid
    have hbehind := mem_resetPasses_iff.mp hid.2
    cases hbehind with
    | reset hfailed => exact Or.inl hfailed
    | blocked hunit hblocked _ _ => exact Or.inr (legacyUnit_task hunit hblocked (by simp) (Or.inr rfl))

/-! ### The retried run -/

/-- The tasks of a run whose steps are tried again. -/
def retriedTasks (run : OrchestrationRun) (plan : TaskPlan) (failedIds resetIds : List String) :
    OrderedRecord String RunTask :=
  (topologicalIds plan.nodes).foldl reconcileTask
    (run.tasks.mapValues (resetTask run failedIds resetIds))

/-- What a retry rewrites: nothing but the state of the run and its tasks. -/
def retryRewriting (run : OrchestrationRun) (state : RunState) (tasks : OrderedRecord String RunTask)
    (now : Timestamp) : Rewriting where
  revision := run.revision
  state := state
  tasks := tasks
  onTask := id
  onReview := id
  onRepair := id
  onFinal := id
  blockedWorkers := run.blockedWorkers
  updatedAt := now.text

private theorem retryRewriting_apply (run : OrchestrationRun) (state : RunState)
    (tasks : OrderedRecord String RunTask) (now : Timestamp) :
    (retryRewriting run state tasks now).apply run =
      { run with state, tasks, updatedAt := now.text } := by
  unfold retryRewriting Rewriting.apply
  simp only [List.map_id]

/-- A failed task is reset, a task behind one is planned again, and every other task is kept. -/
private theorem resetTask_cases (run : OrchestrationRun) (failedIds resetIds : List String)
    (id : String) (task : RunTask) :
    (id ∈ failedIds ∧ resetTask run failedIds resetIds id task = resetFailedTask run task) ∨
      (id ∉ failedIds ∧ id ∈ resetIds ∧
        resetTask run failedIds resetIds id task = { task with state := .planned }) ∨
      (id ∉ failedIds ∧ id ∉ resetIds ∧ resetTask run failedIds resetIds id task = task) := by
  unfold resetTask
  by_cases hfailed : id ∈ failedIds
  · rw [if_pos hfailed]
    exact Or.inl ⟨hfailed, rfl⟩
  · rw [if_neg hfailed]
    by_cases hreset : id ∈ resetIds
    · rw [if_pos hreset]
      exact Or.inr (Or.inl ⟨hfailed, hreset, rfl⟩)
    · rw [if_neg hreset]
      exact Or.inr (Or.inr ⟨hfailed, hreset, rfl⟩)

private theorem resetFailedTask_spec (run : OrchestrationRun) (task : RunTask) :
    ∃ state, resetFailedTask run task = { task with integrationError := none, state } ∧
      (state = .succeeded ∧ hasCommittedAttempt run task = true ∨ state = .planned) := by
  unfold resetFailedTask
  split
  · next hcommitted => exact ⟨.succeeded, rfl, Or.inl ⟨rfl, hcommitted.2⟩⟩
  · exact ⟨.planned, rfl, Or.inr rfl⟩

section Retried

variable {run : OrchestrationRun} {plan : TaskPlan} {order failedIds resetIds : List String}
  (h : Accepted sha256Hex localeCompare run plan order)
  (hsteps : retryableRunWork (legacyRunView run) = .steps failedIds resetIds)

include hsteps in
private theorem state_of_reset {id : String} {task : RunTask} (hget : run.tasks.get? id = some task) :
    (id ∈ failedIds → task.state = .failed) ∧
      (id ∉ failedIds → id ∈ resetIds → task.state = .blocked) := by
  obtain ⟨hfailed, hreset⟩ := legacy_steps hsteps
  constructor
  · intro hid
    have hstate := hfailed id hid
    rw [hget] at hstate
    exact Option.some.inj hstate
  · intro hnot hid
    have hstate := (hreset id hid).resolve_left hnot
    rw [hget] at hstate
    exact Option.some.inj hstate

include h hsteps

private theorem retriedTasks_rewrite :
    TasksRewrite run.tasks (retriedTasks run plan failedIds resetIds) := by
  apply pass_rewrites
  intro id before after hget hreconciled
  obtain ⟨herror, hcommit⟩ := task_facts h hget
  obtain ⟨hfailed, hblocked⟩ := state_of_reset hsteps hget
  rcases resetTask_cases run failedIds resetIds id before with
    ⟨hid, heq⟩ | ⟨hnot, hid, heq⟩ | ⟨-, -, heq⟩
  · obtain ⟨state, hspec, -⟩ := resetFailedTask_spec run before
    rw [heq, hspec] at hreconciled
    refine ⟨hreconciled.definition, hreconciled.attemptIds, hreconciled.integratedCommit,
      Or.inl hreconciled.integrationError, fun hsome => ?_⟩
    rw [hcommit hsome] at hfailed
    cases hfailed hid
  · rw [heq] at hreconciled
    refine ⟨hreconciled.definition, hreconciled.attemptIds, hreconciled.integratedCommit,
      Or.inl (hreconciled.integrationError.trans ?_), fun hsome => ?_⟩
    · by_contra hsome
      rw [herror hsome] at hblocked
      cases hblocked hnot hid
    · rw [hcommit hsome] at hblocked
      cases hblocked hnot hid
  · rw [heq] at hreconciled
    refine ⟨hreconciled.definition, hreconciled.attemptIds, hreconciled.integratedCommit, ?_,
      fun hsome => hreconciled.kept (by rw [hcommit hsome]; rfl)⟩
    rw [hreconciled.integrationError]
    by_cases hnone : before.integrationError = none
    · exact Or.inl hnone
    · exact Or.inr ⟨rfl, hreconciled.kept (by rw [herror hnone]; rfl)⟩

omit hsteps in
private theorem retriedTasks_running {id : String} {task : RunTask}
    (hget : (retriedTasks run plan failedIds resetIds).get? id = some task)
    (hrunning : task.state.isRunning = true) : id ∈ (activeTaskAttempts run).map (·.taskId) := by
  obtain ⟨before, hbefore, hreconciled⟩ := pass_cases hget
  have hsame := hreconciled.state_of_kept (isKept_of_running hrunning)
  rw [hsame] at hrunning
  rcases resetTask_cases run failedIds resetIds id before with ⟨-, heq⟩ | ⟨-, -, heq⟩ | ⟨-, -, heq⟩
  · obtain ⟨state, hspec, hstate⟩ := resetFailedTask_spec run before
    rw [heq, hspec] at hrunning
    rcases hstate with ⟨rfl, -⟩ | rfl <;> cases hrunning
  · rw [heq] at hrunning
    cases hrunning
  · rw [heq] at hrunning
    exact (active_facts h hbefore).1 hrunning

omit hsteps in
private theorem retriedTasks_succeeded {id : String} {task : RunTask}
    (hget : (retriedTasks run plan failedIds resetIds).get? id = some task)
    (hstate : task.state = .succeeded) :
    task.attemptIds.any fun attemptId =>
      (run.attempts.find? fun attempt => attempt.id = attemptId).map (·.state) = some .succeeded := by
  obtain ⟨before, hbefore, hreconciled⟩ := pass_cases hget
  have hsame := hreconciled.state_of_kept (by rw [hstate]; rfl)
  rw [hstate] at hsame
  rw [hreconciled.attemptIds]
  rcases resetTask_cases run failedIds resetIds id before with ⟨-, heq⟩ | ⟨-, -, heq⟩ | ⟨-, -, heq⟩
  · obtain ⟨state, hspec, hcases⟩ := resetFailedTask_spec run before
    rw [heq, hspec] at hsame ⊢
    rcases hcases with ⟨-, hcommitted⟩ | rfl
    · unfold hasCommittedAttempt at hcommitted
      rw [List.any_eq_true] at hcommitted ⊢
      obtain ⟨attemptId, hid, hfound⟩ := hcommitted
      rw [List.any_eq_true] at hfound
      obtain ⟨attempt, hmem, hattempt⟩ := hfound
      rw [decide_eq_true_eq] at hattempt
      obtain ⟨rfl, hsucceeded, -⟩ := hattempt
      refine ⟨attempt.id, hid, ?_⟩
      rw [decide_eq_true_eq, find?_attempt h hmem, Option.map_some, hsucceeded]
    · cases hsame
  · rw [heq] at hsame
    cases hsame
  · rw [heq] at hsame ⊢
    exact (active_facts h hbefore).2 hsame.symm

/-- A task that is not reset and does not wait is kept whole. -/
private theorem retriedTasks_integrated {id : String} {task : RunTask}
    (hget : run.tasks.get? id = some task) (hcommit : task.integratedCommit ≠ none) :
    (retriedTasks run plan failedIds resetIds).get? id = some task := by
  have hsucceeded := (task_facts h hget).2 hcommit
  obtain ⟨hfailed, hblocked⟩ := state_of_reset hsteps hget
  obtain ⟨after, hafter, -⟩ := (retriedTasks_rewrite h hsteps).each.right hget
  obtain ⟨before, hbefore, hreconciled⟩ := pass_cases hafter
  rw [hget, Option.some.injEq] at hbefore
  subst hbefore
  rw [hafter]
  rcases resetTask_cases run failedIds resetIds id task with
    ⟨hid, -⟩ | ⟨hnot, hid, -⟩ | ⟨-, -, heq⟩
  · have hstate := hfailed hid
    rw [hsucceeded] at hstate
    cases hstate
  · have hstate := hblocked hnot hid
    rw [hsucceeded] at hstate
    cases hstate
  · rw [heq] at hreconciled
    rw [hreconciled.eq_of_kept (by rw [hsucceeded]; rfl)]

omit h hsteps in
private theorem retriedTasks_not_failed {id : String} {task : RunTask}
    (hid : id ∈ failedIds ++ resetIds)
    (hget : (retriedTasks run plan failedIds resetIds).get? id = some task) :
    task.state ≠ .failed := by
  intro hstate
  obtain ⟨before, -, hreconciled⟩ := pass_cases hget
  have hsame := hreconciled.state_of_kept (by rw [hstate]; rfl)
  rw [hstate] at hsame
  rcases resetTask_cases run failedIds resetIds id before with
    ⟨-, heq⟩ | ⟨-, -, heq⟩ | ⟨hnot, hnot', -⟩
  · obtain ⟨state, hspec, hcases⟩ := resetFailedTask_spec run before
    rw [heq, hspec] at hsame
    rcases hcases with ⟨rfl, -⟩ | rfl <;> cases hsame
  · rw [heq] at hsame
    cases hsame
  · rcases List.mem_append.mp hid with hfailed | hreset
    · exact hnot hfailed
    · exact hnot' hreset

end Retried

section RetrySound

variable {run : OrchestrationRun} {plan : TaskPlan} {order : List String}
  (h : Accepted sha256Hex localeCompare run plan order)

include h

/-- A failed run may be rewritten to one that runs again, and to one that counts as reviewed as
long as its reviews stand. -/
private theorem retry_sound (now : Timestamp) (hfailed : run.state = .failed)
    (happroved : run.approvedPlanRevision ≠ none) {state : RunState}
    {tasks : OrderedRecord String RunTask}
    (hstate : state = .running ∨
      state = .reviewed ∧ (executionRecord run = .legacy → ReviewsStand run))
    (htasks : TasksRewrite run.tasks tasks)
    (hrunning : ∀ id task, tasks.get? id = some task → task.state.isRunning = true →
      id ∈ (activeTaskAttempts run).map (·.taskId))
    (hsucceeded : ∀ id task, tasks.get? id = some task → task.state = .succeeded →
      task.attemptIds.any (fun attemptId =>
        (run.attempts.find? fun attempt => attempt.id = attemptId).map (·.state) =
          some .succeeded)) :
    (retryRewriting run state tasks now).Sound run := by
  have hheader := h.header
  have hrecords := h.records
  unfold validateHeader at hheader
  unfold validateRecords at hrecords
  simp only [seq_ok_iff, ensure_ok_iff] at hheader hrecords
  have hblocked := hrecords.2.2.2.2.2.2.2.2.1
  have hfinals := hrecords.2.2.2.2.2.2.2.2.2.2.2.2.2.1
  unfold validateFinalAttempts at hfinals
  simp only [seq_ok_iff, ensure_ok_iff] at hfinals
  have hnone : ¬ (runningFinalAttempts run).length = 1 := by
    rw [← hfinals.2.2, hfailed]
    simp
  refine
    { revision := hheader.1
      updatedAt := now.nonempty
      tasks := htasks
      onTask := fun _ => Or.inl rfl
      onReview := fun _ => Or.inl rfl
      onRepair := fun _ => Or.inl rfl
      onFinal := fun _ => Or.inl rfl
      blockedWorkers := ?_
      approved := fun _ => happroved
      unapproved := ?_
      running := ?_
      succeeded := hsucceeded
      reviewed := ?_
      validating := ?_
      completed := ?_
      unsuccessful := ?_ }
  · rw [retryRewriting_apply]
    exact hblocked
  · intro hwaiting
    rcases hstate with rfl | ⟨rfl, -⟩ <;> rcases hwaiting with hwaiting | hwaiting <;> cases hwaiting
  · rw [retryRewriting_apply]
    exact hrunning
  · intro hlegacy hreviewed
    rcases hstate with rfl | ⟨-, hstand⟩
    · cases hreviewed
    · exact hstand hlegacy
  · rw [retryRewriting_apply]
    refine iff_of_false (fun hvalidating => ?_) hnone
    rcases hstate with rfl | ⟨rfl, -⟩ <;> cases hvalidating
  · intro hcompleted
    rcases hstate with rfl | ⟨rfl, -⟩ <;> cases hcompleted
  · intro hunsuccessful
    rcases hstate with rfl | ⟨rfl, -⟩ <;>
      rcases hunsuccessful with hunsuccessful | hunsuccessful <;> cases hunsuccessful

end RetrySound

/-- What a retry keeps of a failed run. -/
structure RetryKeeps (run result : OrchestrationRun) : Prop where
  attempts : result.attempts = run.attempts
  reviewAttempts : result.reviewAttempts = run.reviewAttempts
  repairAttempts : result.repairAttempts = run.repairAttempts
  finalValidationAttempts : result.finalValidationAttempts = run.finalValidationAttempts
  integrated : ∀ id task, run.tasks.get? id = some task → task.integratedCommit ≠ none →
    result.tasks.get? id = some task
  reset : ∀ failedIds resetIds, retryableRunWork (legacyRunView run) = .steps failedIds resetIds →
    ∀ id ∈ failedIds ++ resetIds, ∀ task, result.tasks.get? id = some task → task.state ≠ .failed

/-- The retry is one of failed steps. -/
def RetriesSteps (run : OrchestrationRun) : Prop :=
  ∃ failedIds resetIds, retryableRunWork (legacyRunView run) = .steps failedIds resetIds

private theorem retry_accepted {run result : OrchestrationRun}
    (h : AcceptsRun sha256Hex localeCompare run) {now : Timestamp}
    (hretry : prepareFailedRunRetry run now = .ok result) :
    ((∀ revision ≤ maxSafeInteger, AcceptsRun sha256Hex localeCompare { result with revision }) ↔
      RetriesSteps run ∨ executionRecord run = .engine ∨ ReviewsStand run) ∧
      RetryKeeps run result := by
  obtain ⟨plan, order, haccepted⟩ := acceptsRun_iff.mp h
  unfold prepareFailedRunRetry at hretry
  cases hwork : retryableRunWork (legacyRunView run) with
  | blocked code reason =>
    rw [hwork] at hretry
    cases hretry
  | steps failedIds resetIds =>
    have hchecked : RetryChecked (legacyRunView run) :=
      retryChecked_of_retryable fun code reason hblocked => by
        rw [hwork] at hblocked
        cases hblocked
    rw [hwork] at hretry
    dsimp only at hretry
    have hpass := hretry.symm.trans (reconcileTaskStates_eq haccepted rfl)
    rw [Except.ok.injEq] at hpass
    have hsound := retry_sound haccepted now hchecked.failed hchecked.approvedPlanRevision (Or.inl rfl)
      (retriedTasks_rewrite haccepted hwork)
      (fun _ _ hget hrunning => retriedTasks_running haccepted hget hrunning)
      (fun _ _ hget hsucceeded => retriedTasks_succeeded haccepted hget hsucceeded)
    have hresult : (retryRewriting run .running (retriedTasks run plan failedIds resetIds) now).apply
        run = result := by
      rw [retryRewriting_apply, hpass]
      rfl
    subst hpass
    refine ⟨iff_of_true (fun revision hrevision => ?_) (Or.inl ⟨failedIds, resetIds, hwork⟩),
      rfl, rfl, rfl, rfl, ?_, ?_⟩
    · rw [← hresult]
      exact acceptsRun_iff.mpr ⟨plan, order, (haccepted.rewritten hsound).revised hrevision⟩
    · exact fun id task hget hcommit => retriedTasks_integrated haccepted hwork hget hcommit
    · intro failedIds' resetIds' hwork' id hid task hget
      rw [hwork, RunRetryAssessment.steps.injEq] at hwork'
      obtain ⟨rfl, rfl⟩ := hwork'
      exact retriedTasks_not_failed hid hget
  | finalValidation attemptId =>
    have hchecked : RetryChecked (legacyRunView run) :=
      retryChecked_of_retryable fun code reason hblocked => by
        rw [hwork] at hblocked
        cases hblocked
    rw [hwork] at hretry
    dsimp only at hretry
    rw [Except.ok.injEq] at hretry
    subst hretry
    have hnosteps : ¬ RetriesSteps run := by
      rintro ⟨failedIds, resetIds, hsteps⟩
      rw [hwork] at hsteps
      cases hsteps
    refine ⟨?_, rfl, rfl, rfl, rfl, fun _ _ hget _ => hget, ?_⟩
    · constructor
      · intro haccepts
        obtain ⟨plan', order', hresult⟩ :=
          acceptsRun_iff.mp (haccepts 0 (Nat.zero_le _))
        have hrecords := hresult.records
        unfold validateRecords at hrecords
        simp only [seq_ok_iff] at hrecords
        have hreviewed := hrecords.2.2.2.2.2.2.2.2.2.2.2.2.1
        rw [validateReviewedState_ok_iff] at hreviewed
        cases hrecord : executionRecord run with
        | engine => exact Or.inr (Or.inl rfl)
        | legacy => exact Or.inr (Or.inr (hreviewed hrecord rfl))
      · intro hstand
        have hreviews : executionRecord run = .legacy → ReviewsStand run := by
          intro hlegacy
          rcases hstand with hsteps | hengine | hstand
          · exact absurd hsteps hnosteps
          · rw [hlegacy] at hengine
            cases hengine
          · exact hstand
        have hsame : TasksRewrite run.tasks run.tasks := by
          refine ⟨rfl, OrderedRecord.Pointwise.refl (fun _ task => ?_) run.tasks⟩
          exact ⟨rfl, rfl, rfl, Or.inr ⟨rfl, rfl⟩, fun _ => rfl⟩
        have hsound := retry_sound haccepted now hchecked.failed hchecked.approvedPlanRevision (Or.inr ⟨rfl, hreviews⟩) hsame
          (fun _ _ hget => (active_facts haccepted hget).1)
          (fun _ _ hget => (active_facts haccepted hget).2)
        intro revision hrevision
        have hresult := (haccepted.rewritten hsound).revised hrevision
        rw [retryRewriting_apply] at hresult
        exact acceptsRun_iff.mpr ⟨plan, order, hresult⟩
    · intro failedIds resetIds hsteps
      exact absurd ⟨failedIds, resetIds, hsteps⟩ hnosteps

/-- Recovery and retry rewrite accepted runs to accepted runs. Recovery leaves nothing under way, it
keeps what had ended and what was integrated, and a second recovery changes nothing. A retry of
failed steps is accepted, and a retry of the final validation is accepted exactly when the run holds
no attempt of its own or its reviews stand. Stored at whatever safe revision, for the write counts
it. -/
theorem restarts_keep_validity (sha256Hex : String → String) (localeCompare : LocaleOrder)
    (run : OrchestrationRun) (h : AcceptsRun sha256Hex localeCompare run) (now : Timestamp) :
    (∃ recovered, recoverInterruptedRun run now = .ok recovered ∧
      (∀ revision ≤ maxSafeInteger,
        AcceptsRun sha256Hex localeCompare { recovered with revision }) ∧
      NothingUnderWay recovered ∧ KeepsEnded run recovered ∧
      ∀ revision later, recoverInterruptedRun { recovered with revision } later =
        .ok { recovered with revision }) ∧
    ∀ result, prepareFailedRunRetry run now = .ok result →
      ((∀ revision ≤ maxSafeInteger, AcceptsRun sha256Hex localeCompare { result with revision }) ↔
        RetriesSteps run ∨ executionRecord run = .engine ∨ ReviewsStand run) ∧
      RetryKeeps run result :=
  ⟨recovery_accepted h now, fun _ hretry => retry_accepted h hretry⟩

/-! ## Concrete runs -/

private theorem acceptsRun_of_isOk {run : OrchestrationRun}
    (h : (validateStoredRun sha256Hex localeCompare run).isOk = true) :
    AcceptsRun sha256Hex localeCompare run := by
  unfold AcceptsRun
  cases hresult : validateStoredRun sha256Hex localeCompare run with
  | error message =>
    rw [hresult] at h
    cases h
  | ok result => rw [(validateStoredRun_ok_iff.mp hresult).1]

private theorem not_acceptsRun_of_isOk {run : OrchestrationRun}
    (h : (validateStoredRun sha256Hex localeCompare run).isOk = false) :
    ¬ AcceptsRun sha256Hex localeCompare run := by
  intro haccepts
  unfold AcceptsRun at haccepts
  rw [haccepts] at h
  cases h

/-- Texts in the order of their code points. -/
def codePointOrder : LocaleOrder := fun left right => left ≤ right

/-- The task of the runs below. -/
def restartedTask : TaskDefinition := smallTask "edit" [] "src/edit"

/-- A restart finds the only task under way. -/
def interruptedRun : OrchestrationRun :=
  { startedRun (smallTaskPlan [restartedTask]) with
    tasks := .ofList [("edit", ⟨restartedTask, .running, ["edit-1"], none, none⟩)]
    attempts := [smallTaskAttempt "edit-1" "edit" 1 .running none] }

/-- Recovery of that run gives a run the store accepts, at the next revision. -/
theorem restarts_keep_validity_interrupted :
    ∃ recovered, recoverInterruptedRun interruptedRun ⟨"2", by decide⟩ = .ok recovered ∧
      AcceptsRun (fun text => text) codePointOrder { recovered with revision := 2 } ∧
      NothingUnderWay recovered := by
  obtain ⟨⟨recovered, hrecovered, haccepts, hidle, -⟩, -⟩ :=
    restarts_keep_validity (fun text => text) codePointOrder interruptedRun
      (acceptsRun_of_isOk (by decide +kernel)) ⟨"2", by decide⟩
  exact ⟨recovered, hrecovered, haccepts 2 (by decide), hidle⟩

/-- The task is integrated and the final validation failed, but no review round was recorded. -/
def failedValidationRun : OrchestrationRun :=
  { startedRun (smallTaskPlan [restartedTask]) with
    state := .failed
    tasks := .ofList [("edit", ⟨restartedTask, .succeeded, ["edit-1"], some "merged", none⟩)]
    attempts := [smallTaskAttempt "edit-1" "edit" 1 .succeeded (some "change")]
    integrationHead := "merged"
    finalValidationAttempts :=
      [⟨"final-1", 1, .failed, "merged", "/worktrees/final", "3", some "4", some "failed", none⟩] }

/-- The retry of its final validation is prepared, and the store refuses the prepared run. -/
theorem unreviewed_retry_refused :
    AcceptsRun (fun text => text) codePointOrder failedValidationRun ∧
    ∃ result, prepareFailedRunRetry failedValidationRun ⟨"5", by decide⟩ = .ok result ∧
      ¬ AcceptsRun (fun text => text) codePointOrder result ∧
      ¬ AcceptsRun (fun text => text) codePointOrder { result with revision := 2 } := by
  have hwork : retryableRunWork (legacyRunView failedValidationRun) = .finalValidation "final-1" := by
    decide +kernel
  refine ⟨acceptsRun_of_isOk (by decide +kernel),
    { failedValidationRun with state := .reviewed, updatedAt := "5" }, ?_,
    not_acceptsRun_of_isOk (by decide +kernel), not_acceptsRun_of_isOk (by decide +kernel)⟩
  unfold prepareFailedRunRetry
  rw [hwork]

end BuildConductor.Inspection
