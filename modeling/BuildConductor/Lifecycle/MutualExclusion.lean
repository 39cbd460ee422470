import BuildConductor.Lifecycle.Readiness

/-!
# Mutual exclusion

In every reachable run the running steps hold compatible locks, the active attempts fit the
worker slots, and no step has two of them. What the scheduler launches may start as a whole,
in plan order, and nothing more could be launched with it.
`src/src/engine/scheduler.ts:84-186`, `src/src/engine/engine.ts:208-362`.
-/

namespace BuildConductor.Lifecycle

open Base Domain Security Engine Workflows Storage

/-- Two steps may run at the same time. -/
def LocksCompatible (left right : StepDefinition) : Prop :=
  (∀ l ∈ stepPathLocks left, ∀ r ∈ stepPathLocks right, pathLocksConflict l r = false) ∧
    ∀ lock ∈ stepResourceLocks left, lock ∉ stepResourceLocks right

/-- How many worker slots the active attempts hold. -/
def heldSlots (run : WorkflowRunState) : Nat :=
  ((activeAttempts run).filter fun attempt => consumesSlot run attempt.stepId).length

/-- Running steps exclude each other and fit the slots. -/
structure Exclusive (run : WorkflowRunState) : Prop where
  locks : ∀ left right l r, run.steps.get? left = some l → run.steps.get? right = some r →
    l.state = .running → r.state = .running → left ≠ right →
      LocksCompatible l.definition r.definition
  slots : heldSlots run ≤ run.maxConcurrentWorkers
  single : (activeStepIds run).Nodup

/-- The run with an attempt of each of some steps started. -/
def startAll (run : WorkflowRunState) (attempts : List WorkflowStepAttempt) : WorkflowRunState :=
  { run with
    steps := run.steps.mapValues fun stepId record =>
      if stepId ∈ attempts.map (·.stepId) then { record with state := .running } else record
    attempts := run.attempts ++ attempts }

/-- Some steps may start together, in plan order. -/
structure Launches (run : WorkflowRunState) (launch : List String) : Prop where
  ordered : launch.Sublist (topologicalStepIds run.plan)
  startable : ∀ attempts : List WorkflowStepAttempt, attempts.map (·.stepId) = launch →
    Exclusive (startAll run attempts)

/-- Every ready step without an active attempt that is left out conflicts with a running or a
selected step, or finds no free slot. -/
def Maximal (run : WorkflowRunState) (launch : List String) : Prop :=
  ∀ stepId record, run.steps.get? stepId = some record → record.state = .ready →
    stepId ∉ activeStepIds run → stepId ∉ launch →
      (∃ other r, run.steps.get? other = some r ∧ (r.state = .running ∨ other ∈ launch) ∧
          ¬ LocksCompatible record.definition r.definition) ∨
        consumesSlot run stepId = true ∧
          run.maxConcurrentWorkers ≤ occupiedSlots run + (launch.filter (consumesSlot run)).length

private theorem locksCompatible_iff {left right : StepDefinition} :
    LocksCompatible left right ↔ stepsConflict left right = false :=
  stepsConflict_eq_false_iff.symm

theorem LocksCompatible.symm {left right : StepDefinition} (h : LocksCompatible left right) :
    LocksCompatible right left := by
  rw [locksCompatible_iff] at *
  rw [stepsConflict_comm]
  exact h

section LaunchFacts

variable {run : WorkflowRunState}

private theorem idsConflict_eq {left right : String} {l r : WorkflowStepRecord}
    (hl : run.steps.get? left = some l) (hr : run.steps.get? right = some r) :
    idsConflict run left right = stepsConflict l.definition r.definition := by
  unfold idsConflict
  rw [hl, hr]

private theorem idsConflict_comm (left right : String) :
    idsConflict run left right = idsConflict run right left := by
  unfold idsConflict
  cases run.steps.get? left with
  | none => cases run.steps.get? right <;> rfl
  | some l =>
    cases run.steps.get? right with
    | none => rfl
    | some r => exact stepsConflict_comm l.definition r.definition

private theorem heldSlots_eq (run : WorkflowRunState) :
    heldSlots run = ((activeStepIds run).filter (consumesSlot run)).length := by
  unfold heldSlots activeStepIds
  rw [List.filter_map, List.length_map]
  rfl

private theorem heldSlots_le_occupied (run : WorkflowRunState) :
    heldSlots run ≤ occupiedSlots run := by
  unfold heldSlots occupiedSlots
  omega

/-- A launch set is what one greedy pass takes from the plan order. -/
theorem launchableStepIds_selects (hreconciled : IsReconciled run) (hrunning : run.state = .running) :
    (launchRules run).Selects (topologicalStepIds run.plan) (launchableStepIds run) := by
  have hlaunch := launchableStepIds_eq_greedy hrunning
  rw [reconcile_of_isReconciled hreconciled] at hlaunch
  rw [hlaunch]
  exact SelectionRules.greedy_selects _ _

/-- What is launched is compatible with what runs. -/
theorem launchable_compatible (hreconciled : IsReconciled run) {stepId other : String}
    {record r : WorkflowStepRecord} (hlaunch : stepId ∈ launchableStepIds run)
    (hrecord : run.steps.get? stepId = some record) (hother : run.steps.get? other = some r)
    (hrunning : r.state = .running) : LocksCompatible record.definition r.definition := by
  have hselects := launchableStepIds_selects hreconciled (launchable_facts hlaunch).1
  have hheld : other ∈ runningStepIds run := mem_runningStepIds_iff.mpr ⟨r, hother, hrunning⟩
  have hno := hselects.held stepId hlaunch other hheld
  rw [locksCompatible_iff, ← idsConflict_eq hrecord hother]
  exact hno

/-- What is launched finds a slot beside the active attempts. -/
theorem launchable_slots (hreconciled : IsReconciled run) (hslots : heldSlots run ≤ run.maxConcurrentWorkers) :
    heldSlots run + ((launchableStepIds run).filter (consumesSlot run)).length ≤
      run.maxConcurrentWorkers := by
  by_cases hrunning : run.state = .running
  · have hcapacity := (launchableStepIds_selects hreconciled hrunning).capacity
    have hoccupied := heldSlots_le_occupied run
    have hspent : (launchRules run).spent (launchableStepIds run) =
        ((launchableStepIds run).filter (consumesSlot run)).length := rfl
    have hroom : (launchRules run).capacity = run.maxConcurrentWorkers - occupiedSlots run := rfl
    rw [hspent, hroom] at hcapacity
    omega
  · rw [launchableStepIds_of_not_running hrunning]
    exact hslots

end LaunchFacts

/-! ## One write -/

section Write

variable {run next : WorkflowRunState} {now : Timestamp} {transaction : Transaction}

private theorem filter_sublist_of_mem {α : Type} {p q : α → Bool} {xs : List α}
    (h : ∀ x ∈ xs, p x = true → q x = true) : (xs.filter p).Sublist (xs.filter q) := by
  have heq : xs.filter p = (xs.filter q).filter p := by
    rw [List.filter_filter]
    apply List.filter_congr
    intro x hx
    cases hp : p x with
    | false => rfl
    | true => rw [h x hx hp]; rfl
  rw [heq]
  exact List.filter_sublist

/-- Only a reservation makes another attempt active. -/
theorem Transaction.apply_activeStepIds (h : transaction.apply now run = .ok next)
    (hmark : ∀ attemptId, transaction = .markRunning attemptId →
      ∀ attempt ∈ run.attempts, attempt.id = attemptId → attempt.state.isActive = true) :
    (activeStepIds next).Sublist (activeStepIds run) ∨
      ∃ stepId ∈ launchableStepIds run, transaction.startsStep run stepId ∧
        (activeStepIds next).Sublist (activeStepIds run ++ [stepId]) := by
  rcases apply_attempts h with ⟨attempt, rfl, hlaunch, hattempts⟩ | ⟨f, hattempts, hf⟩
  · right
    refine ⟨attempt.stepId, hlaunch, ⟨rfl, hlaunch⟩, ?_⟩
    unfold activeStepIds activeAttempts
    rw [hattempts, List.filter_append, List.map_append]
    apply List.Sublist.append_left
    have hone := (List.filter_sublist (p := fun attempt : WorkflowStepAttempt =>
      attempt.state.isActive) (l := [attempt])).map (·.stepId)
    exact hone
  · left
    unfold activeStepIds activeAttempts
    rw [hattempts, List.filter_map, List.map_map]
    have hids : ∀ xs : List WorkflowStepAttempt,
        xs.map ((·.stepId) ∘ f) = xs.map (·.stepId) := by
      intro xs
      apply List.map_congr_left
      intro x _
      exact (hf x).same.stepId
    rw [hids]
    apply List.Sublist.map
    apply filter_sublist_of_mem
    intro x hx hactive
    by_cases hsettles : transaction.settlesAttempt run x.id
    · have hinactive := (hf x).settled hsettles
      rw [Function.comp_apply, hinactive] at hactive
      cases hactive
    · rcases (hf x).kept hsettles with hstate | ⟨hmarks, -⟩
      · rw [Function.comp_apply, hstate] at hactive
        exact hactive
      · exact hmark x.id hmarks x hx rfl

private theorem consumesSlot_apply (h : transaction.apply now run = .ok next) (hkept : PlanKept run)
    {stepId : String} {record : WorkflowStepRecord} (hrecord : run.steps.get? stepId = some record) :
    consumesSlot next stepId = consumesSlot run stepId := by
  obtain ⟨later, hlater, hdefinition⟩ := Transaction.apply_record h hkept hrecord
  unfold consumesSlot
  rw [hrecord, hlater]
  dsimp only
  rw [hdefinition, (Transaction.apply_header h).capabilityProfiles]

private theorem heldSlots_apply (h : transaction.apply now run = .ok next) (hkept : PlanKept run)
    {stepIds : List String} (hsublist : (activeStepIds next).Sublist stepIds)
    (hrecorded : ∀ stepId ∈ stepIds, ∃ record, run.steps.get? stepId = some record) :
    heldSlots next ≤ (stepIds.filter (consumesSlot run)).length := by
  rw [heldSlots_eq]
  have hsame : stepIds.filter (consumesSlot next) = stepIds.filter (consumesSlot run) := by
    apply List.filter_congr
    intro stepId hstepId
    obtain ⟨record, hrecord⟩ := hrecorded stepId hstepId
    exact consumesSlot_apply h hkept hrecord
  rw [← hsame]
  exact (hsublist.filter _).length_le

theorem AttemptTable.recorded_active (h : AttemptTable run) {stepId : String}
    (hstepId : stepId ∈ activeStepIds run) : ∃ record, run.steps.get? stepId = some record := by
  obtain ⟨attempt, hattempt, rfl⟩ := List.mem_map.mp hstepId
  exact h.recorded attempt (List.mem_of_mem_filter hattempt)

/-- The record a step had before a write, when it runs after it. -/
private theorem before_running (h : transaction.apply now run = .ok next) (hkept : PlanKept run)
    {stepId : String} {later : WorkflowStepRecord} (hlater : next.steps.get? stepId = some later)
    (hrunning : later.state = .running) :
    ∃ record, run.steps.get? stepId = some record ∧ later.definition = record.definition ∧
      (record.state = .running ∨
        transaction.startsStep run stepId ∧ stepId ∈ launchableStepIds run) := by
  have hrecord : ∃ record, run.steps.get? stepId = some record ∧ (record.state = .running ∨
      transaction.startsStep run stepId ∧ stepId ∈ launchableStepIds run) := by
    rcases (Transaction.apply_stepRunning h hkept stepId).mp ⟨later, hlater, hrunning⟩ with
      hstarts | ⟨⟨record, hrecord, hrun⟩, -⟩
    · have hlaunch : stepId ∈ launchableStepIds run := by
        cases transaction with
        | reserve attempt => exact hstarts.2
        | _ => cases hstarts
      obtain ⟨-, -, -, record, hrecord, -, -⟩ := launchable_facts hlaunch
      exact ⟨record, hrecord, Or.inr ⟨hstarts, hlaunch⟩⟩
    · exact ⟨record, hrecord, Or.inl hrun⟩
  obtain ⟨record, hget, hcases⟩ := hrecord
  obtain ⟨after, hafter, hdefinition⟩ := Transaction.apply_record h hkept hget
  rw [hlater, Option.some.injEq] at hafter
  rw [← hafter] at hdefinition
  exact ⟨record, hget, hdefinition, hcases⟩

private theorem startsStep_unique {left right : String} (hleft : transaction.startsStep run left)
    (hright : transaction.startsStep run right) : left = right := by
  cases transaction with
  | reserve attempt => exact hleft.1.trans hright.1.symm
  | _ => cases hleft

/-- Every transaction keeps the running steps exclusive. -/
theorem Exclusive.apply (h : Exclusive run) (happly : transaction.apply now run = .ok next)
    (hkept : PlanKept run) (hreconciled : IsReconciled run) (htable : AttemptTable run)
    (hmark : ∀ attemptId, transaction = .markRunning attemptId →
      ∀ attempt ∈ run.attempts, attempt.id = attemptId → attempt.state.isActive = true) :
    Exclusive next := by
  have hactive := Transaction.apply_activeStepIds happly hmark
  constructor
  · intro left right l r hl hr hlrun hrrun hne
    obtain ⟨before, hbefore, hldef, hlcases⟩ := before_running happly hkept hl hlrun
    obtain ⟨before', hbefore', hrdef, hrcases⟩ := before_running happly hkept hr hrrun
    rw [hldef, hrdef]
    rcases hlcases with hlbefore | ⟨hlstarts, hllaunch⟩
    · rcases hrcases with hrbefore | ⟨-, hrlaunch⟩
      · exact h.locks left right before before' hbefore hbefore' hlbefore hrbefore hne
      · exact (launchable_compatible hreconciled hrlaunch hbefore' hbefore hlbefore).symm
    · rcases hrcases with hrbefore | ⟨hrstarts, -⟩
      · exact launchable_compatible hreconciled hllaunch hbefore hbefore' hrbefore
      · exact absurd (startsStep_unique hlstarts hrstarts) hne
  · rw [(Transaction.apply_header happly).maxConcurrentWorkers]
    rcases hactive with hsublist | ⟨stepId, hlaunch, -, hsublist⟩
    · have hle := heldSlots_apply happly hkept hsublist fun _ => htable.recorded_active
      rw [← heldSlots_eq] at hle
      exact Nat.le_trans hle h.slots
    · have hle := heldSlots_apply happly hkept hsublist (by
        intro other hother
        rcases List.mem_append.mp hother with hold | hnew
        · exact htable.recorded_active hold
        · rw [List.mem_singleton] at hnew
          obtain ⟨-, -, -, record, hrecord, -, -⟩ := launchable_facts hlaunch
          rw [hnew]
          exact ⟨record, hrecord⟩)
      have hroom := launchable_slots hreconciled h.slots
      have hone : ([stepId].filter (consumesSlot run)).length ≤
          ((launchableStepIds run).filter (consumesSlot run)).length :=
        ((List.singleton_sublist.mpr hlaunch).filter _).length_le
      rw [List.filter_append, List.length_append, ← heldSlots_eq] at hle
      omega
  · rcases hactive with hsublist | ⟨stepId, hlaunch, -, hsublist⟩
    · exact h.single.sublist hsublist
    · apply List.Nodup.sublist hsublist
      rw [List.nodup_append]
      refine ⟨h.single, List.nodup_singleton _, ?_⟩
      intro other hother x hx
      rw [List.mem_singleton] at hx
      rw [hx]
      rintro rfl
      exact (launchable_facts hlaunch).2.1 hother

end Write

/-! ## Reachable runs -/

variable {accepts : WorkflowRunState → Prop} {world : World}

/-- Nothing runs in a created run. -/
theorem created_not_running {input : CreateWorkflowRunStateInput} {run : WorkflowRunState}
    (h : Created input run) (hkept : PlanKept run) {stepId : String} {record : WorkflowStepRecord}
    (hrecord : run.steps.get? stepId = some record) : record.state ≠ .running := by
  rw [h.initial hkept hrecord]
  unfold initialStepRecord
  dsimp only
  split <;> simp

/-- The running steps of every reachable run exclude each other. -/
theorem exclusive_reachable (h : (engineSystem PlanValidated accepts).Reachable world) :
    Exclusive world.run := by
  apply h.invariant
  · intro s hstarts
    obtain ⟨input, -, hcreate⟩ := hstarts.input
    have hcreated := createWorkflowRunState_ok hcreate
    have hnone : activeAttempts s.run = [] := by rw [activeAttempts, hcreated.attempts]; rfl
    refine ⟨?_, ?_, ?_⟩
    · intro left right l r hl _ hrunning
      exact absurd hrunning (created_not_running hcreated (planKept_of_starts hstarts) hl)
    · rw [heldSlots, hnone]
      exact Nat.zero_le _
    · rw [activeStepIds, hnone]
      exact List.nodup_nil
  · intro s a t hreach hrun hstep
    rcases Step.run_cases hstep with hsame | ⟨transaction, now, rfl, happly⟩
    · rw [hsame]
      exact hrun
    · have htracked := tracked_reachable hreach
      apply hrun.apply happly (planKept_reachable hreach) (isReconciled_reachable hreach)
        htracked.table
      rintro attemptId rfl attempt hattempt hid
      rw [htracked.marks_prepared hstep attempt hattempt hid]
      rfl

section LaunchSets

variable {run : WorkflowRunState}

private theorem startAll_record {attempts : List WorkflowStepAttempt} {stepId : String}
    {record : WorkflowStepRecord} (hrecord : (startAll run attempts).steps.get? stepId = some record)
    (hrunning : record.state = .running) :
    ∃ before, run.steps.get? stepId = some before ∧ record.definition = before.definition ∧
      (stepId ∈ attempts.map (·.stepId) ∨ before.state = .running) := by
  simp only [startAll, OrderedRecord.get?_mapValues, Option.map_eq_some_iff] at hrecord
  obtain ⟨before, hbefore, heq⟩ := hrecord
  refine ⟨before, hbefore, ?_⟩
  split at heq
  · next hstarted =>
    rw [← heq]
    exact ⟨rfl, Or.inl hstarted⟩
  · rw [heq]
    exact ⟨rfl, Or.inr hrunning⟩

private theorem consumesSlot_startAll (attempts : List WorkflowStepAttempt) (stepId : String) :
    consumesSlot (startAll run attempts) stepId = consumesSlot run stepId := by
  unfold consumesSlot startAll
  simp only [OrderedRecord.get?_mapValues]
  cases run.steps.get? stepId with
  | none => rfl
  | some record =>
    dsimp only [Option.map_some]
    split <;> rfl

private theorem activeStepIds_startAll (attempts : List WorkflowStepAttempt) :
    (activeStepIds (startAll run attempts)).Sublist
      (activeStepIds run ++ attempts.map (·.stepId)) := by
  unfold activeStepIds activeAttempts startAll
  rw [List.filter_append, List.map_append]
  exact List.Sublist.append_left (List.filter_sublist.map _) _

/-- What the scheduler launches in an exclusive run may start as a whole. -/
theorem launches_launchable (h : Exclusive run) (hkept : PlanKept run)
    (hreconciled : IsReconciled run) : Launches run (launchableStepIds run) := by
  have hordered : (launchableStepIds run).Sublist (topologicalStepIds run.plan) := by
    by_cases hrunning : run.state = .running
    · exact (launchableStepIds_selects hreconciled hrunning).sublist
    · rw [launchableStepIds_of_not_running hrunning]
      exact List.nil_sublist _
  refine ⟨hordered, ?_⟩
  intro attempts hattempts
  have hsublist := @activeStepIds_startAll run attempts
  rw [hattempts] at hsublist
  constructor
  · intro left right l r hl hr hlrun hrrun hne
    obtain ⟨before, hbefore, hldef, hlcases⟩ := startAll_record hl hlrun
    obtain ⟨before', hbefore', hrdef, hrcases⟩ := startAll_record hr hrrun
    rw [hattempts] at hlcases hrcases
    rw [hldef, hrdef]
    rcases hlcases with hllaunch | hlbefore
    · rcases hrcases with hrlaunch | hrbefore
      · have hselects := launchableStepIds_selects hreconciled (launchable_facts hllaunch).1
        have hno := hselects.compatible idsConflict_comm hllaunch hrlaunch hne
        rw [locksCompatible_iff, ← idsConflict_eq hbefore hbefore']
        exact hno
      · exact launchable_compatible hreconciled hllaunch hbefore hbefore' hrbefore
    · rcases hrcases with hrlaunch | hrbefore
      · exact (launchable_compatible hreconciled hrlaunch hbefore' hbefore hlbefore).symm
      · exact h.locks left right before before' hbefore hbefore' hlbefore hrbefore hne
  · have hle := (hsublist.filter (consumesSlot run)).length_le
    have hroom := launchable_slots hreconciled h.slots
    rw [List.filter_append, List.length_append, ← heldSlots_eq] at hle
    rw [heldSlots_eq]
    have hsame : (activeStepIds (startAll run attempts)).filter
          (consumesSlot (startAll run attempts)) =
        (activeStepIds (startAll run attempts)).filter (consumesSlot run) :=
      List.filter_congr fun stepId _ => consumesSlot_startAll attempts stepId
    have hmax : (startAll run attempts).maxConcurrentWorkers = run.maxConcurrentWorkers := rfl
    rw [hsame, hmax]
    omega
  · apply List.Nodup.sublist hsublist
    rw [List.nodup_append]
    refine ⟨h.single, hkept.nodup_order.sublist hordered, ?_⟩
    intro stepId hactive other hlaunch
    rintro rfl
    exact (launchable_facts hlaunch).2.1 hactive

/-- What the scheduler launches in a running run is maximal. -/
theorem maximal_launchable (hkept : PlanKept run) (hreconciled : IsReconciled run)
    (hrunning : run.state = .running) : Maximal run (launchableStepIds run) := by
  intro stepId record hrecord hready hunclaimed hout
  have hselects := launchableStepIds_selects hreconciled hrunning
  have hstart : (launchRules run).eligible stepId = true := by
    simp only [launchRules, isStartable, hrecord, Bool.and_eq_true]
    exact ⟨decide_eq_true hready, decide_eq_true hunclaimed⟩
  rcases hselects.maximal stepId (hkept.mem_order_iff.mpr ⟨record, hrecord⟩) hstart hout with
    ⟨other, hother, hconflict⟩ | ⟨hcosts, hspent⟩
  · left
    have hyes : idsConflict run stepId other = true := hconflict
    cases hr : run.steps.get? other with
    | none =>
      unfold idsConflict at hyes
      rw [hrecord, hr] at hyes
      cases hyes
    | some r =>
      rw [idsConflict_eq hrecord hr] at hyes
      refine ⟨other, r, hr, ?_, ?_⟩
      · rcases List.mem_append.mp hother with hheld | htaken
        · obtain ⟨found, hfound, hrun⟩ := mem_runningStepIds_iff.mp hheld
          rw [hr, Option.some.injEq] at hfound
          rw [hfound]
          exact Or.inl hrun
        · exact Or.inr htaken
      · rw [locksCompatible_iff, hyes]
        simp
  · right
    refine ⟨hcosts, ?_⟩
    have hlength : (launchRules run).spent (launchableStepIds run) =
        ((launchableStepIds run).filter (consumesSlot run)).length := rfl
    have hroom : (launchRules run).capacity = run.maxConcurrentWorkers - occupiedSlots run := rfl
    rw [hlength, hroom] at hspent
    omega

end LaunchSets

/-- In every reachable run the running steps exclude each other; what the scheduler launches
follows the plan and may start as a whole; it is maximal while the run is running, and empty once
it is not. -/
theorem mutual_exclusion (h : (engineSystem PlanValidated accepts).Reachable world) :
    Exclusive world.run ∧ Launches world.run (launchableStepIds world.run) ∧
      (world.run.state = .running → Maximal world.run (launchableStepIds world.run)) ∧
      (world.run.state ≠ .running → launchableStepIds world.run = []) :=
  ⟨exclusive_reachable h,
    launches_launchable (exclusive_reachable h) (planKept_reachable h) (isReconciled_reachable h),
    maximal_launchable (planKept_reachable h) (isReconciled_reachable h),
    launchableStepIds_of_not_running⟩

/-- The guarantees hold right after the first reservation. -/
theorem mutual_exclusion_reservedRun :
    Exclusive reservedRun ∧ Launches reservedRun (launchableStepIds reservedRun) ∧
      (reservedRun.state = .running → Maximal reservedRun (launchableStepIds reservedRun)) ∧
      (reservedRun.state ≠ .running → launchableStepIds reservedRun = []) :=
  @mutual_exclusion (Accepts id) _ (reservedRun_reachable id)

/-! ## A failed run launches nothing

Two independent steps are ready; the first cannot start and the run fails. -/

/-- A change step beside `edit`. -/
def writeStep : StepDefinition := changeStep "write" [] ["src/b"]

/-- Two independent change steps before anything ran. -/
def independentRun : WorkflowRunState := smallRun [editStep, writeStep]

/-- The run once `edit` could not start. -/
def unstartedRun : WorkflowRunState :=
  { independentRun with
    state := .failed
    steps := .ofList [("edit", { initialStepRecord editStep with
        state := .failed, error := some "no worktree" }),
      ("write", initialStepRecord writeStep)]
    events := [⟨1, "1", .stepFailed "edit" "" "no worktree" .terminal "the step could not start"⟩]
    eventSequence := 1
    updatedAt := "1" }

/-- A launch can fail while another step is ready. -/
theorem unstartedRun_reachable (sha256Hex : String → String) :
    (storedEngine sha256Hex).Reachable (engineAt unstartedRun .dispatched []) := by
  have hcreated : (storedEngine sha256Hex).Reachable (engineAt independentRun .integrating []) :=
    .of_initial
      { input := ⟨smallInput [editStep, writeStep] 2,
          ⟨(smallPlan [editStep, writeStep]).toJson, rfl⟩, rfl⟩
        accepted := rfl, process := rfl, cancellers := rfl, branch := rfl }
  have hreturned : (storedEngine sha256Hex).Reachable
      (engineAt independentRun (.returned .running) []) :=
    hcreated.step_to (Step.move rfl (Moves.load rfl)) rfl
  have hqueue : (storedEngine sha256Hex).Reachable
      (engineAt independentRun (.dispatching ["edit", "write"]) []) :=
    hreturned.step_to (Step.move rfl (Moves.dispatch rfl)) rfl
  have hpreparing : (storedEngine sha256Hex).Reachable
      (engineAt independentRun (.preparing ⟨"edit", .mutable, 1, "base"⟩ ["write"]) []) :=
    hqueue.step_to (Step.move rfl (Moves.launch rfl)) rfl
  have hfailing : (storedEngine sha256Hex).Reachable
      (engineAt independentRun (.failingLaunch "edit" "no worktree") []) :=
    hpreparing.step_to (Step.move rfl (Moves.prepareFailed rfl)) rfl
  have hfail : (Transaction.failStep "edit" "no worktree").apply (clock "1") independentRun =
      .ok unstartedRun := rfl
  have haccepted : Accepts sha256Hex unstartedRun := rfl
  exact hfailing.step_to (Step.write (Issues.failLaunch rfl) hfail fun _ => haccepted) rfl

/-- A reachable run that is not running leaves a ready step out though nothing is in its way. -/
theorem not_maximal : ¬ ∀ (sha256Hex : String → String) (world : World),
    (storedEngine sha256Hex).Reachable world →
      Exclusive world.run ∧ Launches world.run (launchableStepIds world.run) ∧
        Maximal world.run (launchableStepIds world.run) := by
  intro h
  obtain ⟨-, -, hmaximal⟩ := h id _ (unstartedRun_reachable id)
  have hready : unstartedRun.steps.get? "write" = some (initialStepRecord writeStep) := rfl
  have hunclaimed : "write" ∉ activeStepIds unstartedRun := by decide
  have hout : "write" ∉ launchableStepIds unstartedRun := by
    rw [launchableStepIds_of_not_running (by decide)]
    exact List.not_mem_nil
  have hnone : launchableStepIds unstartedRun = [] := launchableStepIds_of_not_running (by decide)
  rcases hmaximal "write" _ hready rfl hunclaimed hout with
    ⟨other, r, hother, hrunning | hlaunch, -⟩ | ⟨-, hfull⟩
  · have hmem := mem_runningStepIds_iff.mpr ⟨r, hother, hrunning⟩
    have hempty : runningStepIds unstartedRun = [] := rfl
    rw [show (engineAt unstartedRun .dispatched []).run = unstartedRun from rfl, hempty] at hmem
    cases hmem
  · rw [show (engineAt unstartedRun .dispatched []).run = unstartedRun from rfl, hnone] at hlaunch
    cases hlaunch
  · rw [show (engineAt unstartedRun .dispatched []).run = unstartedRun from rfl, hnone] at hfull
    have hzero : occupiedSlots unstartedRun = 0 := rfl
    rw [hzero] at hfull
    cases hfull

end BuildConductor.Lifecycle
