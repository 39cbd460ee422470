import BuildConductor.Domain.Scheduler

/-!
# What a scheduling pass changes

A pass over the tasks of a run touches nothing but the states of the tasks that wait, and such a
task still waits afterwards. `src/src/domain/scheduler.ts:14-47`.
-/

namespace BuildConductor.Domain

open Base (OrderedRecord)

/-- A pass keeps a task up to its state, and the state of a task that does not wait. -/
structure Reconciled (before after : RunTask) : Prop where
  record : after = { before with state := after.state }
  kept : before.state.isKept = true → after.state = before.state
  waiting : before.state.isKept = false → after.state.isKept = false

namespace Reconciled

variable {before after last : RunTask}

theorem refl (task : RunTask) : Reconciled task task := ⟨rfl, fun _ => rfl, fun h => h⟩

theorem trans (h : Reconciled before after) (h' : Reconciled after last) :
    Reconciled before last := by
  refine ⟨?_, ?_, fun hwaiting => h'.waiting (h.waiting hwaiting)⟩
  · rw [h'.record, h.record]
  · intro hkept
    have hstate := h.kept hkept
    rw [h'.kept (by rw [hstate, hkept]), hstate]

theorem definition (h : Reconciled before after) : after.definition = before.definition := by
  rw [h.record]

theorem attemptIds (h : Reconciled before after) : after.attemptIds = before.attemptIds := by
  rw [h.record]

theorem integratedCommit (h : Reconciled before after) :
    after.integratedCommit = before.integratedCommit := by
  rw [h.record]

theorem integrationError (h : Reconciled before after) :
    after.integrationError = before.integrationError := by
  rw [h.record]

/-- A task that does not wait is kept whole. -/
theorem eq_of_kept (h : Reconciled before after) (hkept : before.state.isKept = true) :
    after = before := by
  rw [h.record, h.kept hkept]

/-- A task in a state that does not wait was in that state before. -/
theorem state_of_kept (h : Reconciled before after) (hkept : after.state.isKept = true) :
    after.state = before.state := by
  cases hbefore : before.state.isKept with
  | true => exact h.kept hbefore
  | false =>
    rw [h.waiting hbefore] at hkept
    cases hkept

end Reconciled

/-- The next state of a task that waits is one it waits in. -/
theorem nextState_waiting {task : RunTask} {tasks : OrderedRecord String RunTask}
    (h : task.state.isKept = false) : (nextState task tasks).isKept = false := by
  unfold nextState
  rw [if_neg (by rw [h]; simp)]
  split
  · rfl
  · split <;> rfl

theorem nextState_kept {task : RunTask} {tasks : OrderedRecord String RunTask}
    (h : task.state.isKept = true) : nextState task tasks = task.state := by
  unfold nextState
  rw [if_pos h]

private theorem reconcileTask_reconciled (tasks : OrderedRecord String RunTask) (id : String) :
    (reconcileTask tasks id).keys = tasks.keys ∧
      OrderedRecord.Pointwise (fun _ => Reconciled) tasks (reconcileTask tasks id) := by
  unfold reconcileTask
  split
  · exact ⟨rfl, OrderedRecord.Pointwise.refl (fun _ => Reconciled.refl) tasks⟩
  · next task hget =>
    constructor
    · apply OrderedRecord.keys_set_of_mem
      rw [OrderedRecord.mem_keys_iff, hget]
      rfl
    · exact OrderedRecord.pointwise_set (fun _ => Reconciled.refl) hget
        ⟨rfl, fun hkept => nextState_kept hkept, fun hwaiting => nextState_waiting hwaiting⟩

/-- A pass keeps the tasks and their order, and reconciles each. -/
theorem foldl_reconcileTask (ids : List String) (tasks : OrderedRecord String RunTask) :
    (ids.foldl reconcileTask tasks).keys = tasks.keys ∧
      OrderedRecord.Pointwise (fun _ => Reconciled) tasks (ids.foldl reconcileTask tasks) := by
  induction ids generalizing tasks with
  | nil => exact ⟨rfl, OrderedRecord.Pointwise.refl (fun _ => Reconciled.refl) tasks⟩
  | cons id rest ih =>
    obtain ⟨hkeys, hfirst⟩ := reconcileTask_reconciled tasks id
    obtain ⟨hrest, hlater⟩ := ih (reconcileTask tasks id)
    rw [List.foldl_cons]
    refine ⟨hrest.trans hkeys, hfirst.trans ?_ hlater⟩
    exact fun _ _ _ _ h h' => h.trans h'

end BuildConductor.Domain
