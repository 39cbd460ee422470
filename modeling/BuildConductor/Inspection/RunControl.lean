import BuildConductor.Domain.Scheduler
import BuildConductor.Inspection.RunView
import Mathlib.Data.Finset.Card
import Mathlib.Data.Finset.Dedup

/-!
# Run control

What work of a failed run may be tried again, and the run a retry of that work starts from.
`src/src/inspection/run-control.ts`.
-/

namespace BuildConductor.Inspection

open Base Domain

/-- `src/src/inspection/run-control.ts:17-24`. -/
inductive RunRetryBlockReason
  | runNotFailed | runNotApproved | activeAttempts | interruptedAttempts | reviewPhaseUnsupported
  | repairPhaseUnsupported | noRetryableFailure
deriving DecidableEq, Repr

/-- `src/src/inspection/run-control.ts:26-49`. -/
inductive RunRetryAssessment
  | steps (failedUnitIds resetUnitIds : List String)
  | finalValidation (attemptId : String)
  | blocked (reasonCode : RunRetryBlockReason) (reason : String)
deriving DecidableEq, Repr

/-- `src/src/inspection/run-control.ts:73-82`. -/
def activeAttemptIds (view : RunView) : List String :=
  (view.attempts.filter fun attempt => attempt.state.isActive).map (·.id) ++
    (view.finalValidationAttempts.filter fun attempt => attempt.state = .running).map (·.id)

/-- The newest attempt of each unit, by the first attempt of the unit.
`src/src/inspection/run-control.ts:89-92`. -/
def latestAttempts (attempts : List RunAttemptView) : List RunAttemptView :=
  (attempts.map (·.unitId)).reverse.dedup.reverse.filterMap fun unitId =>
    attempts.reverse.find? fun attempt => attempt.unitId = unitId

/-- `src/src/inspection/run-control.ts:88-100`. -/
def interruptedAttemptIds (view : RunView) : List String :=
  ((latestAttempts view.attempts).filter fun attempt => attempt.state = .interrupted).map (·.id) ++
    (view.finalValidationAttempts.getLast?.toList.filter fun attempt =>
      attempt.state = .interrupted).map (·.id)

/-- `src/src/inspection/run-control.ts:102-104`. -/
def failedUnits (view : RunView) : List RunUnitView :=
  view.units.filter fun unit => unit.state = .failed

/-- A blocked unit behind one that is reset is reset too. `src/src/inspection/run-control.ts:115-123`. -/
def resetUnit (resetIds : List String) (unit : RunUnitView) : List String :=
  if unit.state = .blocked ∧ unit.id ∉ resetIds ∧ unit.dependencies.any (· ∈ resetIds) then
    resetIds ++ [unit.id]
  else resetIds

/-- The passes over the units, until one adds nothing. Every other pass adds the identity of a
further unit. `src/src/inspection/run-control.ts:112-125`. -/
def resetPasses (units : List RunUnitView) : Nat → List String → List String
  | 0, resetIds => resetIds
  | passes + 1, resetIds =>
    let next := units.foldl resetUnit resetIds
    if next = resetIds then resetIds else resetPasses units passes next

/-- Behind some units: one of them, or blocked with a dependency behind them. -/
inductive BehindReset (units : List RunUnitView) (resetIds : List String) : String → Prop
  | reset {id : String} (hid : id ∈ resetIds) : BehindReset units resetIds id
  | blocked {unit : RunUnitView} {d : String} (hunit : unit ∈ units) (hstate : unit.state = .blocked)
      (hd : d ∈ unit.dependencies) (hbehind : BehindReset units resetIds d) :
      BehindReset units resetIds unit.id

section Passes

variable {units : List RunUnitView} {resetIds : List String}

private theorem resetUnit_subset (resetIds : List String) (unit : RunUnitView) :
    resetIds ⊆ resetUnit resetIds unit := by
  unfold resetUnit
  split
  · exact List.subset_append_left resetIds [unit.id]
  · exact List.Subset.refl resetIds

private theorem resetPass_subset (units : List RunUnitView) (resetIds : List String) :
    resetIds ⊆ units.foldl resetUnit resetIds := by
  induction units generalizing resetIds with
  | nil => exact List.Subset.refl resetIds
  | cons unit rest ih => exact List.Subset.trans (resetUnit_subset resetIds unit) (ih _)

/-- A pass that finds no further id leaves the ids alone, and no unit to reset. -/
private theorem resetPass_eq (h : units.foldl resetUnit resetIds ⊆ resetIds) :
    units.foldl resetUnit resetIds = resetIds ∧ ∀ unit ∈ units, unit.state = .blocked →
      ∀ d ∈ unit.dependencies, d ∈ resetIds → unit.id ∈ resetIds := by
  induction units with
  | nil => exact ⟨rfl, fun _ hunit => absurd hunit List.not_mem_nil⟩
  | cons unit rest ih =>
    rw [List.foldl_cons] at h ⊢
    have hadded : resetUnit resetIds unit ⊆ resetIds := List.Subset.trans (resetPass_subset rest _) h
    have hkept : ¬ (unit.state = .blocked ∧ unit.id ∉ resetIds ∧
        unit.dependencies.any (· ∈ resetIds)) := by
      intro hreset
      unfold resetUnit at hadded
      rw [if_pos hreset] at hadded
      exact hreset.2.1 (hadded (List.mem_append_right _ (List.mem_singleton_self _)))
    have hsame : resetUnit resetIds unit = resetIds := if_neg hkept
    rw [hsame] at h ⊢
    obtain ⟨heq, hrest⟩ := ih h
    refine ⟨heq, List.forall_mem_cons.mpr ⟨?_, hrest⟩⟩
    intro hblocked d hd hreset
    by_contra hnot
    exact hkept ⟨hblocked, hnot, List.any_eq_true.mpr ⟨d, hd, decide_eq_true hreset⟩⟩

/-- What a pass adds are units behind those it started from. -/
private theorem resetPass_sound {more : List RunUnitView} (hmore : more ⊆ units) {ids : List String}
    (hids : ∀ id ∈ ids, BehindReset units resetIds id) :
    ∀ id ∈ more.foldl resetUnit ids, BehindReset units resetIds id := by
  induction more generalizing ids with
  | nil => exact hids
  | cons unit rest ih =>
    rw [List.foldl_cons]
    apply ih (fun _ hrest => hmore (List.mem_cons_of_mem _ hrest))
    intro id hid
    unfold resetUnit at hid
    split at hid
    · next hreset =>
      rcases List.mem_append.mp hid with hbefore | hself
      · exact hids id hbefore
      · obtain ⟨d, hd, hmem⟩ := List.any_eq_true.mp hreset.2.2
        rw [List.mem_singleton.mp hself]
        exact .blocked (hmore List.mem_cons_self) hreset.1 hd (hids d (of_decide_eq_true hmem))
    · exact hids id hid

private theorem resetPasses_sound {passes : Nat} {ids : List String}
    (hids : ∀ id ∈ ids, BehindReset units resetIds id) :
    ∀ id ∈ resetPasses units passes ids, BehindReset units resetIds id := by
  induction passes generalizing ids with
  | zero => exact hids
  | succ passes ih =>
    unfold resetPasses
    dsimp only
    split
    · exact hids
    · exact ih (resetPass_sound (List.Subset.refl units) hids)

/-- With a pass more than there are units left to reset, the passes end at ids that nothing is
behind. -/
private theorem resetPasses_closed {passes : Nat} {ids : List String}
    (hpasses : ((units.map (·.id)).toFinset \ ids.toFinset).card < passes) :
    ids ⊆ resetPasses units passes ids ∧ ∀ unit ∈ units, unit.state = .blocked →
      ∀ d ∈ unit.dependencies, d ∈ resetPasses units passes ids →
        unit.id ∈ resetPasses units passes ids := by
  induction passes generalizing ids with
  | zero => exact absurd hpasses (Nat.not_lt_zero _)
  | succ passes ih =>
    unfold resetPasses
    dsimp only
    split
    · next hsame =>
      refine ⟨List.Subset.refl ids, (resetPass_eq ?_).2⟩
      rw [hsame]
      exact List.Subset.refl ids
    · next hgrows =>
      have hsub := resetPass_subset units ids
      have hfresh : ∃ id ∈ units.foldl resetUnit ids, id ∉ ids := by
        by_contra hnone
        push Not at hnone
        exact hgrows (resetPass_eq hnone).1
      obtain ⟨id, hid, hnew⟩ := hfresh
      have hunit : id ∈ units.map (·.id) := by
        have hbehind := @resetPass_sound units ids units (List.Subset.refl units) ids
          (fun _ => .reset) id hid
        cases hbehind with
        | reset hold => exact absurd hold hnew
        | blocked hunit _ _ _ => exact List.mem_map_of_mem hunit
      have hfewer : (units.map (·.id)).toFinset \ (units.foldl resetUnit ids).toFinset ⊂
          (units.map (·.id)).toFinset \ ids.toFinset := by
        rw [Finset.ssubset_iff_of_subset]
        · exact ⟨id, by simp_all, by simp_all⟩
        · apply Finset.sdiff_subset_sdiff (Finset.Subset.refl _)
          intro x hx
          rw [List.mem_toFinset] at hx ⊢
          exact hsub hx
      obtain ⟨hstart, hclosed⟩ := ih (lt_of_lt_of_le (Finset.card_lt_card hfewer)
        (Nat.le_of_lt_succ hpasses))
      exact ⟨List.Subset.trans hsub hstart, hclosed⟩

/-- The passes reset just the units behind those they start from. -/
theorem mem_resetPasses_iff {id : String} :
    id ∈ resetPasses units (units.length + 1) resetIds ↔ BehindReset units resetIds id := by
  constructor
  · exact resetPasses_sound (fun _ => .reset) id
  · have hcard : ((units.map (·.id)).toFinset \ resetIds.toFinset).card < units.length + 1 := by
      have hunits := (units.map (·.id)).toFinset_card_le
      have hless := Finset.card_le_card (@Finset.sdiff_subset _ _ (units.map (·.id)).toFinset
        resetIds.toFinset)
      rw [List.length_map] at hunits
      omega
    obtain ⟨hstart, hclosed⟩ := resetPasses_closed hcard
    intro h
    induction h with
    | reset hid => exact hstart hid
    | blocked hunit hstate hd _ ih => exact hclosed _ hunit hstate _ hd ih

end Passes

/-- The failed units plus every unit blocked behind them.
`src/src/inspection/run-control.ts:107-133`. -/
def stepRetryWork (view : RunView) (failed : List RunUnitView) : RunRetryAssessment :=
  let resetIds := resetPasses view.units (view.units.length + 1) (failed.map (·.id))
  .steps (failed.map (·.id)) ((view.units.map (·.id)).filter (· ∈ resetIds))

/-- `src/src/inspection/run-control.ts:135-142`. -/
def finalValidationRetryWork (view : RunView) : Option RunRetryAssessment :=
  view.finalValidationAttempts.getLast?.bind fun attempt =>
    if attempt.state = .failed then some (.finalValidation attempt.id) else none

/-- The last attempt of a role that failed. -/
def lastFailed (view : RunView) (role : RunUnitRole) : Option RunAttemptView :=
  view.attempts.reverse.find? fun attempt => attempt.role = role ∧ attempt.state = .failed

/-- Why a run that keeps its own attempts cannot be retried past its reviews.
`src/src/inspection/run-control.ts:151-170`. -/
def legacyReviewBlock (view : RunView) : Option RunRetryAssessment :=
  match lastFailed view .repair with
  | some repair => some (.blocked .repairPhaseUnsupported
      s!"Run {view.id} failed during repair attempt {repair.id}; repair retries require review-round coordination and are not safe through this transition")
  | none =>
    let review := lastFailed view .review
    if review ≠ none ∨ (reviewRoundViewStates view).getLast? = some .failed then
      let attempt := (review.map fun attempt => s!" attempt {attempt.id}").getD ""
      some (.blocked .reviewPhaseUnsupported
        s!"Run {view.id} failed during review{attempt}; review retries require review-round coordination and are not safe through this transition")
    else none

/-- `src/src/inspection/run-control.ts:213-217`. -/
def noRetryableFailure (view : RunView) : RunRetryAssessment :=
  .blocked .noRetryableFailure
    s!"Run {view.id} is failed, but no failed step or latest failed final-validation attempt identifies safe retry work; inspect the run failure before retrying"

/-- What may be retried of a run whose own checks passed. `src/src/inspection/run-control.ts:203-233`. -/
def failedRunWork (view : RunView) : RunRetryAssessment :=
  match view.source with
  | .legacy =>
    let failedChanges := (failedUnits view).filter fun unit => unit.role = .change
    if failedChanges ≠ [] then stepRetryWork view failedChanges
    else ((finalValidationRetryWork view).or (legacyReviewBlock view)).getD (noRetryableFailure view)
  | .engine =>
    if failedUnits view ≠ [] then stepRetryWork view (failedUnits view)
    else (finalValidationRetryWork view).getD (noRetryableFailure view)

/-- `src/src/inspection/run-control.ts:172-233`. -/
def retryableRunWork (view : RunView) : RunRetryAssessment :=
  if view.state ≠ .failed then
    .blocked .runNotFailed s!"Run {view.id} is {view.state.name}; only failed runs can be retried"
  else if view.approvedPlanRevision = none ∨ view.approvedAt = none then
    .blocked .runNotApproved
      s!"Run {view.id} has no approved plan; approve a plan before starting work"
  else if activeAttemptIds view ≠ [] then
    .blocked .activeAttempts
      (s!"Run {view.id} still has active attempts (" ++
        String.intercalate ", " (activeAttemptIds view) ++
        "); wait for or cancel them before retrying")
  else if interruptedAttemptIds view ≠ [] then
    .blocked .interruptedAttempts
      (s!"Run {view.id} has interrupted attempts (" ++
        String.intercalate ", " (interruptedAttemptIds view) ++
        "); resume the run instead of retrying so recovery can reconcile them")
  else failedRunWork view

/-- A view passes the checks made before a retry looks for work. -/
structure RetryChecked (view : RunView) : Prop where
  failed : view.state = .failed
  approvedPlanRevision : view.approvedPlanRevision ≠ none
  approvedAt : view.approvedAt ≠ none
  inactive : activeAttemptIds view = []
  uninterrupted : interruptedAttemptIds view = []

/-- A view that passes the checks is retried by its failed work. -/
theorem RetryChecked.retryableRunWork_eq {view : RunView} (h : RetryChecked view) :
    retryableRunWork view = failedRunWork view := by
  unfold retryableRunWork
  rw [if_neg (not_not.mpr h.failed), if_neg, if_neg (not_not.mpr h.inactive),
    if_neg (not_not.mpr h.uninterrupted)]
  rw [not_or]
  exact ⟨h.approvedPlanRevision, h.approvedAt⟩

/-- What may be retried passed the checks. -/
theorem retryChecked_of_retryable {view : RunView}
    (h : ∀ code reason, retryableRunWork view ≠ .blocked code reason) : RetryChecked view := by
  unfold retryableRunWork at h
  split at h
  · exact absurd rfl (h _ _)
  · next hfailed =>
    split at h
    · exact absurd rfl (h _ _)
    · next happroved =>
      split at h
      · exact absurd rfl (h _ _)
      · next hactive =>
        split at h
        · exact absurd rfl (h _ _)
        · next hinterrupted =>
          rw [not_or] at happroved
          exact ⟨not_not.mp hfailed, happroved.1, happroved.2, not_not.mp hactive,
            not_not.mp hinterrupted⟩

/-! ## Retrying a run that keeps its own attempts -/

/-- An attempt that already produced the commit of its task. `src/src/inspection/run-control.ts:270-277`. -/
def hasCommittedAttempt (run : OrchestrationRun) (task : RunTask) : Bool :=
  task.attemptIds.any fun attemptId => run.attempts.any fun attempt =>
    attempt.id = attemptId ∧ attempt.state = .succeeded ∧ attempt.commit ≠ none

/-- A task whose commit could not be integrated keeps the commit, any other failed task is planned
again. `src/src/inspection/run-control.ts:264-284`. -/
def resetFailedTask (run : OrchestrationRun) (task : RunTask) : RunTask :=
  if (present task.integrationError).isSome ∧ hasCommittedAttempt run task then
    { task with integrationError := none, state := .succeeded }
  else { task with integrationError := none, state := .planned }

/-- `src/src/inspection/run-control.ts:302-312`. -/
def resetTask (run : OrchestrationRun) (failedIds resetIds : List String) (taskId : String)
    (task : RunTask) : RunTask :=
  if taskId ∈ failedIds then resetFailedTask run task
  else if taskId ∈ resetIds then { task with state := .planned }
  else task

/-- A refused retry throws its reason. `src/src/inspection/run-control.ts:290-322`. -/
def prepareFailedRunRetry (run : OrchestrationRun) (now : Timestamp) :
    Except String OrchestrationRun :=
  match retryableRunWork (legacyRunView run) with
  | .blocked _ reason => .error reason
  | .finalValidation _ => .ok { run with state := .reviewed, updatedAt := now.text }
  | .steps failedIds resetIds =>
    reconcileTaskStates
      { run with
        state := .running
        tasks := run.tasks.mapValues (resetTask run failedIds resetIds)
        updatedAt := now.text }

end BuildConductor.Inspection
