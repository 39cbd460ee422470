import BuildConductor.Domain.TaskStates
import BuildConductor.Storage.StoredRun

/-!
# Rewriting a stored run

A run may be rewritten while it is stored: attempts that were under way are interrupted and tasks
are planned again. Such a rewriting keeps every check of the stored run that does not depend on its
state. `src/src/storage/run-store.ts:377-1430`.
-/

namespace BuildConductor.Storage.RunStore

open Base Domain Security Git

/-! ## Lists whose elements are rewritten in part -/

section Fixed

variable {α : Type} {p : α → Bool} {f : α → α}

private theorem filter_map_fixed (hkeeps : ∀ a, p (f a) = p a) (hfixed : ∀ a, p a = true → f a = a)
    (xs : List α) : (xs.map f).filter p = xs.filter p := by
  induction xs with
  | nil => rfl
  | cons a rest ih =>
    rw [List.map_cons, List.filter_cons, List.filter_cons, ih, hkeeps]
    split
    · next ha => rw [hfixed a ha]
    · rfl

private theorem find?_map_fixed (hkeeps : ∀ a, p (f a) = p a) (hfixed : ∀ a, p a = true → f a = a)
    (xs : List α) : (xs.map f).find? p = xs.find? p := by
  rw [← List.head?_filter, ← List.head?_filter, filter_map_fixed hkeeps hfixed]

private theorem find?_map_keeps (hkeeps : ∀ a, p (f a) = p a) (xs : List α) :
    (xs.map f).find? p = (xs.find? p).map f := by
  have hsame : p ∘ f = p := funext hkeeps
  rw [List.find?_map, hsame]

private theorem filter_map_sublist (hfixed : ∀ a, p (f a) = true → f a = a) (xs : List α) :
    ((xs.map f).filter p).Sublist (xs.filter p) := by
  induction xs with
  | nil => exact List.Sublist.refl _
  | cons a rest ih =>
    rw [List.map_cons, List.filter_cons, List.filter_cons]
    by_cases ha : p (f a) = true
    · have hself := hfixed a ha
      rw [if_pos ha]
      rw [hself] at ha ⊢
      rw [if_pos ha]
      exact ih.cons_cons a
    · rw [if_neg ha]
      split
      · exact ih.cons a
      · exact ih

end Fixed

/-! ## Rewritten attempts -/

/-- Attempts that are not under way stay as they are, the others may be interrupted. -/
def InterruptsTasks (f : TaskAttempt → TaskAttempt) : Prop :=
  ∀ attempt, f attempt = attempt ∨ attempt.state.isActive = true ∧ ∃ finishedAt error,
    f attempt = { attempt with state := .interrupted, finishedAt, error }

/-- The same for reviews. -/
def InterruptsReviews (f : ReviewAttempt → ReviewAttempt) : Prop :=
  ∀ attempt, f attempt = attempt ∨ attempt.state.isActive = true ∧ ∃ finishedAt error,
    f attempt = { attempt with state := .interrupted, finishedAt, error }

/-- The same for repairs. -/
def InterruptsRepairs (f : RepairAttempt → RepairAttempt) : Prop :=
  ∀ attempt, f attempt = attempt ∨ attempt.state.isActive = true ∧ ∃ finishedAt error,
    f attempt = { attempt with state := .interrupted, finishedAt, error }

/-- The same for final validations, which say when they ended and why. -/
def InterruptsFinals (f : FinalValidationAttempt → FinalValidationAttempt) : Prop :=
  ∀ attempt, f attempt = attempt ∨ attempt.state = .running ∧ ∃ finishedAt error,
    finishedAt ≠ "" ∧ error ≠ "" ∧
    f attempt = { attempt with
      state := .interrupted, finishedAt := some finishedAt, error := some error }

private theorem isActive_ne_succeeded {state : AttemptState} (h : state.isActive = true) :
    state ≠ .succeeded := by
  rintro rfl
  cases h

section Tasks

variable {f : TaskAttempt → TaskAttempt} (hf : InterruptsTasks f)

include hf

private theorem task_id (attempt : TaskAttempt) : (f attempt).id = attempt.id := by
  rcases hf attempt with h | ⟨-, finishedAt, error, h⟩ <;> rw [h]

private theorem task_taskId (attempt : TaskAttempt) : (f attempt).taskId = attempt.taskId := by
  rcases hf attempt with h | ⟨-, finishedAt, error, h⟩ <;> rw [h]

private theorem task_number (attempt : TaskAttempt) : (f attempt).number = attempt.number := by
  rcases hf attempt with h | ⟨-, finishedAt, error, h⟩ <;> rw [h]

private theorem task_commit (attempt : TaskAttempt) : (f attempt).commit = attempt.commit := by
  rcases hf attempt with h | ⟨-, finishedAt, error, h⟩ <;> rw [h]

private theorem task_succeeded_iff (attempt : TaskAttempt) :
    (f attempt).state = .succeeded ↔ attempt.state = .succeeded := by
  rcases hf attempt with h | ⟨hactive, finishedAt, error, h⟩
  · rw [h]
  · rw [h]
    exact iff_of_false (by simp) (isActive_ne_succeeded hactive)

private theorem task_of_succeeded {attempt : TaskAttempt} (h : attempt.state = .succeeded) :
    f attempt = attempt := by
  rcases hf attempt with hself | ⟨hactive, -⟩
  · exact hself
  · exact absurd h (isActive_ne_succeeded hactive)

private theorem task_of_active {attempt : TaskAttempt} (h : (f attempt).state.isActive = true) :
    f attempt = attempt := by
  rcases hf attempt with hself | ⟨-, finishedAt, error, heq⟩
  · exact hself
  · rw [heq] at h
    cases h

private theorem find?_task (xs : List TaskAttempt) (id : String) :
    ((xs.map f).find? fun attempt => attempt.id = id) =
      (xs.find? fun attempt => attempt.id = id).map f :=
  find?_map_keeps (fun attempt => by rw [task_id hf]) xs

private theorem map_task_ids (xs : List TaskAttempt) : (xs.map f).map (·.id) = xs.map (·.id) := by
  rw [List.map_map]
  exact List.map_congr_left fun attempt _ => task_id hf attempt

private theorem map_task_numbers (xs : List TaskAttempt) :
    ((xs.map f).map fun attempt => (attempt.taskId, attempt.number)) =
      xs.map fun attempt => (attempt.taskId, attempt.number) := by
  rw [List.map_map]
  refine List.map_congr_left fun attempt _ => ?_
  simp only [Function.comp_apply, task_taskId hf, task_number hf]

private theorem validateAttempts_rewritten {plan : TaskPlan} {xs : List TaskAttempt}
    (h : forEachAfter (validateAttempt plan) [] xs = .ok ()) :
    forEachAfter (validateAttempt plan) [] (xs.map f) = .ok () := by
  apply forEachAfter_map _ h
  intro before attempt _ hcheck
  unfold validateAttempt at hcheck ⊢
  rw [map_task_ids hf, map_task_numbers hf, List.length_map]
  rcases hf attempt with hself | ⟨hactive, finishedAt, error, heq⟩
  · rw [hself]
    exact hcheck
  · rw [heq]
    dsimp only at hcheck ⊢
    rw [if_neg (isActive_ne_succeeded hactive)] at hcheck
    exact hcheck

end Tasks

section Reviews

variable {f : ReviewAttempt → ReviewAttempt} (hf : InterruptsReviews f)

include hf

private theorem review_id (attempt : ReviewAttempt) : (f attempt).id = attempt.id := by
  rcases hf attempt with h | ⟨-, finishedAt, error, h⟩ <;> rw [h]

private theorem review_round (attempt : ReviewAttempt) : (f attempt).round = attempt.round := by
  rcases hf attempt with h | ⟨-, finishedAt, error, h⟩ <;> rw [h]

private theorem review_category (attempt : ReviewAttempt) :
    (f attempt).category = attempt.category := by
  rcases hf attempt with h | ⟨-, finishedAt, error, h⟩ <;> rw [h]

private theorem review_baseCommit (attempt : ReviewAttempt) :
    (f attempt).baseCommit = attempt.baseCommit := by
  rcases hf attempt with h | ⟨-, finishedAt, error, h⟩ <;> rw [h]

private theorem review_findings (attempt : ReviewAttempt) :
    findingsOf (f attempt) = findingsOf attempt := by
  unfold findingsOf
  rcases hf attempt with h | ⟨-, finishedAt, error, h⟩ <;> rw [h]

private theorem review_succeeded_iff (attempt : ReviewAttempt) :
    (f attempt).state = .succeeded ↔ attempt.state = .succeeded := by
  rcases hf attempt with h | ⟨hactive, finishedAt, error, h⟩
  · rw [h]
  · rw [h]
    exact iff_of_false (by simp) (isActive_ne_succeeded hactive)

private theorem review_of_succeeded {attempt : ReviewAttempt} (h : attempt.state = .succeeded) :
    f attempt = attempt := by
  rcases hf attempt with hself | ⟨hactive, -⟩
  · exact hself
  · exact absurd h (isActive_ne_succeeded hactive)

private theorem review_of_active {attempt : ReviewAttempt} (h : (f attempt).state.isActive = true) :
    f attempt = attempt := by
  rcases hf attempt with hself | ⟨-, finishedAt, error, heq⟩
  · exact hself
  · rw [heq] at h
    cases h

private theorem find?_review (xs : List ReviewAttempt) (id : String) :
    ((xs.map f).find? fun attempt => attempt.id = id) =
      (xs.find? fun attempt => attempt.id = id).map f :=
  find?_map_keeps (fun attempt => by rw [review_id hf]) xs

private theorem map_review_ids (xs : List ReviewAttempt) :
    (xs.map f).map (·.id) = xs.map (·.id) := by
  rw [List.map_map]
  exact List.map_congr_left fun attempt _ => review_id hf attempt

private theorem flatMap_findings (xs : List ReviewAttempt) :
    (xs.map f).flatMap findingsOf = xs.flatMap findingsOf := by
  rw [List.flatMap_map]
  exact List.flatMap_congr fun attempt _ => review_findings hf attempt

private theorem findingRounds_rewritten (xs : List ReviewAttempt) :
    findingRounds (xs.map f) = findingRounds xs := by
  unfold findingRounds
  rw [List.flatMap_map]
  refine List.flatMap_congr fun attempt _ => ?_
  rw [review_findings hf, review_round hf]

private theorem validateReviewAttempts_rewritten {xs : List ReviewAttempt}
    (h : forEachAfter validateReviewAttempt [] xs = .ok ()) :
    forEachAfter validateReviewAttempt [] (xs.map f) = .ok () := by
  apply forEachAfter_map _ h
  intro before attempt _ hcheck
  unfold validateReviewAttempt at hcheck ⊢
  rw [map_review_ids hf, flatMap_findings hf, List.length_map]
  rcases hf attempt with hself | ⟨hactive, finishedAt, error, heq⟩
  · rw [hself]
    exact hcheck
  · rw [heq]
    dsimp only at hcheck ⊢
    rw [if_neg (isActive_ne_succeeded hactive)] at hcheck
    exact hcheck

private theorem succeededCategories_rewritten (xs : List ReviewAttempt) (ids : List String) :
    succeededCategories (xs.map f) ids = succeededCategories xs ids := by
  unfold succeededCategories
  congr 1
  funext id
  rw [find?_review hf, Option.bind_map]
  congr 1
  funext attempt
  simp only [Function.comp_apply, review_succeeded_iff hf, review_category hf]

private theorem validateRoundAttempt_rewritten {xs : List ReviewAttempt} {round : ReviewRound}
    {path : String} {before : List String} {id : String}
    (h : validateRoundAttempt xs round path before id = .ok ()) :
    validateRoundAttempt (xs.map f) round path before id = .ok () := by
  unfold validateRoundAttempt at h ⊢
  rw [bind_ok_iff] at h ⊢
  obtain ⟨attempt, hattempt, hfresh⟩ := h
  rw [require_ok_iff, Option.filter_eq_some_iff] at hattempt
  refine ⟨f attempt, ?_, ?_⟩
  · rw [require_ok_iff, Option.filter_eq_some_iff, find?_review hf, hattempt.1]
    refine ⟨rfl, ?_⟩
    rw [review_round hf, review_baseCommit hf]
    exact hattempt.2
  · rw [ensure_ok_iff] at hfresh ⊢
    rw [review_category hf, succeededCategories_rewritten hf]
    exact hfresh

private theorem finalReviewAttempts_rewritten (xs : List ReviewAttempt) (round : ReviewRound) :
    ((xs.map f).filter fun attempt => attempt.round = round.number ∧ attempt.state = .succeeded) =
      xs.filter fun attempt => attempt.round = round.number ∧ attempt.state = .succeeded := by
  apply filter_map_fixed
  · intro attempt
    simp only [review_round hf, review_succeeded_iff hf]
  · intro attempt h
    rw [decide_eq_true_eq] at h
    exact review_of_succeeded hf h.2

end Reviews

section Repairs

variable {f : RepairAttempt → RepairAttempt} (hf : InterruptsRepairs f)

include hf

private theorem repair_id (attempt : RepairAttempt) : (f attempt).id = attempt.id := by
  rcases hf attempt with h | ⟨-, finishedAt, error, h⟩ <;> rw [h]

private theorem repair_round (attempt : RepairAttempt) : (f attempt).round = attempt.round := by
  rcases hf attempt with h | ⟨-, finishedAt, error, h⟩ <;> rw [h]

private theorem repair_findingIds (attempt : RepairAttempt) :
    (f attempt).findingIds = attempt.findingIds := by
  rcases hf attempt with h | ⟨-, finishedAt, error, h⟩ <;> rw [h]

private theorem repair_commit (attempt : RepairAttempt) :
    (f attempt).commit = attempt.commit := by
  rcases hf attempt with h | ⟨-, finishedAt, error, h⟩ <;> rw [h]

private theorem repair_integratedCommit (attempt : RepairAttempt) :
    (f attempt).integratedCommit = attempt.integratedCommit := by
  rcases hf attempt with h | ⟨-, finishedAt, error, h⟩ <;> rw [h]

private theorem repair_succeeded_iff (attempt : RepairAttempt) :
    (f attempt).state = .succeeded ↔ attempt.state = .succeeded := by
  rcases hf attempt with h | ⟨hactive, finishedAt, error, h⟩
  · rw [h]
  · rw [h]
    exact iff_of_false (by simp) (isActive_ne_succeeded hactive)

private theorem repair_of_active {attempt : RepairAttempt} (h : (f attempt).state.isActive = true) :
    f attempt = attempt := by
  rcases hf attempt with hself | ⟨-, finishedAt, error, heq⟩
  · exact hself
  · rw [heq] at h
    cases h

private theorem find?_repair (xs : List RepairAttempt) (id : String) :
    ((xs.map f).find? fun attempt => attempt.id = id) =
      (xs.find? fun attempt => attempt.id = id).map f :=
  find?_map_keeps (fun attempt => by rw [repair_id hf]) xs

private theorem map_repair_ids (xs : List RepairAttempt) :
    (xs.map f).map (·.id) = xs.map (·.id) := by
  rw [List.map_map]
  exact List.map_congr_left fun attempt _ => repair_id hf attempt

private theorem repairedHead_rewritten (head : String) (xs : List RepairAttempt) :
    repairedHead head (xs.map f) = repairedHead head xs := by
  unfold repairedHead
  rw [List.foldl_map]
  simp only [repair_integratedCommit hf]

private theorem validateRepairAttempts_rewritten {rounds : List (String × Nat)} {head : String}
    {xs : List RepairAttempt} (h : forEachAfter (validateRepairAttempt rounds head) [] xs = .ok ()) :
    forEachAfter (validateRepairAttempt rounds head) [] (xs.map f) = .ok () := by
  apply forEachAfter_map _ h
  intro before attempt _ hcheck
  unfold validateRepairAttempt at hcheck ⊢
  rw [map_repair_ids hf, repairedHead_rewritten hf, List.length_map]
  rcases hf attempt with hself | ⟨hactive, finishedAt, error, heq⟩
  · rw [hself]
    exact hcheck
  · rw [heq]
    dsimp only at hcheck ⊢
    rw [if_neg (isActive_ne_succeeded hactive)] at hcheck
    exact hcheck

private theorem expectedRepairCommit_rewritten (attempt : RepairAttempt) :
    expectedRepairCommit (f attempt) = expectedRepairCommit attempt := by
  unfold expectedRepairCommit
  simp only [repair_succeeded_iff hf, repair_commit hf, repair_integratedCommit hf, repair_id hf]

private theorem validateRepairedFinding_rewritten {xs : List RepairAttempt}
    {finding : ReviewFinding} (h : validateRepairedFinding xs finding = .ok ()) :
    validateRepairedFinding (xs.map f) finding = .ok () := by
  unfold validateRepairedFinding at h ⊢
  split
  · rfl
  · next hrepaired =>
    rw [if_neg hrepaired] at h
    rw [ensure_ok_iff] at h ⊢
    rw [find?_repair hf, Option.any_map]
    simpa only [Function.comp_apply, repair_succeeded_iff hf, repair_integratedCommit hf,
      repair_findingIds hf] using h

end Repairs

section Finals

variable {f : FinalValidationAttempt → FinalValidationAttempt} (hf : InterruptsFinals f)

include hf

private theorem final_id (attempt : FinalValidationAttempt) : (f attempt).id = attempt.id := by
  rcases hf attempt with h | ⟨-, finishedAt, error, -, -, h⟩ <;> rw [h]

private theorem map_final_ids (xs : List FinalValidationAttempt) :
    (xs.map f).map (·.id) = xs.map (·.id) := by
  rw [List.map_map]
  exact List.map_congr_left fun attempt _ => final_id hf attempt

private theorem validateFinalAttempts_rewritten {commands : List ValidationCommand}
    {xs : List FinalValidationAttempt}
    (h : forEachAfter (validateFinalAttempt commands) [] xs = .ok ()) :
    forEachAfter (validateFinalAttempt commands) [] (xs.map f) = .ok () := by
  apply forEachAfter_map _ h
  intro before attempt _ hcheck
  rcases hf attempt with hself | ⟨hrunning, finishedAt, error, hfinished, herror, heq⟩
  · unfold validateFinalAttempt at hcheck ⊢
    rw [map_final_ids hf, List.length_map, hself]
    exact hcheck
  · unfold validateFinalAttempt at hcheck ⊢
    rw [map_final_ids hf, List.length_map, heq]
    dsimp only at hcheck ⊢
    have hne : attempt.state ≠ .succeeded := by
      rw [hrunning]
      simp
    rw [if_neg hne] at hcheck
    rw [if_neg (by simp)]
    simp only [seq_ok_iff, assertOptionalString, ensure_ok_iff] at hcheck ⊢
    obtain ⟨hid, hcommit, hpath, hstarted, hnumber, -, -, hrest⟩ := hcheck
    exact ⟨hid, hcommit, hpath, hstarted, hnumber, by simpa using hfinished, by simpa using herror,
      hrest⟩

private theorem successfulValidation_rewritten (xs : List FinalValidationAttempt) (head : String) :
    ((xs.map f).reverse.find? fun attempt =>
        attempt.state = .succeeded ∧ attempt.integrationCommit = head) =
      xs.reverse.find? fun attempt =>
        attempt.state = .succeeded ∧ attempt.integrationCommit = head := by
  rw [← List.map_reverse]
  apply find?_map_fixed
  · intro attempt
    rcases hf attempt with h | ⟨hrunning, finishedAt, error, -, -, h⟩
    · rw [h]
    · rw [h, hrunning]
      simp
  · intro attempt h
    rw [decide_eq_true_eq] at h
    rcases hf attempt with hself | ⟨hrunning, -⟩
    · exact hself
    · rw [hrunning] at h
      cases h.1

end Finals

/-! ## Rewritten tasks -/

/-- A task keeps its definition, its attempts and its integrated commit. It loses an integration
error with the state that went with it, and an integrated task keeps its state. -/
structure TaskRewrite (before after : RunTask) : Prop where
  definition : after.definition = before.definition
  attemptIds : after.attemptIds = before.attemptIds
  integratedCommit : after.integratedCommit = before.integratedCommit
  integrationError : after.integrationError = none ∨
    after.integrationError = before.integrationError ∧ after.state = before.state
  integrated : before.integratedCommit ≠ none → after.state = before.state

/-- The tasks keep their order and are rewritten one by one. -/
structure TasksRewrite (before after : OrderedRecord String RunTask) : Prop where
  keys : after.keys = before.keys
  each : OrderedRecord.Pointwise (fun _ => TaskRewrite) before after

namespace TasksRewrite

variable {before after : OrderedRecord String RunTask} (h : TasksRewrite before after)

include h

/-- The integrated commits are those from before. -/
theorem get?_integratedCommit (id : String) :
    (after.get? id).bind (·.integratedCommit) = (before.get? id).bind (·.integratedCommit) := by
  have hpair := h.each id
  cases hbefore : before.get? id with
  | none =>
    cases hafter : after.get? id with
    | none => rfl
    | some b =>
      rw [hbefore, hafter] at hpair
      cases hpair
  | some a =>
    obtain ⟨b, hb, hrewrite⟩ := h.each.right hbefore
    rw [hb]
    exact hrewrite.integratedCommit

private theorem get?_attemptIds (id : String) :
    (after.get? id).map (·.attemptIds) = (before.get? id).map (·.attemptIds) := by
  have hpair := h.each id
  cases hbefore : before.get? id with
  | none =>
    cases hafter : after.get? id with
    | none => rfl
    | some b =>
      rw [hbefore, hafter] at hpair
      cases hpair
  | some a =>
    obtain ⟨b, hb, hrewrite⟩ := h.each.right hbefore
    rw [hb]
    exact congrArg some hrewrite.attemptIds

private theorem flatMap_attemptIds :
    after.values.flatMap (·.attemptIds) = before.values.flatMap (·.attemptIds) := by
  rw [OrderedRecord.values_eq_filterMap, OrderedRecord.values_eq_filterMap, h.keys,
    List.flatMap_eq_foldl, List.flatMap_eq_foldl]
  induction before.keys using List.reverseRecOn with
  | nil => rfl
  | append_singleton ids id ih =>
    have hids := h.get?_attemptIds id
    rw [List.filterMap_append, List.filterMap_append, List.foldl_append, List.foldl_append, ih]
    cases hbefore : before.get? id with
    | none =>
      rw [hbefore, Option.map_none, Option.map_eq_none_iff] at hids
      simp [hbefore, hids]
    | some a =>
      rw [hbefore, Option.map_some, Option.map_eq_some_iff] at hids
      obtain ⟨b, hb, hattempts⟩ := hids
      simp [hbefore, hb, hattempts]

private theorem validateTasks_rewritten {run next : OrchestrationRun} {plan : TaskPlan}
    (hrun : run.tasks = before) (hnext : next.tasks = after)
    (hcheck : validateTasks run plan = .ok ()) : validateTasks next plan = .ok () := by
  unfold validateTasks at hcheck ⊢
  rw [seq_ok_iff, ensure_ok_iff, forM_ok_iff, hrun] at hcheck
  rw [seq_ok_iff, ensure_ok_iff, forM_ok_iff, hnext]
  refine ⟨by rw [h.keys]; exact hcheck.1, fun definition hmem => ?_⟩
  have htask := hcheck.2 definition hmem
  unfold validateTask at htask ⊢
  simp only [bind_ok_iff, require_ok_iff, exists_unit_iff, ensure_ok_iff, assertOptionalString]
    at htask ⊢
  obtain ⟨a, ha, hdefinition, hcommit, herror, hboth, hintegrated, hfailed⟩ := htask
  obtain ⟨b, hb, hrewrite⟩ := h.each.right ha
  refine ⟨b, hb, ?_⟩
  rw [hrewrite.definition, hrewrite.integratedCommit]
  refine ⟨hdefinition, hcommit, ?_, ?_, ?_, ?_⟩
  · rcases hrewrite.integrationError with hnone | ⟨hsame, -⟩
    · rw [hnone]
      simp
    · rw [hsame]
      exact herror
  · rcases hrewrite.integrationError with hnone | ⟨hsame, -⟩
    · exact Or.inr hnone
    · rw [hsame]
      exact hboth
  · by_cases hnone : a.integratedCommit = none
    · exact Or.inl hnone
    · rw [hrewrite.integrated hnone]
      exact hintegrated
  · rcases hrewrite.integrationError with hnone | ⟨hsame, hstate⟩
    · exact Or.inl hnone
    · rw [hsame, hstate]
      exact hfailed

private theorem get?_isSome (id : String) : (after.get? id).isSome = (before.get? id).isSome := by
  have hids := h.get?_attemptIds id
  rw [← Option.isSome_map, hids, Option.isSome_map]

private theorem validateIntegratedTasks_rewritten {found : Bool} {order : List String}
    (hcheck : validateIntegratedTasks before found order = .ok ()) :
    validateIntegratedTasks after found order = .ok () := by
  induction order generalizing found with
  | nil => rfl
  | cons id rest ih =>
    unfold validateIntegratedTasks at hcheck ⊢
    cases hbefore : before.get? id with
    | none =>
      have hsome := h.get?_isSome id
      rw [hbefore, Option.isSome_none, Option.isSome_eq_false_iff, Option.isNone_iff_eq_none] at hsome
      rw [hsome]
      rw [hbefore] at hcheck
      exact ih hcheck
    | some a =>
      obtain ⟨b, hb, hrewrite⟩ := h.each.right hbefore
      rw [hbefore] at hcheck
      rw [hb]
      dsimp only at hcheck ⊢
      rw [hrewrite.integratedCommit]
      split
      · next hnone =>
        rw [if_pos hnone] at hcheck
        exact ih hcheck
      · next hsome =>
        rw [if_neg hsome, seq_ok_iff] at hcheck
        rw [seq_ok_iff]
        exact ⟨hcheck.1, ih hcheck.2⟩

private theorem integratedTasksHead_rewritten (baseCommit : String) (order : List String) :
    integratedTasksHead after baseCommit order = integratedTasksHead before baseCommit order := by
  unfold integratedTasksHead
  simp only [h.get?_integratedCommit]

end TasksRewrite

/-! ## Rewritten runs -/

/-- The reviews a run may be finished under. -/
def ReviewsStand (run : OrchestrationRun) : Prop :=
  run.reviewRounds.getLast?.map (·.state) = some .succeeded ∧
    ∀ finding ∈ run.reviewAttempts.flatMap findingsOf, isUnresolved finding = false

theorem validateReviewedState_ok_iff {run : OrchestrationRun} :
    validateReviewedState run = .ok () ↔
      (executionRecord run = .legacy → isReviewedState run.state = true → ReviewsStand run) := by
  unfold validateReviewedState ReviewsStand
  split
  · next h => simp only [seq_ok_iff, ensure_ok_iff, h.1, h.2, true_implies]
  · next h => exact iff_of_true rfl fun hlegacy hreviewed => absurd ⟨hlegacy, hreviewed⟩ h

/-- What is rewritten in a run. Its plan, its approval, its request, its rounds, its evidence and
its integration head are not. -/
structure Rewriting where
  revision : Nat
  state : RunState
  tasks : OrderedRecord String RunTask
  onTask : TaskAttempt → TaskAttempt
  onReview : ReviewAttempt → ReviewAttempt
  onRepair : RepairAttempt → RepairAttempt
  onFinal : FinalValidationAttempt → FinalValidationAttempt
  blockedWorkers : List BlockedWorkerState
  updatedAt : String

/-- The rewritten run. -/
def Rewriting.apply (rewriting : Rewriting) (run : OrchestrationRun) : OrchestrationRun :=
  { run with
    revision := rewriting.revision
    state := rewriting.state
    tasks := rewriting.tasks
    attempts := run.attempts.map rewriting.onTask
    reviewAttempts := run.reviewAttempts.map rewriting.onReview
    repairAttempts := run.repairAttempts.map rewriting.onRepair
    finalValidationAttempts := run.finalValidationAttempts.map rewriting.onFinal
    blockedWorkers := rewriting.blockedWorkers
    updatedAt := rewriting.updatedAt }

/-- What a rewriting keeps of the records it touches, with the checks on the new state. -/
structure Rewriting.Sound (rewriting : Rewriting) (run : OrchestrationRun) : Prop where
  revision : rewriting.revision ≤ maxSafeInteger
  updatedAt : rewriting.updatedAt ≠ ""
  tasks : TasksRewrite run.tasks rewriting.tasks
  onTask : InterruptsTasks rewriting.onTask
  onReview : InterruptsReviews rewriting.onReview
  onRepair : InterruptsRepairs rewriting.onRepair
  onFinal : InterruptsFinals rewriting.onFinal
  blockedWorkers : validateBlockedWorkers (rewriting.apply run) = .ok ()
  approved : requiresApproval rewriting.state = true → run.approvedPlanRevision ≠ none
  unapproved : rewriting.state = .planning ∨ rewriting.state = .awaitingApproval →
    run.approvedPlanRevision = none
  running : ∀ id task, rewriting.tasks.get? id = some task → task.state.isRunning = true →
    id ∈ (activeTaskAttempts (rewriting.apply run)).map (·.taskId)
  succeeded : ∀ id task, rewriting.tasks.get? id = some task → task.state = .succeeded →
    task.attemptIds.any (fun attemptId =>
      (run.attempts.find? fun attempt => attempt.id = attemptId).map (·.state) = some .succeeded)
  reviewed : executionRecord run = .legacy → isReviewedState rewriting.state = true →
    ReviewsStand run
  validating : rewriting.state = .validating ↔
    (runningFinalAttempts (rewriting.apply run)).length = 1
  completed : rewriting.state = .completed → run.state = .completed
  unsuccessful : rewriting.state = .failed ∨ rewriting.state = .cancelled →
    run.mergeReadyEvidence = none

section Records

variable {rewriting : Rewriting} {run : OrchestrationRun} (hsound : rewriting.Sound run)

include hsound

omit hsound in
private theorem executionRecord_rewritten :
    executionRecord (rewriting.apply run) = executionRecord run := by
  unfold executionRecord Rewriting.apply
  simp only [ne_eq, List.map_eq_nil_iff]

private theorem validateReferences_rewritten (h : validateReferences run = .ok ()) :
    validateReferences (rewriting.apply run) = .ok () := by
  unfold validateReferences at h ⊢
  rw [seq_ok_iff, forM_ok_iff, ensure_ok_iff] at h ⊢
  refine ⟨?_, ?_⟩
  · rintro ⟨id, task⟩ hmem
    have hget : rewriting.tasks.get? id = some task := (OrderedRecord.mem_entries_iff _ _ _).mp hmem
    obtain ⟨before, hbefore, hrewrite⟩ := hsound.tasks.each.left hget
    have htask := h.1 (id, before) ((OrderedRecord.mem_entries_iff _ _ _).mpr hbefore)
    dsimp only at htask ⊢
    unfold validateTaskReferences at htask ⊢
    rw [seq_ok_iff, ensure_ok_iff, forM_ok_iff] at htask ⊢
    rw [hrewrite.attemptIds]
    refine ⟨htask.1, fun attemptId hattempt => ?_⟩
    have hfound := htask.2 attemptId hattempt
    rw [ensure_ok_iff] at hfound ⊢
    rw [show (rewriting.apply run).attempts = run.attempts.map rewriting.onTask from rfl,
      find?_task hsound.onTask, Option.map_map]
    simpa only [Function.comp_def, task_taskId hsound.onTask] using hfound
  · rw [show (rewriting.apply run).tasks = rewriting.tasks from rfl, hsound.tasks.flatMap_attemptIds]
    exact h.2.trans (List.length_map _).symm

private theorem validateIntegrationHead_rewritten {order : List String}
    (h : validateIntegrationHead run order = .ok ()) :
    validateIntegrationHead (rewriting.apply run) order = .ok () := by
  unfold validateIntegrationHead at h ⊢
  rw [ensure_ok_iff] at h ⊢
  rw [executionRecord_rewritten]
  unfold Rewriting.apply
  dsimp only
  rw [repairedHead_rewritten hsound.onRepair, hsound.tasks.integratedTasksHead_rewritten]
  exact h

private theorem validateReviewRounds_rewritten (h : validateReviewRounds run = .ok ()) :
    validateReviewRounds (rewriting.apply run) = .ok () := by
  unfold validateReviewRounds at h ⊢
  rw [seq_ok_iff, ensure_ok_iff] at h ⊢
  refine ⟨?_, h.2.trans (List.length_map _).symm⟩
  rw [forEachAfter_ok_iff] at h ⊢
  intro pre round post hsplit
  have hround := h.1 pre round post hsplit
  unfold validateReviewRound at hround ⊢
  simp only [seq_ok_iff] at hround ⊢
  obtain ⟨hnumber, hbase, hstarted, hunique, hattempts, hrest⟩ := hround
  refine ⟨hnumber, hbase, hstarted, hunique, ?_, ?_⟩
  · rw [forEachAfter_ok_iff] at hattempts ⊢
    intro before attemptId after hids
    exact validateRoundAttempt_rewritten hsound.onReview (hattempts before attemptId after hids)
  · rw [show (rewriting.apply run).reviewAttempts = run.reviewAttempts.map rewriting.onReview
        from rfl,
      show (rewriting.apply run).repairAttempts = run.repairAttempts.map rewriting.onRepair
        from rfl, succeededCategories_rewritten hsound.onReview]
    cases hid : round.repairAttemptId with
    | none =>
      rw [hid] at hrest
      exact hrest
    | some repairAttemptId =>
      rw [hid] at hrest
      dsimp only at hrest ⊢
      rw [seq_ok_iff, ensure_ok_iff] at hrest ⊢
      refine ⟨?_, hrest.2⟩
      rw [find?_repair hsound.onRepair, Option.map_map]
      simpa only [Function.comp_def, repair_round hsound.onRepair] using hrest.1

private theorem validateReviewedState_rewritten :
    validateReviewedState (rewriting.apply run) = .ok () := by
  rw [validateReviewedState_ok_iff, executionRecord_rewritten]
  intro hlegacy hreviewed
  obtain ⟨hround, hfindings⟩ := hsound.reviewed hlegacy hreviewed
  refine ⟨hround, ?_⟩
  rw [show (rewriting.apply run).reviewAttempts = run.reviewAttempts.map rewriting.onReview from rfl,
    flatMap_findings hsound.onReview]
  exact hfindings

private theorem validateRepairedFindings_rewritten (h : validateRepairedFindings run = .ok ()) :
    validateRepairedFindings (rewriting.apply run) = .ok () := by
  unfold validateRepairedFindings at h ⊢
  rw [forM_ok_iff] at h ⊢
  intro finding hfinding
  rw [show (rewriting.apply run).reviewAttempts = run.reviewAttempts.map rewriting.onReview from rfl,
    flatMap_findings hsound.onReview] at hfinding
  exact validateRepairedFinding_rewritten hsound.onRepair (h finding hfinding)

private theorem sourceAttempt_rewritten (attemptIds : List String) :
    sourceAttempt (run.attempts.map rewriting.onTask) attemptIds =
      sourceAttempt run.attempts attemptIds := by
  unfold sourceAttempt
  rw [← List.map_reverse]
  apply find?_map_fixed
  · intro attempt
    simp only [task_id hsound.onTask, task_succeeded_iff hsound.onTask, task_commit hsound.onTask]
  · intro attempt h
    rw [decide_eq_true_eq] at h
    exact task_of_succeeded hsound.onTask h.2.1

private theorem expectedTaskCommit_rewritten {id : String} {evidence : IntegratedCommitEvidence}
    (h : expectedTaskCommit run id = .ok evidence) :
    expectedTaskCommit (rewriting.apply run) id = .ok evidence := by
  unfold expectedTaskCommit at h ⊢
  simp only [bind_ok_iff, require_ok_iff] at h ⊢
  obtain ⟨before, hbefore, commit, hcommit, hevidence⟩ := h
  obtain ⟨after, hafter, hrewrite⟩ := hsound.tasks.each.right hbefore
  refine ⟨after, hafter, commit, ?_, ?_⟩
  · rw [hrewrite.attemptIds]
    rw [show (rewriting.apply run).attempts = run.attempts.map rewriting.onTask from rfl,
      sourceAttempt_rewritten hsound]
    exact hcommit
  · rw [hrewrite.integratedCommit]
    exact hevidence

private theorem validateLegacyCommits_rewritten {order : List String}
    {commits : List IntegratedCommitEvidence} (h : validateLegacyCommits run order commits = .ok ()) :
    validateLegacyCommits (rewriting.apply run) order commits = .ok () := by
  unfold validateLegacyCommits at h ⊢
  rw [bind_ok_iff] at h ⊢
  obtain ⟨tasks, htasks, hcommits⟩ := h
  refine ⟨tasks, ?_, ?_⟩
  · rw [mapM_ok_iff] at htasks ⊢
    exact htasks.imp fun _ _ hevidence => expectedTaskCommit_rewritten hsound hevidence
  · rw [ensure_ok_iff] at hcommits ⊢
    rw [show (rewriting.apply run).repairAttempts = run.repairAttempts.map rewriting.onRepair
      from rfl, List.filterMap_map]
    simpa only [Function.comp_def, expectedRepairCommit_rewritten hsound.onRepair] using hcommits

private theorem validateMergeReady_rewritten {localeCompare : LocaleOrder} {order : List String}
    (h : validateMergeReady localeCompare run order = .ok ()) :
    validateMergeReady localeCompare (rewriting.apply run) order = .ok () := by
  unfold validateMergeReady at h ⊢
  rw [show (rewriting.apply run).mergeReadyEvidence = run.mergeReadyEvidence from rfl]
  cases hevidence : run.mergeReadyEvidence with
  | none => rfl
  | some evidence =>
    rw [hevidence] at h
    dsimp only at h ⊢
    rw [executionRecord_rewritten]
    have hvalidation : successfulValidation (rewriting.apply run) = successfulValidation run :=
      successfulValidation_rewritten hsound.onFinal run.finalValidationAttempts run.integrationHead
    rw [hvalidation]
    cases hrecord : executionRecord run with
    | engine =>
      rw [hrecord] at h
      exact h
    | legacy =>
      rw [hrecord] at h
      dsimp only at h ⊢
      simp only [seq_ok_iff] at h ⊢
      obtain ⟨hrefs, hgit, hclaimed, hcommits, hchain, hreviews, hchecks⟩ := h
      refine ⟨hrefs, hgit, hclaimed, validateLegacyCommits_rewritten hsound hcommits, hchain, ?_,
        hchecks⟩
      unfold validateLegacyReviews finalReviewAttempts at hreviews ⊢
      unfold Rewriting.apply
      dsimp only
      simp only [finalReviewAttempts_rewritten hsound.onReview]
      exact hreviews

private theorem validateSettledState_rewritten (h : validateSettledState run = .ok ()) :
    validateSettledState (rewriting.apply run) = .ok () := by
  unfold validateSettledState at h ⊢
  rw [seq_ok_iff, ensure_ok_iff, ensure_ok_iff] at h ⊢
  have hvalidation : successfulValidation (rewriting.apply run) = successfulValidation run :=
    successfulValidation_rewritten hsound.onFinal run.finalValidationAttempts run.integrationHead
  rw [hvalidation]
  exact ⟨fun hcompleted => h.1 (hsound.completed hcompleted), hsound.unsuccessful⟩

private theorem activeTaskAttempts_sublist :
    (activeTaskAttempts (rewriting.apply run)).Sublist (activeTaskAttempts run) :=
  filter_map_sublist (fun _ h => task_of_active hsound.onTask h) run.attempts

private theorem activeAttemptCount_le :
    activeAttemptCount (rewriting.apply run) ≤ activeAttemptCount run := by
  have htasks := (activeTaskAttempts_sublist hsound).length_le
  have hreviews := (filter_map_sublist (p := fun attempt : ReviewAttempt => attempt.state.isActive)
    (fun _ h => review_of_active hsound.onReview h) run.reviewAttempts).length_le
  have hrepairs := (filter_map_sublist (p := fun attempt : RepairAttempt => attempt.state.isActive)
    (fun _ h => repair_of_active hsound.onRepair h) run.repairAttempts).length_le
  unfold activeAttemptCount
  exact Nat.add_le_add (Nat.add_le_add htasks hreviews) hrepairs

private theorem validateActiveWork_rewritten (h : validateActiveWork run = .ok ()) :
    validateActiveWork (rewriting.apply run) = .ok () := by
  unfold validateActiveWork at h ⊢
  simp only [seq_ok_iff, ensure_ok_iff, forM_ok_iff] at h ⊢
  obtain ⟨hlimit, hsingle, htasks⟩ := h
  refine ⟨(activeAttemptCount_le hsound).trans hlimit, fun attempt hattempt => ?_, ?_⟩
  · have hsub := activeTaskAttempts_sublist hsound
    have hcount := (hsub.map (·.taskId)).count_le attempt.taskId
    exact hcount.trans (hsingle attempt (hsub.subset hattempt))
  · rintro ⟨id, task⟩ hmem
    have hget : rewriting.tasks.get? id = some task := (OrderedRecord.mem_entries_iff _ _ _).mp hmem
    dsimp only
    unfold validateActiveTask
    rw [seq_ok_iff, ensure_ok_iff, ensure_ok_iff]
    refine ⟨hsound.running id task hget, fun hstate => ?_⟩
    have hsucceeded := hsound.succeeded id task hget hstate
    rw [List.any_eq_true] at hsucceeded ⊢
    obtain ⟨attemptId, hid, hfound⟩ := hsucceeded
    refine ⟨attemptId, hid, ?_⟩
    rw [decide_eq_true_eq] at hfound ⊢
    rw [show (rewriting.apply run).attempts = run.attempts.map rewriting.onTask from rfl,
      find?_task hsound.onTask, Option.map_map]
    rw [Option.map_eq_some_iff] at hfound ⊢
    obtain ⟨attempt, hattempt, hstate'⟩ := hfound
    exact ⟨attempt, hattempt, (task_succeeded_iff hsound.onTask attempt).mpr hstate'⟩

omit hsound in
private theorem validateUnapproved_rewritten (h : validateUnapproved run = .ok ()) :
    validateUnapproved (rewriting.apply run) = .ok () := by
  unfold validateUnapproved at h ⊢
  rw [ensure_ok_iff] at h ⊢
  intro hnone
  have hempty := h hnone
  unfold Rewriting.apply
  simpa only [List.map_eq_nil_iff] using hempty

private theorem validateRecords_rewritten {localeCompare : LocaleOrder} {plan : TaskPlan}
    {order : List String} (h : validateRecords localeCompare run plan order = .ok ()) :
    validateRecords localeCompare (rewriting.apply run) plan order = .ok () := by
  unfold validateRecords at h ⊢
  simp only [seq_ok_iff] at h ⊢
  obtain ⟨htasks, hintegrated, hattempts, hreferences, hhead, herror, hreviews, hrepairs, -,
    hintegrationHead, hrounds, hrepaired, -, hfinals, hmerge, hsettled, hactive, hunapproved,
    hrequest⟩ := h
  refine ⟨hsound.tasks.validateTasks_rewritten rfl rfl htasks,
    hsound.tasks.validateIntegratedTasks_rewritten hintegrated,
    validateAttempts_rewritten hsound.onTask hattempts, validateReferences_rewritten hsound hreferences,
    hhead, herror, validateReviewAttempts_rewritten hsound.onReview hreviews, ?_,
    hsound.blockedWorkers, validateIntegrationHead_rewritten hsound hintegrationHead,
    validateReviewRounds_rewritten hsound hrounds, validateRepairedFindings_rewritten hsound hrepaired,
    validateReviewedState_rewritten hsound, ?_, validateMergeReady_rewritten hsound hmerge,
    validateSettledState_rewritten hsound hsettled,
    validateActiveWork_rewritten hsound hactive, validateUnapproved_rewritten hunapproved,
    hrequest⟩
  · unfold validateRepairAttempts at hrepairs ⊢
    unfold Rewriting.apply
    dsimp only
    rw [findingRounds_rewritten hsound.onReview, hsound.tasks.integratedTasksHead_rewritten]
    exact validateRepairAttempts_rewritten hsound.onRepair hrepairs
  · unfold validateFinalAttempts at hfinals ⊢
    rw [seq_ok_iff, seq_ok_iff, ensure_ok_iff, ensure_ok_iff] at hfinals ⊢
    refine ⟨validateFinalAttempts_rewritten hsound.onFinal hfinals.1, ?_, hsound.validating⟩
    refine le_trans ?_ hfinals.2.1
    apply List.Sublist.length_le
    apply filter_map_sublist
    intro attempt hrunning
    rw [decide_eq_true_eq] at hrunning
    rcases hsound.onFinal attempt with hself | ⟨-, finishedAt, error, -, -, heq⟩
    · exact hself
    · rw [heq] at hrunning
      cases hrunning

end Records

/-! ## Accepted runs -/

section Accepted

variable (sha256Hex : String → String) (localeCompare : LocaleOrder)

/-- A run the store accepts. -/
def AcceptsRun (run : OrchestrationRun) : Prop :=
  validateStoredRun sha256Hex localeCompare run = .ok run

/-- The parts of the check, with the plan it reads and the order of its tasks. -/
structure Accepted (run : OrchestrationRun) (plan : TaskPlan) (order : List String) : Prop where
  header : validateHeader run = .ok ()
  read : validateTaskPlan run.plan.toJson = .ok plan
  authority : validateAuthority sha256Hex run plan = .ok ()
  workers : validateWorkerLimit run.maxConcurrentWorkers "run" = .ok ()
  history : validatePlanHistory run plan = .ok ()
  approval : validateApproval run = .ok ()
  ordered : topologicalTaskIds plan = .ok order
  records : validateRecords localeCompare run plan order = .ok ()

variable {sha256Hex : String → String} {localeCompare : LocaleOrder}

theorem validateStoredRun_ok_iff {run result : OrchestrationRun} :
    validateStoredRun sha256Hex localeCompare run = .ok result ↔
      result = run ∧ ∃ plan order, Accepted sha256Hex localeCompare run plan order := by
  unfold validateStoredRun
  simp only [bind_ok_iff, exists_unit_iff, pure, Except.pure, Except.ok.injEq]
  constructor
  · rintro ⟨hheader, plan, hread, hauthority, hworkers, hhistory, happroval, order, hordered,
      hrecords, rfl⟩
    exact ⟨rfl, plan, order, hheader, hread, hauthority, hworkers, hhistory, happroval, hordered,
      hrecords⟩
  · rintro ⟨rfl, plan, order, h⟩
    exact ⟨h.header, plan, h.read, h.authority, h.workers, h.history, h.approval, order, h.ordered,
      h.records, rfl⟩

theorem acceptsRun_iff {run : OrchestrationRun} :
    AcceptsRun sha256Hex localeCompare run ↔
      ∃ plan order, Accepted sha256Hex localeCompare run plan order := by
  unfold AcceptsRun
  rw [validateStoredRun_ok_iff]
  exact and_iff_right rfl

/-- A sound rewriting keeps an accepted run accepted. -/
theorem Accepted.rewritten {rewriting : Rewriting} {run : OrchestrationRun} {plan : TaskPlan}
    {order : List String} (h : Accepted sha256Hex localeCompare run plan order)
    (hsound : rewriting.Sound run) :
    Accepted sha256Hex localeCompare (rewriting.apply run) plan order := by
  refine ⟨?_, h.read, h.authority, h.workers, h.history, ?_, h.ordered,
    validateRecords_rewritten hsound h.records⟩
  · have hheader := h.header
    unfold validateHeader at hheader ⊢
    simp only [seq_ok_iff, ensure_ok_iff, assertString] at hheader ⊢
    obtain ⟨-, hid, hsafe, hpolicy, hroot, hbranch, hbase, hintegration, hcreated, -, hrest⟩ := hheader
    exact ⟨hsound.revision, hid, hsafe, hpolicy, hroot, hbranch, hbase, hintegration, hcreated,
      hsound.updatedAt, hrest⟩
  · have happroval := h.approval
    unfold validateApproval at happroval ⊢
    simp only [seq_ok_iff, ensure_ok_iff] at happroval ⊢
    obtain ⟨happrovedAt, htogether, hcurrent, -, -⟩ := happroval
    exact ⟨happrovedAt, htogether, hcurrent, hsound.approved, hsound.unapproved⟩

/-- The write that stores a run counts its revision, which no other check reads. -/
theorem Accepted.revised {run : OrchestrationRun} {plan : TaskPlan} {order : List String}
    (h : Accepted sha256Hex localeCompare run plan order) {revision : Nat}
    (hrevision : revision ≤ maxSafeInteger) :
    Accepted sha256Hex localeCompare { run with revision } plan order := by
  have hheader := h.header
  refine ⟨?_, h.read, h.authority, h.workers, h.history, h.approval, h.ordered, h.records⟩
  unfold validateHeader at hheader ⊢
  rw [seq_ok_iff, ensure_ok_iff] at hheader ⊢
  exact ⟨hrevision, hheader.2⟩

end Accepted

end BuildConductor.Storage.RunStore
