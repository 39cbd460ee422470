import BuildConductor.Engine.Scheduler

/-!
# The next step to integrate

`nextIntegrableStepId` walks the plan order past every step whose work is on the branch: it
stops at the first mutating step that is not, and names it once it has succeeded.
`src/src/engine/scheduler.ts:189-206`.
-/

namespace BuildConductor.Engine

open Base Domain

/-- A step needs an integration the run has not recorded. -/
def PendingIntegration (run : WorkflowRunState) (record : WorkflowStepRecord) : Prop :=
  stepRequiresIntegration run.capabilityProfiles record.definition = true ∧
    present record.integratedCommit = none

variable {run : WorkflowRunState}

/-- Some steps have all their commits on the branch. -/
def AllIntegrated (run : WorkflowRunState) (stepIds : List String) : Prop :=
  ∀ stepId ∈ stepIds, ∀ record, run.steps.get? stepId = some record →
    ¬ PendingIntegration run record

/-- What is named depends on the plan, the profiles and the records only. -/
theorem nextIntegrableStepId_congr {next : WorkflowRunState} (hplan : next.plan = run.plan)
    (hprofiles : next.capabilityProfiles = run.capabilityProfiles) (hsteps : next.steps = run.steps) :
    nextIntegrableStepId next = nextIntegrableStepId run := by
  have hfirst : ∀ ids, firstIntegrable next ids = firstIntegrable run ids := by
    intro ids
    induction ids with
    | nil => rfl
    | cons id rest ih => rw [firstIntegrable, firstIntegrable, hprofiles, hsteps, ih]
  rw [nextIntegrableStepId, nextIntegrableStepId, hplan, hfirst]

private theorem firstIntegrable_cons (stepId : String) (rest : List String) :
    (firstIntegrable run (stepId :: rest) = firstIntegrable run rest ∧ AllIntegrated run [stepId]) ∨
      ∃ record, run.steps.get? stepId = some record ∧ PendingIntegration run record ∧
        firstIntegrable run (stepId :: rest) =
          if record.state = .succeeded then some stepId else none := by
  unfold AllIntegrated PendingIntegration
  simp only [List.mem_singleton, forall_eq]
  rw [firstIntegrable]
  cases hrecord : run.steps.get? stepId with
  | none => exact Or.inl ⟨rfl, fun record hsome => by cases hsome⟩
  | some record =>
    dsimp only
    by_cases hrequires : stepRequiresIntegration run.capabilityProfiles record.definition = true
    · rw [if_neg (not_not.mpr hrequires)]
      cases hcommit : present record.integratedCommit with
      | some commit =>
        left
        refine ⟨rfl, ?_⟩
        rintro other hother ⟨-, hnone⟩
        rw [← Option.some.inj hother, hcommit] at hnone
        cases hnone
      | none => exact Or.inr ⟨record, rfl, ⟨hrequires, hcommit⟩, rfl⟩
    · rw [if_pos hrequires]
      left
      refine ⟨rfl, ?_⟩
      rintro other hother ⟨hyes, -⟩
      rw [← Option.some.inj hother] at hyes
      exact hrequires hyes

private theorem firstIntegrable_some {stepIds : List String} {stepId : String}
    (h : firstIntegrable run stepIds = some stepId) :
    ∃ pre post record, stepIds = pre ++ stepId :: post ∧ AllIntegrated run pre ∧
      run.steps.get? stepId = some record ∧ PendingIntegration run record ∧
      record.state = .succeeded := by
  induction stepIds with
  | nil => cases h
  | cons id rest ih =>
    rcases @firstIntegrable_cons run id rest with
      ⟨hskip, hdone⟩ | ⟨record, hrecord, hpending, hstop⟩
    · rw [hskip] at h
      obtain ⟨pre, post, record, rfl, hpre, hfound⟩ := ih h
      refine ⟨id :: pre, post, record, rfl, ?_, hfound⟩
      intro x hx
      rcases List.mem_cons.mp hx with rfl | hx
      · exact hdone x (List.mem_singleton_self x)
      · exact hpre x hx
    · rw [hstop] at h
      split at h
      · next hstate =>
        cases h
        refine ⟨[], rest, record, rfl, ?_, hrecord, hpending, hstate⟩
        intro x hx
        cases hx
      · cases h

/-- The step named has succeeded, its commit is pending, and everything before it is integrated. -/
theorem nextIntegrableStepId_some {stepId : String} (h : nextIntegrableStepId run = some stepId) :
    ∃ pre post record, topologicalStepIds run.plan = pre ++ stepId :: post ∧ AllIntegrated run pre ∧
      run.steps.get? stepId = some record ∧ PendingIntegration run record ∧
      record.state = .succeeded :=
  firstIntegrable_some h

/-- Behind a prefix of succeeded steps nothing is pending when no step is named. -/
theorem allIntegrated_of_nextIntegrable_none {pre post : List String}
    (h : nextIntegrableStepId run = none) (horder : topologicalStepIds run.plan = pre ++ post)
    (hsucceeded : ∀ stepId ∈ pre, ∀ record, run.steps.get? stepId = some record →
      record.state = .succeeded) : AllIntegrated run pre := by
  unfold nextIntegrableStepId at h
  rw [horder] at h
  clear horder
  induction pre with
  | nil =>
    intro x hx
    cases hx
  | cons id rest ih =>
    rw [List.cons_append] at h
    rcases @firstIntegrable_cons run id (rest ++ post) with
      ⟨hskip, hdone⟩ | ⟨record, hrecord, -, hstop⟩
    · rw [hskip] at h
      have hrest := ih h fun stepId hstep => hsucceeded stepId (List.mem_cons_of_mem _ hstep)
      intro x hx
      rcases List.mem_cons.mp hx with rfl | hx
      · exact hdone x (List.mem_singleton_self x)
      · exact hrest x hx
    · rw [hstop, if_pos (hsucceeded id (List.mem_cons_self ..) record hrecord)] at h
      cases h

end BuildConductor.Engine
