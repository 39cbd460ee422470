import BuildConductor.Lifecycle.Integrity

/-!
# What recovery decides

Recovery settles every active attempt of an interrupted run from what git and the artifact store
answer: it adopts a verified commit whose declared outputs and evidence are durable, and otherwise
interrupts the attempt. A second recovery finds nothing to settle.
`src/src/engine/recovery.ts:103-377`.
-/

namespace BuildConductor.Lifecycle

open Base Domain Security Engine Workflows Storage

/-! ## Durable evidence -/

/-- The branch of an attempt ends in a verified single commit on its base. -/
def VerifiedHead (observations : RecoveryObservations) (attempt : WorkflowStepAttempt)
    (head : String) : Prop :=
  ∃ branch, present attempt.branch = some branch ∧ observations.branchHead branch = .ok head ∧
    head ≠ attempt.baseCommit ∧
    observations.verifyTaskCommit branch head attempt.baseCommit = .ok ()

/-- Git could tell what the branch of an attempt holds. -/
def Reconcilable (observations : RecoveryObservations) (attempt : WorkflowStepAttempt) : Prop :=
  ∀ branch, present attempt.branch = some branch → ∃ head,
    observations.branchHead branch = .ok head ∧ (head = attempt.baseCommit ∨
      observations.verifyTaskCommit branch head attempt.baseCommit = .ok ())

/-- The store holds every declared output of an attempt. -/
def OutputsDurable (observations : RecoveryObservations) (definition : StepDefinition)
    (attempt : WorkflowStepAttempt) : Prop :=
  ∀ output ∈ definition.outputs.getD [], ∃ artifactId durable,
    artifactIdFor ⟨definition.id, output, attempt.number⟩ = .ok artifactId ∧
    observations.durable = some durable ∧ artifactId ∈ durable

/-- A step that declares validation evidence has a readable passing document of it, unless the
attempt carries one. -/
def EvidenceAvailable (observations : RecoveryObservations) (definition : StepDefinition)
    (attempt : WorkflowStepAttempt) : Prop :=
  evidenceOutput ∈ definition.outputs.getD [] → attempt.evidence = none →
    ∃ artifactId evidence,
      artifactIdFor ⟨definition.id, evidenceOutput, attempt.number⟩ = .ok artifactId ∧
      observations.readEvidence artifactId = some evidence ∧ evidence.passed = true

/-- What an attempt needs for its commit to be adopted. -/
structure Adoptable (observations : RecoveryObservations) (definition : StepDefinition)
    (attempt : WorkflowStepAttempt) (commit : String) : Prop where
  named : commit ≠ ""
  head : VerifiedHead observations attempt commit
  outputs : OutputsDurable observations definition attempt
  evidence : EvidenceAvailable observations definition attempt

/-- The ids of the declared outputs of an attempt. -/
def declaredIds (definition : StepDefinition) (attempt : WorkflowStepAttempt) : List String :=
  (declaredArtifactIds definition attempt).filterMap Prod.snd

section Decisions

variable {observations : RecoveryObservations} {definition : StepDefinition}
  {attempt : WorkflowStepAttempt}

private theorem interruptedAttemptCommit_commit_iff (h : attempt.commit = none) {head : String} :
    interruptedAttemptCommit observations attempt = .commit head ↔
      VerifiedHead observations attempt head := by
  unfold interruptedAttemptCommit VerifiedHead
  rw [h]
  cases present attempt.branch with
  | none => simp
  | some branch =>
    simp only [present, Option.filter_none, Option.some.injEq, exists_eq_left']
    cases observations.branchHead branch with
    | error message => simp
    | ok found =>
      simp only [Except.ok.injEq]
      split
      · next hbase => simp [hbase]; grind
      · next hbase =>
        cases hverify : observations.verifyTaskCommit branch found attempt.baseCommit with
        | error message => simp; grind
        | ok _ => simp; grind

private theorem interruptedAttemptCommit_unreconciled_iff (h : attempt.commit = none) :
    (∃ reason, interruptedAttemptCommit observations attempt = .unreconciled reason) ↔
      ¬ Reconcilable observations attempt := by
  unfold interruptedAttemptCommit Reconcilable
  rw [h]
  cases present attempt.branch with
  | none => simp
  | some branch =>
    simp only [present, Option.filter_none, Option.some.injEq, forall_eq']
    cases observations.branchHead branch with
    | error message => simp
    | ok found =>
      simp only [Except.ok.injEq, exists_eq_left']
      split
      · next hbase => simp [hbase]
      · next hbase =>
        cases hverify : observations.verifyTaskCommit branch found attempt.baseCommit with
        | error message => simp [hbase]
        | ok _ => simp

private theorem missing_eq_nil_iff {durable : List String} :
    (declaredArtifactIds definition attempt).filter (fun entry =>
        match entry.2 with
        | none => true
        | some artifactId => artifactId ∉ durable) = [] ↔
      ∀ output ∈ definition.outputs.getD [], ∃ artifactId,
        artifactIdFor ⟨definition.id, output, attempt.number⟩ = .ok artifactId ∧
          artifactId ∈ durable := by
  unfold declaredArtifactIds
  rw [List.filter_eq_nil_iff, List.forall_mem_map]
  apply forall₂_congr
  intro output _
  cases artifactIdFor ⟨definition.id, output, attempt.number⟩ with
  | error message => simp [Except.toOption]
  | ok artifactId => simp [Except.toOption]

private theorem outputsDurable_iff :
    OutputsDurable observations definition attempt ↔
      ¬ (declaredArtifactIds definition attempt ≠ [] ∧ observations.durable = none) ∧
        ∀ output ∈ definition.outputs.getD [], ∃ artifactId,
          artifactIdFor ⟨definition.id, output, attempt.number⟩ = .ok artifactId ∧
            artifactId ∈ observations.durable.getD [] := by
  have hdeclared : declaredArtifactIds definition attempt = [] ↔ definition.outputs.getD [] = [] := by
    unfold declaredArtifactIds
    rw [List.map_eq_nil_iff]
  unfold OutputsDurable
  rw [Ne, hdeclared]
  cases observations.durable with
  | none =>
    constructor
    · intro h
      have hnil : definition.outputs.getD [] = [] := by
        rw [List.eq_nil_iff_forall_not_mem]
        intro output houtput
        obtain ⟨artifactId, durable, -, hno, -⟩ := h output houtput
        cases hno
      rw [hnil]
      simp
    · rintro ⟨hnil, -⟩
      have hnone : definition.outputs.getD [] = [] :=
        Decidable.not_not.mp fun hsome => hnil ⟨hsome, rfl⟩
      rw [hnone]
      simp
  | some durable => simp

private theorem adoptedEvidence_isSome_iff :
    (adoptedEvidence observations definition attempt).isSome = true ↔ ∃ artifactId evidence,
      artifactIdFor ⟨definition.id, evidenceOutput, attempt.number⟩ = .ok artifactId ∧
      observations.readEvidence artifactId = some evidence ∧ evidence.passed = true := by
  unfold adoptedEvidence
  cases artifactIdFor ⟨definition.id, evidenceOutput, attempt.number⟩ with
  | error message => simp [Except.toOption]
  | ok artifactId =>
    cases hread : observations.readEvidence artifactId with
    | none => simp [Except.toOption, hread]
    | some evidence => simp [Except.toOption, hread]

/-- What an inspection decides, when a commit was found. -/
private theorem inspect_commit {head : String}
    (h : interruptedAttemptCommit observations attempt = .commit head) :
    (inspectInterruptedAttempt observations definition attempt).blockedReason = none ∧
      ((OutputsDurable observations definition attempt ∧
          EvidenceAvailable observations definition attempt ∧
          (inspectInterruptedAttempt observations definition attempt).commit = some head ∧
          (inspectInterruptedAttempt observations definition attempt).artifactIds =
            declaredIds definition attempt) ∨
        (¬ (OutputsDurable observations definition attempt ∧
            EvidenceAvailable observations definition attempt) ∧
          (inspectInterruptedAttempt observations definition attempt).commit = none)) := by
  unfold inspectInterruptedAttempt
  rw [h]
  dsimp only
  split
  · next hstore =>
    refine ⟨rfl, Or.inr ⟨?_, rfl⟩⟩
    rintro ⟨hdurable, -⟩
    exact (outputsDurable_iff.mp hdurable).1 hstore
  · next hstore =>
    split
    · next hmissing =>
      refine ⟨rfl, Or.inr ⟨?_, rfl⟩⟩
      rintro ⟨hdurable, -⟩
      exact hmissing (missing_eq_nil_iff.mpr (outputsDurable_iff.mp hdurable).2)
    · next hmissing =>
      have hdurable : OutputsDurable observations definition attempt :=
        outputsDurable_iff.mpr ⟨hstore, missing_eq_nil_iff.mp (Decidable.not_not.mp hmissing)⟩
      split
      · next hcarried =>
        refine ⟨rfl, Or.inl ⟨hdurable, ?_, rfl, rfl⟩⟩
        intro _ hnone
        rw [hnone] at hcarried
        cases hcarried
      · next hcarried =>
        split
        · next hundeclared =>
          exact ⟨rfl, Or.inl ⟨hdurable, fun hdeclared => absurd hdeclared hundeclared, rfl, rfl⟩⟩
        · next hdeclared =>
          split
          · next evidence hadopted =>
            refine ⟨rfl, Or.inl ⟨hdurable, fun _ _ => ?_, rfl, rfl⟩⟩
            exact adoptedEvidence_isSome_iff.mp (by rw [hadopted]; rfl)
          · next hadopted =>
            refine ⟨rfl, Or.inr ⟨?_, rfl⟩⟩
            rintro ⟨-, havailable⟩
            have hnone : attempt.evidence = none := Option.not_isSome_iff_eq_none.mp hcarried
            have hsome := adoptedEvidence_isSome_iff.mpr
              (havailable (Decidable.not_not.mp hdeclared) hnone)
            rw [hadopted] at hsome
            cases hsome

/-- An inspection names a commit exactly when it may be adopted, with the declared artifact ids. -/
theorem inspect_adopts_iff (h : attempt.commit = none) {commit : String} :
    present (inspectInterruptedAttempt observations definition attempt).commit = some commit ↔
      Adoptable observations definition attempt commit := by
  constructor
  · intro hpresent
    cases hfound : interruptedAttemptCommit observations attempt with
    | noCommit =>
      rw [inspectInterruptedAttempt, hfound] at hpresent
      cases hpresent
    | unreconciled reason =>
      rw [inspectInterruptedAttempt, hfound] at hpresent
      cases hpresent
    | commit head =>
      rcases (inspect_commit hfound).2 with ⟨hdurable, hevidence, hcommit, -⟩ | ⟨-, hcommit⟩
      · have hnamed := present_ne_empty hpresent
        rw [hcommit] at hpresent
        have hsame : head = commit := by
          unfold present at hpresent
          exact Option.some.inj (Option.filter_eq_some_iff.mp hpresent).1
        rw [hsame] at hfound
        exact ⟨hnamed, (interruptedAttemptCommit_commit_iff h).mp hfound, hdurable, hevidence⟩
      · rw [hcommit] at hpresent
        cases hpresent
  · intro hadoptable
    have hfound := (interruptedAttemptCommit_commit_iff h).mpr hadoptable.head
    rcases (inspect_commit hfound).2 with ⟨-, -, hcommit, -⟩ | ⟨hno, -⟩
    · rw [hcommit]
      simp [present, Option.filter, hadoptable.named]
    · exact absurd ⟨hadoptable.outputs, hadoptable.evidence⟩ hno

theorem inspect_artifactIds (h : attempt.commit = none) {commit : String}
    (hadoptable : Adoptable observations definition attempt commit) :
    (inspectInterruptedAttempt observations definition attempt).artifactIds =
      declaredIds definition attempt := by
  have hfound := (interruptedAttemptCommit_commit_iff h).mpr hadoptable.head
  rcases (inspect_commit hfound).2 with ⟨-, -, -, hids⟩ | ⟨hno, -⟩
  · exact hids
  · exact absurd ⟨hadoptable.outputs, hadoptable.evidence⟩ hno

/-- An inspection is blocked exactly when git could not tell what the branch holds. -/
theorem inspect_blocked_iff (h : attempt.commit = none) :
    (inspectInterruptedAttempt observations definition attempt).blockedReason = none ↔
      Reconcilable observations attempt := by
  have hiff := @interruptedAttemptCommit_unreconciled_iff observations _ h
  cases hfound : interruptedAttemptCommit observations attempt with
  | noCommit =>
    rw [hfound] at hiff
    rw [inspectInterruptedAttempt, hfound]
    refine iff_of_true rfl ?_
    by_contra hno
    obtain ⟨reason, hreason⟩ := hiff.mpr hno
    cases hreason
  | unreconciled reason =>
    rw [inspectInterruptedAttempt, hfound]
    exact iff_of_false (by simp [InterruptedAttemptDecision.blockedBecause])
      (hiff.mp ⟨reason, hfound⟩)
  | commit head =>
    refine iff_of_true (inspect_commit hfound).1 ?_
    rw [hfound] at hiff
    by_contra hno
    obtain ⟨reason, hreason⟩ := hiff.mpr hno
    cases hreason

end Decisions

/-! ## Settled attempts -/

section Settled

variable {run next : WorkflowRunState} {now : Timestamp}
  {decide : WorkflowStepAttempt → InterruptedAttemptDecision}

/-- Recovery settles every attempt it takes once, as decided about it. -/
private theorem Recovers.settled {done : List WorkflowStepAttempt}
    {steps : OrderedRecord String WorkflowStepRecord} {attempts : List WorkflowStepAttempt}
    {recovered : List RecoveredAttempt}
    (h : Recovers now decide run done steps attempts recovered) (hdone : (done.map (·.id)).Nodup) :
    ∃ f, attempts = run.attempts.map f ∧ ∀ x, (f x).id = x.id ∧
      (x.id ∉ done.map (·.id) → f x = x) ∧
      ∀ attempt ∈ done, attempt.id = x.id → ∃ definition settleAttempt settleRecord outcome,
        Settles now (decide attempt) attempt definition settleAttempt settleRecord outcome ∧
          f x = settleAttempt x := by
  induction h with
  | nil => exact ⟨id, by simp, fun x => ⟨rfl, fun _ => rfl, by simp⟩⟩
  | @snoc done steps attempts recovered attempt record settleAttempt settleRecord outcome _ _
      hsettles ih =>
    rw [List.map_append, List.map_singleton, List.nodup_append] at hdone
    obtain ⟨hbefore, -, hapart⟩ := hdone
    obtain ⟨f, rfl, hf⟩ := ih hbefore
    refine ⟨fun x => if (f x).id = attempt.id then settleAttempt (f x) else f x, ?_, ?_⟩
    · rw [updateAttempts, List.map_map]
      rfl
    · intro x
      obtain ⟨hid, hkept, hsettled⟩ := hf x
      dsimp only
      rw [hid, List.map_append, List.mem_append, not_or, List.map_singleton, List.mem_singleton]
      by_cases hx : x.id = attempt.id
      · have hfresh : x.id ∉ done.map (·.id) := by
          intro hmem
          exact hapart x.id hmem attempt.id (List.mem_singleton_self _) hx
        rw [if_pos hx, hkept hfresh]
        refine ⟨(hsettles.attempt x).1.id, fun hnot => absurd hx hnot.2, ?_⟩
        intro other hother hsame
        rcases List.mem_append.mp hother with hearlier | hlast
        · exact absurd (List.mem_map.mpr ⟨other, hearlier, hsame⟩) hfresh
        · rw [List.mem_singleton] at hlast
          rw [hlast]
          exact ⟨record.definition, settleAttempt, settleRecord, outcome, hsettles, rfl⟩
      · rw [if_neg hx]
        refine ⟨hid, fun hnot => hkept hnot.1, ?_⟩
        intro other hother hsame
        rcases List.mem_append.mp hother with hearlier | hlast
        · exact hsettled other hearlier hsame
        · rw [List.mem_singleton] at hlast
          rw [hlast] at hsame
          exact absurd hsame.symm hx

/-- A recovery goes through when every active attempt is of a recorded step. -/
private theorem foldlM_recoverAttempt_ok {xs : List WorkflowStepAttempt} {progress : RecoveryProgress}
    (h : ∀ attempt ∈ xs, ∃ record, progress.next.steps.get? attempt.stepId = some record) :
    ∃ later, xs.foldlM (recoverAttempt decide now) progress = .ok later := by
  induction xs generalizing progress with
  | nil => exact ⟨progress, rfl⟩
  | cons attempt rest ih =>
    obtain ⟨record, hrecord⟩ := h attempt (List.mem_cons_self ..)
    obtain ⟨middle, hmiddle⟩ : ∃ middle, recoverAttempt decide now progress attempt = .ok middle := by
      unfold recoverAttempt
      simp only [requireStep, require_ok_iff.mpr hrecord, bind, Except.bind]
      split
      · simp [updateStep, requireStep, updateStepAttempt, require, hrecord, bind, Except.bind, pure,
          Except.pure]
      · simp [updateStep, requireStep, updateStepAttempt, require, hrecord, bind, Except.bind, pure,
          Except.pure]
    obtain ⟨found, settleAttempt, settleRecord, outcome, bodies, -, -, hnext, -⟩ :=
      recoverAttempt_ok hmiddle
    rw [List.foldlM_cons, hmiddle]
    apply ih
    intro other hother
    rw [hnext]
    dsimp only
    rw [OrderedRecord.get?_set]
    split
    · exact ⟨_, rfl⟩
    · exact h other (List.mem_cons_of_mem _ hother)

theorem recoverWorkflowRun_total (h : AttemptTable run)
    (decide : WorkflowStepAttempt → InterruptedAttemptDecision) (now : Timestamp) :
    ∃ next recovered, recoverWorkflowRun decide now run = .ok (next, recovered) := by
  obtain ⟨progress, hprogress⟩ := @foldlM_recoverAttempt_ok now decide (activeAttempts run)
    ⟨run, [], []⟩ fun attempt hattempt => h.recorded attempt (List.mem_of_mem_filter hattempt)
  unfold recoverWorkflowRun
  rw [hprogress]
  dsimp only [bind, Except.bind]
  split
  · exact ⟨_, _, rfl⟩
  · exact ⟨_, _, rfl⟩

/-- A run without an active attempt is left as it is. -/
theorem recoverWorkflowRun_of_inactive (h : activeAttempts run = [])
    (decide : WorkflowStepAttempt → InterruptedAttemptDecision) (now : Timestamp) :
    recoverWorkflowRun decide now run = .ok (run, []) := by
  unfold recoverWorkflowRun
  rw [h]
  rfl

end Settled

/-! ## Interrupted runs -/

/-- An attempt that has not been settled produced nothing. -/
def Blank (attempt : WorkflowStepAttempt) : Prop :=
  attempt.commit = none ∧ attempt.evidence = none ∧ attempt.artifactIds = none

/-- What a recovery loaded: the attempts of the run, and the definitions of their steps. -/
structure LoadedFrom (run loaded : WorkflowRunState) : Prop where
  attempts : loaded.attempts = run.attempts
  definitions : ∀ attempt ∈ run.attempts, ∀ record, run.steps.get? attempt.stepId = some record →
    ∃ before, loaded.steps.get? attempt.stepId = some before ∧
      before.definition = record.definition

/-- The active attempts of a run, and the one about to be reserved, produced nothing, and a
recovery works on the attempts and definitions it loaded. -/
structure Unsettled (world : World) : Prop where
  active : ∀ attempt ∈ world.run.attempts, attempt.state.isActive = true → Blank attempt
  reserving : ∀ e attempt queue, world.process = .engine e → e.phase = .reserving attempt queue →
    Blank attempt
  loaded : ∀ loaded, world.process = .recovering loaded → LoadedFrom world.run loaded

section Runs

variable {sha256Hex : String → String} {world later : World} {action : Action}

private theorem blank_apply {run next : WorkflowRunState} {now : Timestamp}
    {transaction : Transaction} (happly : transaction.apply now run = .ok next)
    (hrun : ∀ attempt ∈ run.attempts, attempt.state.isActive = true → Blank attempt)
    (hmark : ∀ attemptId, transaction = .markRunning attemptId →
      ∀ attempt ∈ run.attempts, attempt.id = attemptId → attempt.state.isActive = true)
    (hreserve : ∀ attempt, transaction = .reserve attempt → Blank attempt) :
    ∀ attempt ∈ next.attempts, attempt.state.isActive = true → Blank attempt := by
  intro later hlater hactive
  rcases Transaction.apply_results happly with ⟨attempt, htransaction, -, hattempts⟩ |
    ⟨f, hattempts, hf⟩
  · rw [hattempts] at hlater
    rcases List.mem_append.mp hlater with hold | hnew
    · exact hrun later hold hactive
    · rw [List.mem_singleton] at hnew
      rw [hnew]
      exact hreserve attempt htransaction
  · rw [hattempts] at hlater
    obtain ⟨stored, hstored, rfl⟩ := List.mem_map.mp hlater
    have hchange := hf stored
    have hopen : ¬ transaction.settlesAttempt run stored.id := by
      intro hsettles
      rw [hchange.settled hsettles] at hactive
      cases hactive
    have hbefore : stored.state.isActive = true := by
      rcases hchange.kept hopen with hstate | ⟨hmarks, -⟩
      · rw [← hstate]
        exact hactive
      · exact hmark stored.id hmarks stored hstored rfl
    obtain ⟨hcommit, hevidence, hartifacts⟩ := hrun stored hstored hbefore
    have hresult := hchange.result hopen
    exact ⟨hresult.commit.trans hcommit, hresult.evidence.trans hevidence,
      hresult.artifactIds.trans hartifacts⟩

private theorem attempts_of_cancels {run next : WorkflowRunState} {now : Timestamp}
    {transaction : Transaction} (happly : transaction.apply now run = .ok next)
    (h : transaction.cancels) : next.attempts = run.attempts := by
  cases transaction with
  | requestCancellation reason =>
    cases happly
    exact (requestCancellation_rewrites reason now run).attempts
  | settleRun cancelled =>
    cases happly
    exact (settleRun_rewrites cancelled now run).attempts
  | _ => cases h

/-- What was loaded stays true of a run whose attempts stay. -/
private theorem LoadedFrom.apply {run next loaded : WorkflowRunState} {now : Timestamp}
    {transaction : Transaction} (h : LoadedFrom run loaded) (htable : AttemptTable run)
    (hkept : PlanKept run) (happly : transaction.apply now run = .ok next)
    (hattempts : next.attempts = run.attempts) : LoadedFrom next loaded := by
  refine ⟨h.attempts.trans hattempts.symm, ?_⟩
  rw [hattempts]
  intro attempt hattempt later hlater
  obtain ⟨record, hrecord⟩ := htable.recorded attempt hattempt
  obtain ⟨before, hbefore, hdefinition⟩ := h.definitions attempt hattempt record hrecord
  obtain ⟨after, hafter, hkeeps⟩ := Transaction.apply_record happly hkept hrecord
  rw [hlater] at hafter
  cases hafter
  exact ⟨before, hbefore, hdefinition.trans hkeeps.symm⟩

private theorem Unsettled.step (h : Unsettled world) (htracked : Tracked world)
    (hkept : PlanKept world.run) {accepts : WorkflowRunState → Prop} (hstep : Step accepts world action later) :
    Unsettled later := by
  constructor
  · rcases Step.run_cases hstep with hrun | ⟨transaction, now, rfl, happly⟩
    · rw [hrun]
      exact h.active
    · apply blank_apply happly h.active (htracked.marks_active hstep)
      rintro attempt rfl
      cases hstep with
      | write hissues _ _ =>
        cases hprocess : world.process with
        | engine e =>
          rw [hprocess] at hissues
          cases hissues with
          | reserved hphase _ | notReserved hphase _ =>
            exact h.reserving e attempt _ hprocess hphase
        | idle | recovering loaded | relaunching stopped | retrying =>
          rw [hprocess] at hissues
          cases hissues
  · intro e' attempt queue hengine hphase
    have hrule := hstep.engine_rule
      (P := fun _ e => ∀ attempt queue, e.phase = .reserving attempt queue → Blank attempt)
      (fun e hprocess attempt queue hphase => h.reserving e attempt queue hprocess hphase)
      (by simp [EngineProcess.start]) ?_ ?_ ?_ ?_
    · exact hrule e' hengine attempt queue hphase
    · intro transaction now e e' hprocess hissues _ _ attempt queue hphase
      have hbefore := h.reserving e attempt queue hprocess
      generalize hnext : Process.engine e' = process at hissues
      cases hissues with
      | recordWorker _ | admission | settleStep _ =>
        cases hnext
        exact hbefore hphase
      | settleRun _ => cases hnext
      | _ =>
        cases hnext
        cases hphase
    · exact fun transaction now e hprocess _ _ attempt queue => h.reserving e attempt queue hprocess
    · intro transaction e e' hprocess hrefuses attempt queue hphase
      have hbefore := h.reserving e attempt queue hprocess
      generalize hnext : Process.engine e' = process at hrefuses
      cases hrefuses with
      | recordWorker _ | admission | settleStep _ =>
        cases hnext
        exact hbefore hphase
      | _ =>
        cases hnext
        cases hphase
    · intro e e' branch' hprocess hmove attempt queue hphase
      cases hmove with
      | load _ =>
        rcases loadPending_cases world.run with ⟨hload, -⟩ | ⟨stepId, -, -, ⟨hload, -⟩ |
          ⟨attempt, -, ⟨commit, -, hload⟩ | ⟨-, hload⟩⟩⟩ <;> rw [hload] at hphase <;> cases hphase
      | dispatch _ =>
        rcases dispatchPhase_cases e.aborted _ world.run with hload | ⟨hload, -⟩ <;>
          rw [hload] at hphase <;> cases hphase
      | @launch stepId queue _ =>
        rcases launchPhase_cases world.run stepId queue with ⟨ticket, -, hload⟩ | hload <;>
          rw [hload] at hphase <;> cases hphase
      | prepared workspace _ _ _ =>
        cases hphase
        exact ⟨rfl, rfl, rfl⟩
      | abort => exact h.reserving e attempt queue hprocess hphase
      | _ => cases hphase
  · intro loaded hloaded
    cases hstep with
    | write hissues happly _ =>
      have hbefore := h.loaded loaded
      generalize world.process = process at hissues hbefore
      cases hissues with
      | recover _ =>
        unfold afterRecovery at hloaded
        split at hloaded
        · cases hloaded
        · split at hloaded <;> cases hloaded
      | retry =>
        split at hloaded <;> cases hloaded
      | admission =>
        obtain ⟨-, -, -, -, -, -, -, -, -, -, -, -, hattempts, -⟩ := admitSteps_ok happly
        exact (hbefore hloaded).apply htracked.table hkept happly hattempts
      | _ => cases hloaded
    | @requestCancellation reason next now happly _ =>
      exact (h.loaded loaded hloaded).apply htracked.table hkept happly
        (attempts_of_cancels happly trivial)
    | @settleCancelled next now _ happly _ =>
      exact (h.loaded loaded hloaded).apply htracked.table hkept happly
        (attempts_of_cancels happly rfl)
    | refuse hrefuses =>
      dsimp only at hloaded
      have hbefore := h.loaded loaded
      generalize world.process = process at hrefuses hbefore
      rw [hloaded] at hrefuses
      cases hrefuses
      exact hbefore rfl
    | move _ _ => cases hloaded
    | dropCanceller _ => exact h.loaded loaded hloaded
    | resume _ =>
      cases hloaded
      exact ⟨rfl, fun _ _ record hrecord => ⟨record, hrecord, rfl⟩⟩
    | assessRetry _ _ _ | crash _ | stop _ _ _ => cases hloaded

theorem unsettled_reachable {accepts : WorkflowRunState → Prop}
    (h : (engineSystem PlanValidated accepts).Reachable world) : Unsettled world := by
  apply h.invariant
  · intro s hstarts
    obtain ⟨input, -, hcreate⟩ := hstarts.input
    refine ⟨?_, ?_, ?_⟩
    · intro attempt hattempt
      rw [(createWorkflowRunState_ok hcreate).attempts] at hattempt
      cases hattempt
    · intro e attempt queue hengine hphase
      rw [hstarts.process] at hengine
      cases hengine
      cases hphase
    · intro loaded hloaded
      rw [hstarts.process] at hloaded
      cases hloaded
  · intro s a t hreach hunsettled hstep
    exact hunsettled.step (tracked_reachable hreach) (planKept_reachable hreach) hstep

/-! ## The recovered run -/

/-- How recovery ends an active attempt and its step: the attempt succeeds with the commit it may
adopt and the ids of its declared outputs, or it is interrupted, and its step is ready again when
git could tell what the branch holds and the budget is not spent. -/
structure AttemptRecovered (observations : RecoveryObservations) (record after : WorkflowStepRecord)
    (attempt later : WorkflowStepAttempt) : Prop where
  same : SameAttempt attempt later
  succeeded_iff : later.state = .succeeded ↔
    ∃ commit, Adoptable observations record.definition attempt commit
  adopted : ∀ commit, Adoptable observations record.definition attempt commit →
    later.commit = some commit ∧
    later.artifactIds.getD [] = declaredIds record.definition attempt ∧ after.state = .succeeded
  interrupted : (¬ ∃ commit, Adoptable observations record.definition attempt commit) →
    later.state = .interrupted ∧ (after.state = .ready ∨ after.state = .failed) ∧
    (after.state = .ready ↔ Reconcilable observations attempt ∧
      attempt.number < (stepRetryPolicy record.definition).maxAttempts)

/-- The status of a step recovery does not settle: kept, except that a blocked step may be
unblocked and a planned one blocked. -/
def StatusKept (record after : WorkflowStepRecord) : Prop :=
  after = { record with state := after.state } ∧
    (after.state = record.state ∨
      record.state = .blocked ∧ (after.state = .planned ∨ after.state = .ready) ∨
      record.state = .planned ∧ after.state = .blocked)

/-- What recovery makes of a run. -/
structure RunRecovered (observations : RecoveryObservations) (run next : WorkflowRunState) : Prop where
  inactive : activeAttempts next = []
  attempts : ∀ attempt ∈ activeAttempts run, ∃ record later after,
    run.steps.get? attempt.stepId = some record ∧ later ∈ next.attempts ∧
    next.steps.get? attempt.stepId = some after ∧
    AttemptRecovered observations record after attempt later
  settled : ∀ attempt ∈ run.attempts, attempt.state.isActive = false → attempt ∈ next.attempts
  steps : ∀ stepId record, run.steps.get? stepId = some record → stepId ∉ activeStepIds run →
    ∃ after, next.steps.get? stepId = some after ∧ StatusKept record after

private theorem recoveryDecision_eq {loaded : WorkflowRunState} (hunsettled : Unsettled world)
    (hprocess : world.process = .recovering loaded) (htable : AttemptTable world.run)
    (observations : RecoveryObservations) {attempt : WorkflowStepAttempt}
    (hattempt : attempt ∈ activeAttempts world.run) {record : WorkflowStepRecord}
    (hrecord : world.run.steps.get? attempt.stepId = some record) :
    recoveryDecision observations loaded attempt =
      inspectInterruptedAttempt observations record.definition attempt := by
  have hloaded := hunsettled.loaded loaded hprocess
  have hactive : activeAttempts loaded = activeAttempts world.run := by
    unfold activeAttempts
    rw [hloaded.attempts]
  have hfind : (activeAttempts world.run).find? (fun candidate => candidate.id = attempt.id) =
      some attempt := by
    rw [List.find?_eq_some_iff_append]
    refine ⟨by simp, ?_⟩
    obtain ⟨pre, post, hsplit⟩ := List.append_of_mem hattempt
    refine ⟨pre, post, hsplit, ?_⟩
    intro other hother
    have hids : ((activeAttempts world.run).map (·.id)).Nodup :=
      htable.nodup.sublist (List.filter_sublist.map _)
    rw [hsplit, List.map_append, List.map_cons, List.nodup_middle, List.nodup_cons] at hids
    rw [Bool.not_eq_true', decide_eq_false_iff_not]
    intro hid
    apply hids.1
    rw [List.mem_append]
    exact Or.inl (List.mem_map.mpr ⟨other, hother, hid⟩)
  obtain ⟨before, hbefore, hdefinition⟩ :=
    hloaded.definitions attempt (List.mem_of_mem_filter hattempt) record hrecord
  unfold recoveryDecision
  rw [hactive, hfind]
  dsimp only
  rw [hbefore]
  dsimp only
  rw [hdefinition]

private theorem get?_reconciled {run : WorkflowRunState}
    {steps : OrderedRecord String WorkflowStepRecord} (hkept : PlanKept { run with steps })
    {stepId : String} {settled : WorkflowStepRecord} (h : steps.get? stepId = some settled) :
    (reconciledSteps run steps).get? stepId =
      some (if settled.state.isWaiting = true then
        { settled with
          state := readiness run.capabilityProfiles settled.definition (reconciledSteps run steps) }
      else settled) := by
  split
  · next hwaiting => exact hkept.reconcile_waiting_eq h hwaiting
  · next hwaiting => exact reconcile_keeps h (Bool.eq_false_iff.mpr hwaiting)

section Records

variable {run next : WorkflowRunState} {now : Timestamp} {stepId : String}
  {decide : WorkflowStepAttempt → InterruptedAttemptDecision} {record : WorkflowStepRecord}

private theorem satisfied_after (hsteps : StepsSound run) (hkept : PlanKept run)
    (hunique : (activeStepIds run).Nodup)
    (happly : (Transaction.recover decide).apply now run = .ok next) (h : Satisfied run stepId) :
    Satisfied next stepId := by
  apply h.apply happly hkept hunique
  exact fun hactive => h.not_unfinished (hsteps.unfinished stepId hactive)

/-- A step recovery adopts is still to be integrated, so its dependents wait. -/
private theorem adopted_not_satisfied (hconsistent : Consistent sha256Hex world)
    (hrun : run = world.run) (hsteps : StepsSound run) {attempt : WorkflowStepAttempt}
    (hattempt : attempt ∈ run.attempts) (hactive : attempt.state.isActive = true)
    (hbranch : ∃ branch, present attempt.branch = some branch)
    (hrecord : run.steps.get? attempt.stepId = some record) (state : StepRunState) :
    stepSatisfiesDependents run.capabilityProfiles { record with state } = false := by
  subst hrun
  have haccepted := hconsistent.accepted.attempts.each attempt hattempt
  obtain ⟨definition, hdefinition, hrequirement⟩ := haccepted.requirement
  obtain ⟨-, -, hsame, hstep⟩ := hconsistent.accepted.steps.record hconsistent.kept.steps hrecord
  rw [hsame, Option.some.injEq] at hdefinition
  have hmutable : attempt.workspaceRequirement = .mutable := by
    apply haccepted.branch.mp
    obtain ⟨branch, hpresent⟩ := hbranch
    unfold present at hpresent
    rw [(Option.filter_eq_some_iff.mp hpresent).1]
    rfl
  have hrequires : stepRequiresIntegration world.run.capabilityProfiles record.definition = true := by
    unfold stepRequiresIntegration
    rw [hdefinition, ← hrequirement, hmutable]
    rfl
  have hnone : record.integratedCommit = none := by
    apply hstep.succeeded.resolve_right
    obtain ⟨other, hother, hopen⟩ :=
      hsteps.unfinished _ (mem_activeStepIds_iff.mpr ⟨attempt, hattempt, hactive, rfl⟩)
    rw [hrecord, Option.some.injEq] at hother
    rw [hother]
    exact hopen
  unfold stepSatisfiesDependents
  dsimp only
  rw [hrequires, hnone]
  cases state <;> rfl

private theorem satisfied_before (hconsistent : Consistent sha256Hex world)
    (hrun : run = world.run) (hsteps : StepsSound run)
    (happly : (Transaction.recover decide).apply now run = .ok next)
    (hbranch : ∀ attempt ∈ activeAttempts run, present (decide attempt).commit ≠ none →
      ∃ branch, present attempt.branch = some branch)
    (hrecord : run.steps.get? stepId = some record) (h : Satisfied next stepId) :
    Satisfied run stepId := by
  have hkept : PlanKept run := by
    rw [hrun]
    exact hconsistent.kept
  have hunique : (activeStepIds run).Nodup := by
    rw [hrun]
    exact hconsistent.exclusive.single
  obtain ⟨settled, later, hupdates, hreconciles, hlater⟩ :=
    Transaction.apply_updates happly hkept hunique hrecord
  obtain ⟨other, hother, hsatisfied⟩ := h
  rw [hlater, Option.some.injEq] at hother
  rw [← hother, (Transaction.apply_header happly).capabilityProfiles] at hsatisfied
  have hsucceeded := hreconciles.succeeded_iff.mp (satisfied_iff.mp hsatisfied).1
  rcases hupdates with ⟨attempt, hattempt, rfl, settleAttempt, settleRecord, outcome, hsettles, rfl⟩ |
    ⟨-, rfl⟩
  · exfalso
    obtain ⟨hstored, hactive⟩ := List.mem_filter.mp hattempt
    rw [hreconciles.1] at hsatisfied
    cases hsettles with
    | @adopted commit hcommit =>
      have hnot := adopted_not_satisfied hconsistent hrun hsteps hstored hactive
        (hbranch attempt hattempt (by simp [hcommit])) hrecord later.state
      dsimp only at hsatisfied
      rw [hnot] at hsatisfied
      cases hsatisfied
    | retried _ _ _ => cases hsucceeded
    | failed _ _ => cases hsucceeded
  · refine ⟨record, hrecord, ?_⟩
    rw [hreconciles.1] at hsatisfied
    split at hsucceeded
    · cases hsucceeded
    · next hopen =>
      rw [if_neg hopen] at hsatisfied
      rw [satisfied_iff] at hsatisfied ⊢
      exact ⟨hsucceeded, hsatisfied.2⟩

end Records

private theorem decisions_branch {loaded : WorkflowRunState} (hunsettled : Unsettled world)
    (hprocess : world.process = .recovering loaded) (htable : AttemptTable world.run)
    (observations : RecoveryObservations) :
    ∀ attempt ∈ activeAttempts world.run,
      present (recoveryDecision observations loaded attempt).commit ≠ none →
        ∃ branch, present attempt.branch = some branch := by
  intro attempt hattempt hcommit
  obtain ⟨hstored, hactive⟩ := List.mem_filter.mp hattempt
  obtain ⟨record, hrecord⟩ := htable.recorded attempt hstored
  rw [recoveryDecision_eq hunsettled hprocess htable observations hattempt hrecord] at hcommit
  obtain ⟨commit, hpresent⟩ := Option.ne_none_iff_exists'.mp hcommit
  have hadoptable := (inspect_adopts_iff (hunsettled.active attempt hstored hactive).1).mp hpresent
  obtain ⟨branch, hbranch, -⟩ := hadoptable.head
  exact ⟨branch, hbranch⟩

end Runs

section Recovered

variable {run next : WorkflowRunState} {now : Timestamp} {observations : RecoveryObservations}
  {decide : WorkflowStepAttempt → InterruptedAttemptDecision} {attempt : WorkflowStepAttempt}
  {record : WorkflowStepRecord} {steps : OrderedRecord String WorkflowStepRecord}
  {attempts : List WorkflowStepAttempt} {recovered : List RecoveredAttempt}

/-- An inspection that finds nothing to adopt names no commit. -/
private theorem inspect_nothing {definition : StepDefinition} (hblank : attempt.commit = none)
    (h : ¬ ∃ commit, Adoptable observations definition attempt commit) :
    present (inspectInterruptedAttempt observations definition attempt).commit = none := by
  by_contra hsome
  obtain ⟨commit, hcommit⟩ := Option.ne_none_iff_exists'.mp hsome
  exact h ⟨commit, (inspect_adopts_iff hblank).mp hcommit⟩

/-- How the active attempts of a run end. -/
private theorem attempt_recovered
    (hrecovers : Recovers now decide run (activeAttempts run) steps attempts recovered)
    (hids : ((activeAttempts run).map (·.id)).Nodup) (hattempt : attempt ∈ activeAttempts run)
    (hblank : Blank attempt)
    (hdecision : decide attempt = inspectInterruptedAttempt observations record.definition attempt) :
    ∃ later ∈ attempts, SameAttempt attempt later ∧
      (∀ commit, Adoptable observations record.definition attempt commit →
        later.state = .succeeded ∧ later.commit = some commit ∧
        later.artifactIds.getD [] = declaredIds record.definition attempt) ∧
      ((¬ ∃ commit, Adoptable observations record.definition attempt commit) →
        later.state = .interrupted) := by
  obtain ⟨f, rfl, hf⟩ := hrecovers.settled hids
  obtain ⟨definition, settleAttempt, settleRecord, outcome, hsettles, hlater⟩ :=
    (hf attempt).2.2 attempt hattempt rfl
  refine ⟨f attempt, List.mem_map_of_mem (List.mem_of_mem_filter hattempt), ?_⟩
  rw [hlater]
  rw [hdecision] at hsettles
  refine ⟨(hsettles.attempt attempt).1, ?_, ?_⟩
  · intro commit hadoptable
    have hpresent := (inspect_adopts_iff hblank.1).mpr hadoptable
    cases hsettles with
    | @adopted found hfound =>
      rw [hpresent, Option.some.injEq] at hfound
      refine ⟨rfl, congrArg some hfound.symm, ?_⟩
      dsimp only
      rw [inspect_artifactIds hblank.1 hadoptable]
      split
      · next hnil =>
        rw [hblank.2.2, hnil]
        rfl
      · rfl
    | retried hnone _ _ | failed hnone _ =>
      rw [hpresent] at hnone
      cases hnone
  · intro hadopts
    have hnone := inspect_nothing hblank.1 hadopts
    cases hsettles with
    | adopted hsome =>
      rw [hnone] at hsome
      cases hsome
    | retried _ _ _ => rfl
    | failed _ _ => rfl

/-- How the steps of the active attempts end, when their dependencies satisfy them. -/
private theorem step_recovered
    (hrecovers : Recovers now decide run (activeAttempts run) steps attempts recovered)
    (hunique : (activeStepIds run).Nodup) (hattempt : attempt ∈ activeAttempts run)
    (hrecord : run.steps.get? attempt.stepId = some record) (hblank : attempt.commit = none)
    (hdecision : decide attempt = inspectInterruptedAttempt observations record.definition attempt)
    (hnext : next.steps = reconciledSteps run (unblocked steps))
    (hkept : PlanKept { run with steps := unblocked steps })
    (hready : readiness run.capabilityProfiles record.definition next.steps = .ready) :
    ∃ after, next.steps.get? attempt.stepId = some after ∧
      ((∃ commit, Adoptable observations record.definition attempt commit) →
        after.state = .succeeded) ∧
      ((¬ ∃ commit, Adoptable observations record.definition attempt commit) →
        (after.state = .ready ∨ after.state = .failed) ∧
        (after.state = .ready ↔ Reconcilable observations attempt ∧
          attempt.number < (stepRetryPolicy record.definition).maxAttempts)) := by
  rcases hrecovers.updated hunique hrecord with
    ⟨other, hother, hid, settleAttempt, settleRecord, outcome, hsettles, hget⟩ | ⟨hnot, -⟩
  swap
  · exact absurd (List.mem_map_of_mem hattempt) hnot
  have hsame : other = attempt := List.inj_on_of_nodup_map hunique hother hattempt hid
  rw [hsame, hdecision] at hsettles
  have hunblocked : (unblocked steps).get? attempt.stepId = some (settleRecord record) := by
    unfold unblocked
    rw [OrderedRecord.get?_mapValues, hget, Option.map_some, if_neg (hsettles.not_blocked record)]
  have hafter := get?_reconciled hkept hunblocked
  rw [← hnext] at hafter
  refine ⟨_, hafter, ?_, ?_⟩
  · rintro ⟨commit, hadoptable⟩
    have hpresent := (inspect_adopts_iff hblank).mpr hadoptable
    cases hsettles with
    | adopted _ => rfl
    | retried hnone _ _ | failed hnone _ =>
      rw [hpresent] at hnone
      cases hnone
  · intro hadopts
    have hnone := inspect_nothing hblank hadopts
    rw [← @inspect_blocked_iff _ record.definition _ hblank]
    cases hsettles with
    | adopted hsome =>
      rw [hnone] at hsome
      cases hsome
    | retried _ hblocked hbudget =>
      simp only [StepRunState.isWaiting, if_true]
      exact ⟨Or.inl hready, iff_of_true hready ⟨hblocked, hbudget⟩⟩
    | failed _ hno =>
      simp only [StepRunState.isWaiting, Bool.false_eq_true, if_false]
      exact ⟨Or.inr trivial, iff_of_false (by simp) hno⟩

/-- The status of a step recovery does not settle, when readiness is gained by none. -/
private theorem status_kept
    (hrecovers : Recovers now decide run (activeAttempts run) steps attempts recovered)
    (hunique : (activeStepIds run).Nodup) {stepId : String}
    (hrecord : run.steps.get? stepId = some record) (hidle : stepId ∉ activeStepIds run)
    (hreconciled : IsReconciled run)
    (hnext : next.steps = reconciledSteps run (unblocked steps))
    (hkept : PlanKept { run with steps := unblocked steps })
    (hready : readiness run.capabilityProfiles record.definition next.steps = .ready ↔
      readiness run.capabilityProfiles record.definition run.steps = .ready) :
    ∃ after, next.steps.get? stepId = some after ∧ StatusKept record after := by
  rcases hrecovers.updated hunique hrecord with ⟨other, hother, hid, -⟩ | ⟨-, hget⟩
  · exact absurd (List.mem_map.mpr ⟨other, hother, hid⟩) hidle
  have hunblocked : (unblocked steps).get? stepId =
      some (if record.state = .blocked then { record with state := .planned } else record) := by
    unfold unblocked
    rw [OrderedRecord.get?_mapValues, hget, Option.map_some]
  have hafter := get?_reconciled hkept hunblocked
  rw [← hnext] at hafter
  refine ⟨_, hafter, ?_⟩
  have hcases := readiness_cases run.capabilityProfiles record.definition next.steps
  cases hstate : record.state with
  | blocked =>
    simp only [if_true, StepRunState.isWaiting]
    refine ⟨rfl, ?_⟩
    dsimp only
    rw [hstate]
    rcases hcases with hplanned | hnowReady | hblocked
    · exact Or.inr (Or.inl ⟨rfl, Or.inl hplanned⟩)
    · exact Or.inr (Or.inl ⟨rfl, Or.inr hnowReady⟩)
    · exact Or.inl hblocked
  | planned =>
    have hbefore := hreconciled stepId record hrecord (by rw [hstate]; rfl)
    simp only [hstate, reduceCtorEq, if_false, StepRunState.isWaiting, if_true]
    refine ⟨rfl, ?_⟩
    dsimp only
    rw [hstate]
    rcases hcases with hplanned | hnowReady | hblocked
    · exact Or.inl hplanned
    · rw [hready, ← hbefore, hstate] at hnowReady
      cases hnowReady
    · exact Or.inr (Or.inr ⟨rfl, hblocked⟩)
  | ready =>
    have hbefore := hreconciled stepId record hrecord (by rw [hstate]; rfl)
    rw [hstate] at hbefore
    simp only [hstate, reduceCtorEq, if_false, StepRunState.isWaiting, if_true]
    refine ⟨rfl, Or.inl ?_⟩
    dsimp only
    rw [hstate]
    exact hready.mpr hbefore.symm
  | running | succeeded | failed | cancelled =>
    simp only [hstate, reduceCtorEq, if_false, StepRunState.isWaiting, Bool.false_eq_true]
    exact ⟨rfl, Or.inl rfl⟩

end Recovered

section Runs

variable {sha256Hex : String → String} {world later : World}

/-- Recovery of any reachable run settles every active attempt from what git and the artifact store
answer, keeps every other attempt and the status of every other step, and a second recovery changes
nothing. -/
theorem recovery_decides (h : (storedEngine sha256Hex).Reachable world) {loaded : WorkflowRunState}
    (hprocess : world.process = .recovering loaded) (observations : RecoveryObservations)
    (now : Timestamp) :
    ∃ next recovered, recoverWorkflowRun (recoveryDecision observations loaded) now world.run =
        .ok (next, recovered) ∧
      RunRecovered observations world.run next ∧
      ∀ decide later, recoverWorkflowRun decide later next = .ok (next, []) := by
  have hconsistent := consistent_reachable h
  have hsteps := (sound_reachable h).steps
  have hunsettled := unsettled_reachable h
  have htable := hconsistent.tracked.table
  have hunique := hconsistent.exclusive.single
  obtain ⟨next, recovered, hrecover⟩ :=
    recoverWorkflowRun_total htable (recoveryDecision observations loaded) now
  have happly : (Transaction.recover (recoveryDecision observations loaded)).apply now world.run =
      .ok next := by
    rw [Transaction.apply, hrecover]
    rfl
  have hinactive : activeAttempts next = [] := by
    rw [activeAttempts_eq_nil_iff, List.eq_nil_iff_forall_not_mem]
    intro stepId hactive
    rcases (Transaction.apply_active happly (by simp) (by simp) stepId).mp hactive with hno |
      ⟨attempt, hattempt, hlive, -, hopen⟩
    · exact hno
    · exact hopen (List.mem_map.mpr ⟨attempt, List.mem_filter.mpr ⟨hattempt, hlive⟩, rfl⟩)
  refine ⟨next, recovered, hrecover, ?_,
    fun decide later => recoverWorkflowRun_of_inactive hinactive decide later⟩
  obtain ⟨bound, hbound⟩ := exists_number_bound (activeAttempts world.run)
  obtain ⟨steps, attempts, hrecovers, ⟨hnone, rfl⟩ | ⟨-, hwrite⟩⟩ :=
    recoverWorkflowRun_ok hbound hrecover
  · refine ⟨hinactive, ?_, fun attempt hattempt _ => hattempt,
      fun stepId record hrecord _ => ⟨record, hrecord, rfl, Or.inl rfl⟩⟩
    intro attempt hattempt
    rw [hnone] at hattempt
    cases hattempt
  have hkept : PlanKept { world.run with steps := unblocked steps } :=
    PlanKept.before_reconciled (Transaction.apply_planKept happly hconsistent.kept) hwrite.plan
      hwrite.steps
  have hids : ((activeAttempts world.run).map (·.id)).Nodup :=
    htable.nodup.sublist (List.filter_sublist.map _)
  have hprofiles := (Transaction.apply_header happly).capabilityProfiles
  have hafter : ∀ d, Satisfied world.run d → Satisfied next d :=
    fun d hd => satisfied_after hsteps hconsistent.kept hunique happly hd
  refine ⟨hinactive, ?_, ?_, ?_⟩
  · intro attempt hattempt
    obtain ⟨hstored, hactive⟩ := List.mem_filter.mp hattempt
    obtain ⟨record, hrecord⟩ := htable.recorded attempt hstored
    have hblank := hunsettled.active attempt hstored hactive
    have hdecision := recoveryDecision_eq hunsettled hprocess htable observations hattempt hrecord
    have hready : readiness world.run.capabilityProfiles record.definition next.steps = .ready := by
      rw [readiness_ready_iff]
      intro d hd
      have hdependency := hafter d (hsteps.launched _ record hrecord
        (attemptsOf_ne_nil_iff.mpr ⟨attempt, hstored, rfl⟩) d hd)
      unfold Satisfied at hdependency
      rw [hprofiles] at hdependency
      exact hdependency
    obtain ⟨later, hlater, hsame, hadopts, hinterrupts⟩ :=
      @attempt_recovered _ _ _ _ _ record _ _ _ hrecovers hids hattempt hblank hdecision
    obtain ⟨after, hget, hsucceeds, hreruns⟩ := step_recovered hrecovers hunique hattempt hrecord
      hblank.1 hdecision hwrite.steps hkept hready
    refine ⟨record, later, after, hrecord, by rw [hwrite.attempts]; exact hlater, hget, hsame, ?_, ?_, ?_⟩
    · constructor
      · intro hsucceeded
        by_contra hnone
        rw [hinterrupts hnone] at hsucceeded
        cases hsucceeded
      · rintro ⟨commit, hcommit⟩
        exact (hadopts commit hcommit).1
    · intro commit hcommit
      obtain ⟨-, hfound, hartifacts⟩ := hadopts commit hcommit
      exact ⟨hfound, hartifacts, hsucceeds ⟨commit, hcommit⟩⟩
    · exact fun hnone => ⟨hinterrupts hnone, hreruns hnone⟩
  · intro attempt hattempt hfinished
    obtain ⟨f, hattempts, hf⟩ := hrecovers.settled hids
    have hfresh : attempt.id ∉ (activeAttempts world.run).map (·.id) := by
      intro hmem
      obtain ⟨other, hother, hid⟩ := List.mem_map.mp hmem
      obtain ⟨hstored, hactive⟩ := List.mem_filter.mp hother
      rw [List.inj_on_of_nodup_map htable.nodup hstored hattempt hid, hfinished] at hactive
      cases hactive
    rw [hwrite.attempts, hattempts, ← (hf attempt).2.1 hfresh]
    exact List.mem_map_of_mem hattempt
  · intro stepId record hrecord hidle
    apply status_kept hrecovers hunique hrecord hidle hconsistent.reconciled hwrite.steps hkept
    rw [readiness_ready_iff, readiness_ready_iff]
    apply forall₂_congr
    intro d hd
    have hbranch := decisions_branch hunsettled hprocess htable observations
    obtain ⟨dependency, hdependency⟩ := hconsistent.kept.dependency_recorded hrecord hd
    have hiff : Satisfied next d ↔ Satisfied world.run d :=
      ⟨satisfied_before hconsistent rfl hsteps happly hbranch hdependency, hafter d⟩
    unfold Satisfied at hiff
    rw [hprofiles] at hiff
    exact hiff

end Runs

/-- Git found one verified commit, and no artifact store is configured. -/
def commitFound : RecoveryObservations where
  branchHead := fun _ => .ok "c1"
  verifyTaskCommit := fun _ _ _ => .ok ()
  durable := none
  readEvidence := fun _ => none

/-- The commit of an attempt that was reserved when its process stopped is adopted. -/
theorem recovery_decides_reservedRun :
    ∃ next recovered, recoverWorkflowRun (recoveryDecision commitFound reservedRun) (clock "2")
        reservedRun = .ok (next, recovered) ∧
      (∃ attempt ∈ next.attempts, attempt.state = .succeeded ∧ attempt.commit = some "c1") ∧
      activeAttempts next = [] := by
  have hstopped : (storedEngine id).Reachable ⟨reservedRun, .idle, 0, []⟩ :=
    (reservedRun_reachable id).step_to (Step.crash (by simp [engineAt])) rfl
  have hrecovering : (storedEngine id).Reachable ⟨reservedRun, .recovering reservedRun, 0, []⟩ :=
    hstopped.step_to (Step.resume rfl) rfl
  obtain ⟨next, recovered, hrecover, hrecovered, -⟩ :=
    recovery_decides hrecovering rfl commitFound (clock "2")
  refine ⟨next, recovered, hrecover, ?_, hrecovered.inactive⟩
  obtain ⟨record, later, after, hrecord, hlater, -, hsettled⟩ :=
    hrecovered.attempts (editAttempt .prepared none) (List.mem_singleton_self _)
  have hdefinition : record.definition = editStep := by
    cases hrecord
    rfl
  have hadoptable : Adoptable commitFound record.definition (editAttempt .prepared none) "c1" := by
    rw [hdefinition]
    exact ⟨by decide, ⟨"task/edit-1", rfl, rfl, by decide, rfl⟩, by simp [OutputsDurable, editStep,
      changeStep], fun hno => absurd hno (by decide)⟩
  exact ⟨later, hlater, hsettled.succeeded_iff.mpr ⟨"c1", hadoptable⟩,
    (hsettled.adopted "c1" hadoptable).1⟩

end BuildConductor.Lifecycle
