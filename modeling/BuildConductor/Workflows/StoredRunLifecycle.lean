import BuildConductor.Storage.RunHistory

/-!
# The lifecycle of a stored run

The transactions with which the engine runner carries a stored run from its approval to its end,
as any number of processes interleave them. Each decides from the stored run alone, and from what its
process saw before. `src/src/workflows/change-run.ts:199-331,506-543,694-994`.
-/

namespace BuildConductor.Workflows

open Base Domain Storage.RunStore

/-! ## The transactions -/

/-- What one transaction of the runner carries into the store. -/
inductive LifecycleWrite
  | approve (expectedPlanRevision : Nat)
  | fail
  | settleStopped (cancelled : Bool) (error : Option String)
  | settleFailedCancel (error : Option String)
  | beginValidation (attempt : FinalValidationAttempt) (integrationHead : String)
  | settleValidation (attemptId : String) (aborted : Option String)
      (evidence : Option FinalValidationEvidence) (mergeReady : Option MergeReadyEvidence)
  | settleReviewFailure (error : String)
  | settleException (attemptId : String) (aborted : Option String) (message : String)
  | interruptStale
  | markExecuting
  | cancelStored

/-- The states nothing runs in any longer. -/
def isSettled (state : RunState) : Bool := state = .completed ∨ state = .failed ∨ state = .cancelled

/-- `{ ...stored, ...(error ? { error } : {}) }`. -/
def overriding (stored error : Option String) : Option String := (present error).or stored

/-- The running attempts some condition selects, ended. -/
def endAttempts (selects : FinalValidationAttempt → Bool)
    (ended : FinalValidationAttempt → FinalValidationAttempt)
    (attempts : List FinalValidationAttempt) : List FinalValidationAttempt :=
  attempts.map fun attempt =>
    if selects attempt && attempt.state = .running then ended attempt else attempt

section Mutations

variable (now : Timestamp) (stored : OrchestrationRun)

/-- `src/src/domain/run.ts:299-319`. -/
def approveRun (expectedPlanRevision : Nat) : Except String OrchestrationRun := do
  ensure (stored.state = .awaitingApproval) s!"Cannot approve run in state {stored.state.name}"
  ensure (stored.planRevision = expectedPlanRevision)
    s!"Stale plan revision {expectedPlanRevision}; current revision is {stored.planRevision}"
  pure
    { stored with
      state := .running
      approvedPlanRevision := some stored.planRevision
      approvedAt := some now.text
      updatedAt := now.text }

/-- `src/src/workflows/change-run.ts:704-715`. -/
def settleStoppedRun (cancelled : Bool) (error : Option String) : OrchestrationRun :=
  { stored with
    state := if cancelled then .cancelled else .failed
    error := overriding stored.error error
    updatedAt := now.text }

/-- `src/src/workflows/change-run.ts:751-769`. -/
def beginValidationRun (attempt : FinalValidationAttempt) (integrationHead : String) :
    OrchestrationRun :=
  { stored with
    state := .validating
    integrationHead
    finalValidationAttempts := stored.finalValidationAttempts ++ [attempt]
    updatedAt := now.text }

/-- How an attempt ends with its evidence. `src/src/workflows/change-run.ts:815-832`. -/
def settledAttempt (aborted : Option String) (evidence : Option FinalValidationEvidence)
    (mergeReady : Option MergeReadyEvidence) (attempt : FinalValidationAttempt) :
    FinalValidationAttempt :=
  { attempt with
    state :=
      if aborted.isSome then .cancelled else if mergeReady.isSome then .succeeded else .failed
    finishedAt := some now.text
    error := aborted.or attempt.error
    evidence := evidence.or attempt.evidence }

/-- `src/src/workflows/change-run.ts:806-844`. -/
def settleValidationRun (attemptId : String) (aborted : Option String)
    (evidence : Option FinalValidationEvidence) (mergeReady : Option MergeReadyEvidence) :
    OrchestrationRun :=
  { stored with
    state :=
      if aborted.isSome then .cancelled else if mergeReady.isSome then .completed else .failed
    finalValidationAttempts :=
      endAttempts (fun attempt => attempt.id = attemptId)
        (settledAttempt now aborted evidence mergeReady) stored.finalValidationAttempts
    mergeReadyEvidence :=
      if aborted.isSome then stored.mergeReadyEvidence else mergeReady.or stored.mergeReadyEvidence
    error :=
      if aborted.isSome || mergeReady.isSome then stored.error else some "Final validation failed"
    updatedAt := now.text }

/-- `src/src/workflows/change-run.ts:886-911`. -/
def settleExceptionRun (attemptId : String) (aborted : Option String) (message : String) :
    OrchestrationRun :=
  { stored with
    state := if aborted.isSome then .cancelled else .failed
    finalValidationAttempts :=
      endAttempts (fun attempt => attempt.id = attemptId)
        (fun attempt =>
          { attempt with
            state := if aborted.isSome then .cancelled else .failed
            finishedAt := some now.text
            error := some (aborted.getD message) })
        stored.finalValidationAttempts
    updatedAt := now.text }

/-- `src/src/workflows/change-run.ts:916-940`. -/
def interruptStaleRun : OrchestrationRun :=
  { stored with
    state := .reviewed
    finalValidationAttempts :=
      endAttempts (fun _ => true)
        (fun attempt =>
          { attempt with
            state := .interrupted
            finishedAt := some now.text
            error := some "Final validation lifecycle restarted" })
        stored.finalValidationAttempts
    updatedAt := now.text }

/-- `src/src/workflows/change-run.ts:964-985`. -/
def cancelStoredRun : OrchestrationRun :=
  { stored with
    state := .cancelled
    finalValidationAttempts :=
      endAttempts (fun _ => true)
        (fun attempt =>
          { attempt with
            state := .cancelled
            finishedAt := some now.text
            error := some "The run was cancelled" })
        stored.finalValidationAttempts
    updatedAt := now.text }

/-- A run is left alone, or replaced. -/
def leaving (leaves : Bool) (proposed : OrchestrationRun) : Except String Mutated :=
  .ok (if leaves then .unchanged else .proposed proposed)

/-- What each transaction makes of the stored run. -/
def LifecycleWrite.mutate : LifecycleWrite → Except String Mutated
  | approve expectedPlanRevision =>
    Mutated.proposed <$> approveRun now stored expectedPlanRevision
  | fail => .ok (.proposed { stored with state := .failed, updatedAt := now.text })
  | settleStopped cancelled error =>
    leaving (stored.state = .cancelled) (settleStoppedRun now stored cancelled error)
  | settleFailedCancel error =>
    leaving (isSettled stored.state) (settleStoppedRun now stored false error)
  | beginValidation attempt integrationHead =>
    leaving (stored.state = .cancelled) (beginValidationRun now stored attempt integrationHead)
  | settleValidation attemptId aborted evidence mergeReady =>
    leaving (stored.state = .cancelled)
      (settleValidationRun now stored attemptId aborted evidence mergeReady)
  | settleReviewFailure error =>
    leaving (stored.state = .cancelled)
      { stored with state := .failed, error := some error, updatedAt := now.text }
  | settleException attemptId aborted message =>
    leaving (stored.state = .cancelled) (settleExceptionRun now stored attemptId aborted message)
  | interruptStale => leaving (stored.state ≠ .validating) (interruptStaleRun now stored)
  | markExecuting =>
    leaving (stored.state = .cancelled ∨ stored.state = .running ∧ stored.error = none)
      { stored with state := .running, error := none, updatedAt := now.text }
  | cancelStored => leaving (isSettled stored.state) (cancelStoredRun now stored)

end Mutations

/-- The failure path of a launch, the one transaction that does not look at the stored state.
`src/src/workflows/change-run.ts:988-994`. -/
def LifecycleWrite.isFail : LifecycleWrite → Bool
  | fail => true
  | _ => false

/-- A transaction of some process on one run. -/
structure LifecycleCall where
  runId : String
  now : Timestamp
  write : LifecycleWrite

/-- The runners of any number of processes, over the files of a run store. -/
def storedRunLifecycle (sha256Hex : String → String) (localeCompare : LocaleOrder) :
    TransitionSystem RunFiles LifecycleCall where
  initial := (runStoreSystem sha256Hex localeCompare).Reachable
  step := fun files call after =>
    transaction sha256Hex localeCompare files call.runId (call.write.mutate call.now) = .ok after

/-! ## What a transaction keeps -/

/-- What is said of a final validation when it starts stays, and one that ended is final. -/
structure KeepsAttempt (before after : FinalValidationAttempt) : Prop where
  id : after.id = before.id
  number : after.number = before.number
  integrationCommit : after.integrationCommit = before.integrationCommit
  worktreePath : after.worktreePath = before.worktreePath
  startedAt : after.startedAt = before.startedAt
  ended : before.state ≠ .running → after = before

/-- The final validations of a run stay where they are, and only others follow them. -/
def KeepsFinalAttempts (before after : List FinalValidationAttempt) : Prop :=
  ∀ (position : Nat) (attempt : FinalValidationAttempt), before[position]? = some attempt →
    ∃ later, after[position]? = some later ∧ KeepsAttempt attempt later

theorem KeepsAttempt.refl (attempt : FinalValidationAttempt) : KeepsAttempt attempt attempt :=
  ⟨rfl, rfl, rfl, rfl, rfl, fun _ => rfl⟩

theorem KeepsAttempt.trans {first second third : FinalValidationAttempt}
    (h : KeepsAttempt first second) (h' : KeepsAttempt second third) : KeepsAttempt first third where
  id := h'.id.trans h.id
  number := h'.number.trans h.number
  integrationCommit := h'.integrationCommit.trans h.integrationCommit
  worktreePath := h'.worktreePath.trans h.worktreePath
  startedAt := h'.startedAt.trans h.startedAt
  ended := by
    intro hended
    have hsame := h.ended hended
    rw [← hsame] at hended
    exact (h'.ended hended).trans hsame

theorem KeepsFinalAttempts.refl (attempts : List FinalValidationAttempt) :
    KeepsFinalAttempts attempts attempts :=
  fun _ attempt hattempt => ⟨attempt, hattempt, KeepsAttempt.refl attempt⟩

theorem KeepsFinalAttempts.trans {first second third : List FinalValidationAttempt}
    (h : KeepsFinalAttempts first second) (h' : KeepsFinalAttempts second third) :
    KeepsFinalAttempts first third := by
  intro position attempt hattempt
  obtain ⟨middle, hmiddle, hfirst⟩ := h position attempt hattempt
  obtain ⟨last, hlast, hsecond⟩ := h' position middle hmiddle
  exact ⟨last, hlast, hfirst.trans hsecond⟩

private theorem keepsFinalAttempts_append (attempts : List FinalValidationAttempt)
    (added : FinalValidationAttempt) : KeepsFinalAttempts attempts (attempts ++ [added]) := by
  intro position attempt hattempt
  obtain ⟨hposition, -⟩ := List.getElem?_eq_some_iff.mp hattempt
  refine ⟨attempt, ?_, KeepsAttempt.refl attempt⟩
  rw [List.getElem?_append_left hposition]
  exact hattempt

private theorem endAttempts_kept {selects : FinalValidationAttempt → Bool}
    {ended : FinalValidationAttempt → FinalValidationAttempt}
    (hended : ∀ attempt, attempt.state = .running → KeepsAttempt attempt (ended attempt))
    (attempts : List FinalValidationAttempt) :
    KeepsFinalAttempts attempts (endAttempts selects ended attempts) := by
  intro position attempt hattempt
  unfold endAttempts
  rw [List.getElem?_map, hattempt, Option.map_some]
  refine ⟨_, rfl, ?_⟩
  split
  · next hselected =>
    rw [Bool.and_eq_true, decide_eq_true_eq] at hselected
    exact hended attempt hselected.2
  · exact KeepsAttempt.refl attempt

private theorem leaving_proposed {leaves : Bool} {run proposed : OrchestrationRun}
    (h : leaving leaves run = .ok (.proposed proposed)) : leaves = false ∧ proposed = run := by
  unfold leaving at h
  cases leaves with
  | false =>
    cases h
    exact ⟨rfl, rfl⟩
  | true => cases h

section Mutations

variable {now : Timestamp} {stored proposed : OrchestrationRun} {write : LifecycleWrite}

private theorem approveRun_ok {expectedPlanRevision : Nat}
    (h : approveRun now stored expectedPlanRevision = .ok proposed) :
    stored.state = .awaitingApproval ∧
      proposed.finalValidationAttempts = stored.finalValidationAttempts := by
  unfold approveRun at h
  rw [seq_ok_iff, ensure_ok_iff, seq_ok_iff] at h
  obtain ⟨hstate, -, h⟩ := h
  cases h
  exact ⟨hstate, rfl⟩

/-- No transaction rewrites a final validation that ended. -/
theorem LifecycleWrite.keepsFinalAttempts
    (h : write.mutate now stored = .ok (.proposed proposed)) :
    KeepsFinalAttempts stored.finalValidationAttempts proposed.finalValidationAttempts := by
  cases write with
  | approve expectedPlanRevision =>
    unfold LifecycleWrite.mutate at h
    rw [map_ok_iff] at h
    obtain ⟨approved, happroved, heq⟩ := h
    cases heq
    rw [(approveRun_ok happroved).2]
    exact KeepsFinalAttempts.refl _
  | fail =>
    cases h
    exact KeepsFinalAttempts.refl _
  | settleStopped cancelled error =>
    rw [(leaving_proposed h).2]
    exact KeepsFinalAttempts.refl _
  | settleFailedCancel error =>
    rw [(leaving_proposed h).2]
    exact KeepsFinalAttempts.refl _
  | beginValidation attempt integrationHead =>
    rw [(leaving_proposed h).2]
    exact keepsFinalAttempts_append _ attempt
  | settleValidation attemptId aborted evidence mergeReady =>
    rw [(leaving_proposed h).2]
    apply endAttempts_kept
    intro attempt hrunning
    exact ⟨rfl, rfl, rfl, rfl, rfl, absurd hrunning⟩
  | settleReviewFailure error =>
    rw [(leaving_proposed h).2]
    exact KeepsFinalAttempts.refl _
  | settleException attemptId aborted message =>
    rw [(leaving_proposed h).2]
    apply endAttempts_kept
    intro attempt hrunning
    exact ⟨rfl, rfl, rfl, rfl, rfl, absurd hrunning⟩
  | interruptStale =>
    rw [(leaving_proposed h).2]
    apply endAttempts_kept
    intro attempt hrunning
    exact ⟨rfl, rfl, rfl, rfl, rfl, absurd hrunning⟩
  | markExecuting =>
    rw [(leaving_proposed h).2]
    exact KeepsFinalAttempts.refl _
  | cancelStored =>
    rw [(leaving_proposed h).2]
    apply endAttempts_kept
    intro attempt hrunning
    exact ⟨rfl, rfl, rfl, rfl, rfl, absurd hrunning⟩

/-- Every transaction but the failure path of a launch leaves a cancelled run alone. -/
theorem LifecycleWrite.leaves_cancelled (hfail : write.isFail = false)
    (hcancelled : stored.state = .cancelled) :
    write.mutate now stored ≠ .ok (.proposed proposed) := by
  intro h
  cases write with
  | approve expectedPlanRevision =>
    unfold LifecycleWrite.mutate at h
    rw [map_ok_iff] at h
    obtain ⟨approved, happroved, -⟩ := h
    rw [(approveRun_ok happroved).1] at hcancelled
    cases hcancelled
  | fail => cases hfail
  | interruptStale =>
    have hstays := (leaving_proposed h).1
    rw [hcancelled] at hstays
    cases hstays
  | _ =>
    have hstays := (leaving_proposed h).1
    simp [hcancelled, isSettled] at hstays

end Mutations

/-! ## Runs of the lifecycle -/

section Runs

variable {sha256Hex : String → String} {localeCompare : LocaleOrder}

/-- A transaction leaves the files, or replaces one accepted run by another. -/
theorem transaction_cases {files after : RunFiles} {runId : String}
    {mutate : OrchestrationRun → Except String Mutated}
    (hfiles : FilesAccepted sha256Hex localeCompare files)
    (h : transaction sha256Hex localeCompare files runId mutate = .ok after) :
    after = files ∨ ∃ current proposed, files runId = some current ∧
      mutate current = .ok (.proposed proposed) ∧
      after = Function.update files runId
        (some { proposed with revision := current.revision + 1 }) := by
  unfold transaction at h
  rw [bind_ok_iff] at h
  obtain ⟨current, hread, h⟩ := h
  rw [bind_ok_iff] at h
  obtain ⟨mutated, hmutated, h⟩ := h
  obtain ⟨hstored, -⟩ := readValidated_ok hread
  cases mutated with
  | unchanged =>
    cases h
    exact Or.inl rfl
  | proposed proposed =>
    unfold storeProposed at h
    rw [seq_ok_iff, ensure_ok_iff, seq_ok_iff, bind_ok_iff] at h
    obtain ⟨hid, -, updated, hupdated, h⟩ := h
    rw [validateStoredRun_ok_iff] at hupdated
    obtain ⟨rfl, -⟩ := hupdated
    rw [writeAtomic_ok_iff] at h
    refine Or.inr ⟨current, proposed, hstored, hmutated, ?_⟩
    rw [h.2]
    show Function.update files proposed.id _ = _
    rw [hid, (hfiles runId current hstored).1]

private theorem runs_of_lifecycle {files later : RunFiles}
    (h : (storedRunLifecycle sha256Hex localeCompare).Runs files later) :
    (runStoreSystem sha256Hex localeCompare).Runs files later := by
  induction h with
  | refl => exact .refl _
  | @snoc _ _ call _ hstep ih =>
    exact @TransitionSystem.Runs.snoc _ _ _ _ _ _
      (RunWrite.transaction call.runId (call.write.mutate call.now)) ih hstep

theorem reachable_of_lifecycle {files : RunFiles}
    (h : (storedRunLifecycle sha256Hex localeCompare).Reachable files) :
    (runStoreSystem sha256Hex localeCompare).Reachable files := by
  obtain ⟨start, hstart, hruns⟩ := h
  exact TransitionSystem.Reachable.runs hstart (runs_of_lifecycle hruns)

/-- What the state of an accepted run says: it is validating while one final validation runs, it is
completed behind one that passed at the head of its merge-ready evidence, and nothing is offered for
a merge once it failed or was cancelled. -/
structure StatesLifecycle (run : OrchestrationRun) : Prop where
  validating : run.state = .validating ↔ (runningFinalAttempts run).length = 1
  completed : run.state = .completed → ∃ evidence attempt proof plan,
    run.mergeReadyEvidence = some evidence ∧ evidence.integrationHead = run.integrationHead ∧
    attempt ∈ run.finalValidationAttempts ∧ attempt.state = .succeeded ∧
    attempt.integrationCommit = run.integrationHead ∧ attempt.evidence = some proof ∧
    proof.passed = true ∧ evidence.finalChecks = proof.checks ∧
    validateTaskPlan run.plan.toJson = .ok plan ∧
    provesCommands plan.finalValidationCommands proof.checks = true
  unsuccessful : run.state = .failed ∨ run.state = .cancelled → run.mergeReadyEvidence = none

/-- What the check of a final validation reads of it. -/
structure CheckedFinal (commands : List ValidationCommand) (before : List FinalValidationAttempt)
    (attempt : FinalValidationAttempt) : Prop where
  id : attempt.id ≠ ""
  integrationCommit : attempt.integrationCommit ≠ ""
  worktreePath : attempt.worktreePath ≠ ""
  startedAt : attempt.startedAt ≠ ""
  number : attempt.number = before.length + 1
  finishedAt : attempt.finishedAt ≠ some ""
  error : attempt.error ≠ some ""
  evidence : ∀ proof ∈ attempt.evidence,
    validateFinalEvidence proof s!"run.finalValidationAttempts[{before.length}]" = .ok ()
  succeeded : attempt.state = .succeeded → attempt.finishedAt ≠ none ∧
    ∃ proof, attempt.evidence = some proof ∧ proof.passed = true ∧
      provesCommands commands proof.checks = true
  fresh : attempt.id ∉ before.map (·.id)

theorem validateFinalAttempt_ok_iff {commands : List ValidationCommand}
    {before : List FinalValidationAttempt} {attempt : FinalValidationAttempt} :
    validateFinalAttempt commands before attempt = .ok () ↔ CheckedFinal commands before attempt := by
  unfold validateFinalAttempt
  cases hproof : attempt.evidence with
  | none =>
    by_cases hstate : attempt.state = .succeeded
    · simp only [hstate, if_true, seq_ok_iff, Storage.assertString, Storage.assertOptionalString,
        assertPresent, ensure_ok_iff]
      constructor
      · rintro ⟨-, -, -, -, -, -, -, -, hpassed, -⟩
        cases hpassed
      · intro h
        obtain ⟨-, proof, hsome, -⟩ := h.succeeded hstate
        rw [hproof] at hsome
        cases hsome
    · simp only [hstate, if_false, seq_ok_iff, Storage.assertString, Storage.assertOptionalString,
        ensure_ok_iff]
      constructor
      · rintro ⟨hid, hcommit, hpath, hstarted, hnumber, hfinished, herror, hfresh⟩
        refine ⟨hid, hcommit, hpath, hstarted, hnumber, hfinished, herror, ?_,
          fun h => absurd h hstate, hfresh⟩
        intro proof hsome
        rw [hproof] at hsome
        cases hsome
      · intro h
        exact ⟨h.id, h.integrationCommit, h.worktreePath, h.startedAt, h.number, h.finishedAt, h.error,
          h.fresh⟩
  | some proof =>
    by_cases hstate : attempt.state = .succeeded
    · simp only [hstate, if_true, seq_ok_iff, Storage.assertString, Storage.assertOptionalString,
        assertPresent, ensure_ok_iff, Option.map_some, Option.any_some, Option.some.injEq]
      constructor
      · rintro ⟨hid, hcommit, hpath, hstarted, hnumber, hfinished, herror, hchecked, hends, hpassed,
          hproves, hfresh⟩
        refine ⟨hid, hcommit, hpath, hstarted, hnumber, hfinished, herror, ?_,
          fun _ => ⟨hends.1, proof, hproof, hpassed, hproves⟩, hfresh⟩
        intro found hfound
        rw [hproof] at hfound
        cases hfound
        exact hchecked
      · intro h
        obtain ⟨hends, found, hfound, hpassed, hproves⟩ := h.succeeded hstate
        rw [hproof] at hfound
        cases hfound
        exact ⟨h.id, h.integrationCommit, h.worktreePath, h.startedAt, h.number, h.finishedAt, h.error,
          h.evidence proof hproof, ⟨hends, h.finishedAt⟩, hpassed, hproves, h.fresh⟩
    · simp only [hstate, if_false, seq_ok_iff, Storage.assertString, Storage.assertOptionalString,
        ensure_ok_iff]
      constructor
      · rintro ⟨hid, hcommit, hpath, hstarted, hnumber, hfinished, herror, hchecked, hfresh⟩
        refine ⟨hid, hcommit, hpath, hstarted, hnumber, hfinished, herror, ?_,
          fun h => absurd h hstate, hfresh⟩
        intro found hfound
        rw [hproof] at hfound
        cases hfound
        exact hchecked
      · intro h
        exact ⟨h.id, h.integrationCommit, h.worktreePath, h.startedAt, h.number, h.finishedAt, h.error,
          h.evidence proof hproof, h.fresh⟩

private theorem succeeded_attempt {run : OrchestrationRun} {plan : TaskPlan}
    (h : validateFinalAttempts run plan = .ok ()) {attempt : FinalValidationAttempt}
    (hmem : attempt ∈ run.finalValidationAttempts) (hsucceeded : attempt.state = .succeeded) :
    ∃ proof, attempt.evidence = some proof ∧ proof.passed = true ∧
      provesCommands plan.finalValidationCommands proof.checks = true := by
  unfold validateFinalAttempts at h
  rw [seq_ok_iff, forEachAfter_ok_iff] at h
  obtain ⟨before, after, hsplit⟩ := List.append_of_mem hmem
  have hchecked := validateFinalAttempt_ok_iff.mp (h.1 before attempt after hsplit)
  exact (hchecked.succeeded hsucceeded).2

private theorem finalChecks_proved {run : OrchestrationRun} {order : List String}
    {evidence : MergeReadyEvidence} (hevidence : run.mergeReadyEvidence = some evidence)
    (h : validateMergeReady localeCompare run order = .ok ()) :
    evidence.integrationHead = run.integrationHead ∧
      ((successfulValidation run).bind (·.evidence)).map (·.checks) = some evidence.finalChecks := by
  unfold validateMergeReady at h
  rw [hevidence] at h
  cases hrecord : executionRecord run with
  | legacy =>
    simp only [hrecord, seq_ok_iff, ensure_ok_iff] at h
    obtain ⟨hrefs, -, -, -, -, -, hchecks⟩ := h
    unfold validateEvidenceRefs at hrefs
    simp only [seq_ok_iff, ensure_ok_iff] at hrefs
    exact ⟨hrefs.2.2.2.2.2.2.2.2.1, hchecks⟩
  | engine =>
    simp only [hrecord, seq_ok_iff, ensure_ok_iff] at h
    obtain ⟨hrefs, -, -, -, -, hchecks⟩ := h
    unfold validateEvidenceRefs at hrefs
    simp only [seq_ok_iff, ensure_ok_iff] at hrefs
    exact ⟨hrefs.2.2.2.2.2.2.2.2.1, hchecks⟩

theorem statesLifecycle_of_accepts {run : OrchestrationRun}
    (h : AcceptsRun sha256Hex localeCompare run) : StatesLifecycle run := by
  obtain ⟨plan, order, haccepted⟩ := acceptsRun_iff.mp h
  have hrecords := haccepted.records
  unfold validateRecords at hrecords
  simp only [seq_ok_iff] at hrecords
  obtain ⟨-, -, -, -, -, -, -, -, -, -, -, -, -, hfinals, hmerge, hsettled, -⟩ := hrecords
  have hvalidating := hfinals
  unfold validateFinalAttempts at hvalidating
  rw [seq_ok_iff, seq_ok_iff, ensure_ok_iff, ensure_ok_iff] at hvalidating
  unfold validateSettledState at hsettled
  rw [seq_ok_iff, ensure_ok_iff, ensure_ok_iff] at hsettled
  refine ⟨hvalidating.2.2, ?_, hsettled.2⟩
  intro hcompleted
  obtain ⟨-, hevidence⟩ := hsettled.1 hcompleted
  obtain ⟨evidence, hevidence⟩ := Option.ne_none_iff_exists'.mp hevidence
  obtain ⟨hhead, hchecks⟩ := finalChecks_proved hevidence hmerge
  rw [Option.map_eq_some_iff] at hchecks
  obtain ⟨proof, hproof, hchecks⟩ := hchecks
  rw [Option.bind_eq_some_iff] at hproof
  obtain ⟨attempt, hattempt, hproof⟩ := hproof
  unfold successfulValidation at hattempt
  have hmem := List.mem_of_find?_eq_some hattempt
  have hfound := List.find?_some hattempt
  rw [List.mem_reverse] at hmem
  rw [decide_eq_true_eq] at hfound
  obtain ⟨found, hfoundProof, hpassed, hproves⟩ := succeeded_attempt hfinals hmem hfound.1
  rw [hproof] at hfoundProof
  cases hfoundProof
  exact ⟨evidence, attempt, proof, plan, hevidence, hhead, hmem, hfound.1, hfound.2, hproof,
    hpassed, hchecks.symm, haccepted.read, hproves⟩

private theorem lifecycle_step_keeps {files after : RunFiles} {call : LifecycleCall}
    (hfiles : FilesAccepted sha256Hex localeCompare files)
    (hstep : (storedRunLifecycle sha256Hex localeCompare).step files call after) {id : String}
    {run : OrchestrationRun} (hrun : files id = some run) :
    ∃ next, after id = some next ∧
      KeepsFinalAttempts run.finalValidationAttempts next.finalValidationAttempts := by
  rcases transaction_cases hfiles hstep with rfl | ⟨current, proposed, hcurrent, hmutated, rfl⟩
  · exact ⟨run, hrun, KeepsFinalAttempts.refl _⟩
  · by_cases hid : id = call.runId
    · rw [hid, hcurrent, Option.some.injEq] at hrun
      rw [hid, Function.update_self, ← hrun]
      have hkeeps := LifecycleWrite.keepsFinalAttempts hmutated
      exact ⟨_, rfl, hkeeps⟩
    · rw [Function.update_of_ne hid]
      exact ⟨run, hrun, KeepsFinalAttempts.refl _⟩

private theorem lifecycle_step_leaves {files after : RunFiles} {call : LifecycleCall}
    (hfiles : FilesAccepted sha256Hex localeCompare files) (hfail : call.write.isFail = false)
    (hstep : (storedRunLifecycle sha256Hex localeCompare).step files call after) {id : String}
    {run : OrchestrationRun} (hrun : files id = some run) (hcancelled : run.state = .cancelled) :
    after id = some run := by
  rcases transaction_cases hfiles hstep with rfl | ⟨current, proposed, hcurrent, hmutated, rfl⟩
  · exact hrun
  · by_cases hid : id = call.runId
    · rw [hid, hcurrent, Option.some.injEq] at hrun
      rw [← hrun] at hcancelled
      exact absurd hmutated (LifecycleWrite.leaves_cancelled hfail hcancelled)
    · rw [Function.update_of_ne hid]
      exact hrun

end Runs

/-- Whatever the processes of a run do, its final validations stay where they are and are not
rewritten once they ended, and its state says what its records prove. Once it is cancelled it stays
exactly as it is, unless the failure path of a launch overwrites it. -/
theorem stored_lifecycle_kept {sha256Hex : String → String} {localeCompare : LocaleOrder}
    {files : RunFiles} (hreachable : (storedRunLifecycle sha256Hex localeCompare).Reachable files)
    {id : String} {run : OrchestrationRun} (hrun : files id = some run) :
    (∀ later, (storedRunLifecycle sha256Hex localeCompare).Runs files later →
      ∃ next, later id = some next ∧
        KeepsFinalAttempts run.finalValidationAttempts next.finalValidationAttempts ∧
        StatesLifecycle next) ∧
    (run.state = .cancelled → ∀ later,
      ((storedRunLifecycle sha256Hex localeCompare).restrict
        fun _ call => call.write.isFail = false).Runs files later → later id = some run) := by
  constructor
  · intro later hruns
    have haccepted := filesAccepted_reachable
      (reachable_of_lifecycle (TransitionSystem.Reachable.runs hreachable hruns))
    have hkept : ∃ next, later id = some next ∧
        KeepsFinalAttempts run.finalValidationAttempts next.finalValidationAttempts := by
      clear haccepted
      induction hruns with
      | refl => exact ⟨run, hrun, KeepsFinalAttempts.refl _⟩
      | snoc hruns hstep ih =>
        obtain ⟨next, hnext, hkeeps⟩ := ih
        have hbetween := filesAccepted_reachable
          (reachable_of_lifecycle (TransitionSystem.Reachable.runs hreachable hruns))
        exact (lifecycle_step_keeps hbetween hstep hnext).imp fun last hlast =>
          ⟨hlast.1, hkeeps.trans hlast.2⟩
    obtain ⟨next, hnext, hkeeps⟩ := hkept
    exact ⟨next, hnext, hkeeps, statesLifecycle_of_accepts (haccepted id next hnext).2⟩
  · intro hcancelled later hruns
    have hunrestricted : ∀ later, ((storedRunLifecycle sha256Hex localeCompare).restrict
        fun _ call => call.write.isFail = false).Runs files later →
          (storedRunLifecycle sha256Hex localeCompare).Runs files later := by
      intro later hruns
      induction hruns with
      | refl => exact .refl _
      | snoc _ hstep ih => exact .snoc ih hstep.2
    induction hruns with
    | refl => exact hrun
    | snoc hruns hstep ih =>
      have hbetween := filesAccepted_reachable (reachable_of_lifecycle
        (TransitionSystem.Reachable.runs hreachable (hunrestricted _ hruns)))
      exact lifecycle_step_leaves hbetween hstep.1 hstep.2 ih hcancelled

/-! ## Writes that end a run -/

/-- A transaction that ends what is under way, or starts it again, with texts that are not empty and
evidence that passes its own check. -/
def LifecycleWrite.Ends : LifecycleWrite → Prop
  | approve _ => False
  | beginValidation _ _ => False
  | settleValidation _ aborted evidence mergeReady =>
    (aborted = none → mergeReady = none) ∧ aborted ≠ some "" ∧
      ∀ proof ∈ evidence, ∀ path, validateFinalEvidence proof path = .ok ()
  | settleReviewFailure error => error ≠ ""
  | settleException _ aborted message => aborted ≠ some "" ∧ message ≠ ""
  | _ => True

/-- Whether a transaction ends the final validation of an id, when that one runs. -/
def LifecycleWrite.endsAttempt : LifecycleWrite → String → Bool
  | settleValidation attemptId _ _ _, id => id = attemptId
  | settleException attemptId _ _, id => id = attemptId
  | interruptStale, _ => true
  | cancelStored, _ => true
  | _, _ => false

/-- The fields such a transaction writes, and what it may write there. -/
structure EndedRun (stored proposed : OrchestrationRun) : Prop where
  fields : ∃ state finals error updatedAt,
    proposed = { stored with state, finalValidationAttempts := finals, error, updatedAt }
  state : proposed.state = .running ∨ proposed.state = .reviewed ∨ proposed.state = .failed ∨
    proposed.state = .cancelled
  error : stored.error ≠ some "" → proposed.error ≠ some ""
  updatedAt : proposed.updatedAt ≠ ""
  finals : ∀ commands,
    forEachAfter (validateFinalAttempt commands) [] stored.finalValidationAttempts = .ok () →
      forEachAfter (validateFinalAttempt commands) [] proposed.finalValidationAttempts = .ok ()

/-- How a running attempt may end: it succeeds only with evidence of every command. -/
structure EndedAttempt (commands : List ValidationCommand) (before after : FinalValidationAttempt) :
    Prop where
  keeps : KeepsAttempt before after
  succeeded : after.state = .succeeded → after.finishedAt ≠ none ∧
    ∃ proof, after.evidence = some proof ∧ proof.passed = true ∧
      provesCommands commands proof.checks = true
  finishedAt : after.finishedAt ≠ some ""
  error : before.error ≠ some "" → after.error ≠ some ""
  evidence : ∀ proof ∈ after.evidence, before.evidence = some proof ∨
    ∀ path, validateFinalEvidence proof path = .ok ()

section Ending

private theorem CheckedFinal.ended {commands : List ValidationCommand}
    {before before' : List FinalValidationAttempt} {attempt ended : FinalValidationAttempt}
    (h : CheckedFinal commands before attempt) (hids : before'.map (·.id) = before.map (·.id))
    (hended : EndedAttempt commands attempt ended) : CheckedFinal commands before' ended := by
  have hlength : before'.length = before.length := by
    have hsame := congrArg List.length hids
    rwa [List.length_map, List.length_map] at hsame
  have hkeeps := hended.keeps
  refine ⟨?_, ?_, ?_, ?_, ?_, hended.finishedAt, hended.error h.error, ?_, hended.succeeded, ?_⟩
  · rw [hkeeps.id]
    exact h.id
  · rw [hkeeps.integrationCommit]
    exact h.integrationCommit
  · rw [hkeeps.worktreePath]
    exact h.worktreePath
  · rw [hkeeps.startedAt]
    exact h.startedAt
  · rw [hkeeps.number, hlength]
    exact h.number
  · intro proof hproof
    rw [hlength]
    rcases hended.evidence proof hproof with hkept | hchecked
    · exact h.evidence proof hkept
    · exact hchecked _
  · rw [hids, hkeeps.id]
    exact h.fresh

/-- Ending attempts keeps the list checked. -/
theorem endAttempts_checked {commands : List ValidationCommand}
    {selects : FinalValidationAttempt → Bool}
    {ended : FinalValidationAttempt → FinalValidationAttempt}
    (hended : ∀ attempt, attempt.state = .running → EndedAttempt commands attempt (ended attempt))
    {attempts : List FinalValidationAttempt}
    (h : forEachAfter (validateFinalAttempt commands) [] attempts = .ok ()) :
    forEachAfter (validateFinalAttempt commands) [] (endAttempts selects ended attempts) = .ok () := by
  unfold endAttempts
  apply forEachAfter_map _ h
  intro before attempt _ hcheck
  have hids : (before.map fun attempt =>
      if selects attempt && attempt.state = .running then ended attempt else attempt).map (·.id) =
        before.map (·.id) := by
    rw [List.map_map]
    apply List.map_congr_left
    intro other _
    dsimp only [Function.comp_apply]
    split
    · next hselected =>
      rw [Bool.and_eq_true, decide_eq_true_eq] at hselected
      exact (hended other hselected.2).keeps.id
    · rfl
  split
  · next hselected =>
    rw [Bool.and_eq_true, decide_eq_true_eq] at hselected
    rw [validateFinalAttempt_ok_iff] at hcheck ⊢
    exact hcheck.ended hids (hended attempt hselected.2)
  · unfold validateFinalAttempt at hcheck ⊢
    rw [hids, List.length_map]
    exact hcheck

private theorem overriding_ne_empty {stored error : Option String} (h : stored ≠ some "") :
    overriding stored error ≠ some "" := by
  unfold overriding present
  cases error with
  | none => exact h
  | some text =>
    by_cases htext : text = ""
    · simpa [htext] using h
    · simp [htext]

variable {now : Timestamp} {stored proposed : OrchestrationRun} {write : LifecycleWrite}

private theorem endedRun_of_texts (h : proposed.finalValidationAttempts = stored.finalValidationAttempts)
    (hfields : ∃ state finals error updatedAt,
      proposed = { stored with state, finalValidationAttempts := finals, error, updatedAt })
    (hstate : proposed.state = .running ∨ proposed.state = .reviewed ∨ proposed.state = .failed ∨
      proposed.state = .cancelled)
    (herror : stored.error ≠ some "" → proposed.error ≠ some "") (hupdated : proposed.updatedAt ≠ "") :
    EndedRun stored proposed := by
  refine ⟨hfields, hstate, herror, hupdated, ?_⟩
  intro commands hchecked
  rw [h]
  exact hchecked

/-- What an ending transaction proposes. -/
theorem LifecycleWrite.endedRun (hends : write.Ends)
    (h : write.mutate now stored = .ok (.proposed proposed)) : EndedRun stored proposed := by
  have hnow := now.nonempty
  cases write with
  | approve expectedPlanRevision => exact hends.elim
  | beginValidation attempt integrationHead => exact hends.elim
  | fail =>
    cases h
    exact endedRun_of_texts rfl ⟨_, _, _, _, rfl⟩ (by simp) id hnow
  | settleStopped cancelled error =>
    rw [(leaving_proposed h).2]
    refine endedRun_of_texts rfl ⟨_, _, _, _, rfl⟩ ?_ overriding_ne_empty hnow
    cases cancelled with
    | false => exact Or.inr (Or.inr (Or.inl rfl))
    | true => exact Or.inr (Or.inr (Or.inr rfl))
  | settleFailedCancel error =>
    rw [(leaving_proposed h).2]
    exact endedRun_of_texts rfl ⟨_, _, _, _, rfl⟩ (Or.inr (Or.inr (Or.inl rfl))) overriding_ne_empty
      hnow
  | settleReviewFailure error =>
    rw [(leaving_proposed h).2]
    refine endedRun_of_texts rfl ⟨_, _, _, _, rfl⟩ (Or.inr (Or.inr (Or.inl rfl))) ?_ hnow
    intro _ hempty
    exact hends (Option.some.inj hempty)
  | markExecuting =>
    rw [(leaving_proposed h).2]
    exact endedRun_of_texts rfl ⟨_, _, _, _, rfl⟩ (Or.inl rfl) (fun _ => nofun) hnow
  | settleValidation attemptId aborted evidence mergeReady =>
    obtain ⟨hmerge, haborted, hevidence⟩ := hends
    rw [(leaving_proposed h).2]
    cases aborted with
    | none =>
      rw [hmerge rfl]
      refine ⟨⟨_, _, _, _, rfl⟩, Or.inr (Or.inr (Or.inl rfl)), fun _ => by simp [settleValidationRun],
        hnow, fun commands hchecked => ?_⟩
      apply endAttempts_checked _ hchecked
      intro attempt hrunning
      refine ⟨⟨rfl, rfl, rfl, rfl, rfl, absurd hrunning⟩, nofun, fun hempty => hnow (Option.some.inj hempty),
        id, ?_⟩
      intro proof hproof
      cases evidence with
      | none => exact Or.inl hproof
      | some found =>
        cases hproof
        exact Or.inr (hevidence _ rfl)
    | some reason =>
      refine ⟨⟨_, _, _, _, rfl⟩, Or.inr (Or.inr (Or.inr rfl)), id, hnow, fun commands hchecked => ?_⟩
      apply endAttempts_checked _ hchecked
      intro attempt hrunning
      refine ⟨⟨rfl, rfl, rfl, rfl, rfl, absurd hrunning⟩, nofun, fun hempty => hnow (Option.some.inj hempty),
        fun _ => haborted, ?_⟩
      intro proof hproof
      cases evidence with
      | none => exact Or.inl hproof
      | some found =>
        cases hproof
        exact Or.inr (hevidence _ rfl)
  | settleException attemptId aborted message =>
    obtain ⟨haborted, hmessage⟩ := hends
    rw [(leaving_proposed h).2]
    cases aborted with
    | none =>
      refine ⟨⟨_, _, _, _, rfl⟩, Or.inr (Or.inr (Or.inl rfl)), id, hnow, fun commands hchecked => ?_⟩
      apply endAttempts_checked _ hchecked
      intro attempt hrunning
      exact ⟨⟨rfl, rfl, rfl, rfl, rfl, absurd hrunning⟩, nofun, fun hempty => hnow (Option.some.inj hempty),
        fun _ hempty => hmessage (Option.some.inj hempty), fun proof hproof => Or.inl hproof⟩
    | some reason =>
      refine ⟨⟨_, _, _, _, rfl⟩, Or.inr (Or.inr (Or.inr rfl)), id, hnow, fun commands hchecked => ?_⟩
      apply endAttempts_checked _ hchecked
      intro attempt hrunning
      exact ⟨⟨rfl, rfl, rfl, rfl, rfl, absurd hrunning⟩, nofun, fun hempty => hnow (Option.some.inj hempty),
        fun _ => haborted, fun proof hproof => Or.inl hproof⟩
  | interruptStale =>
    rw [(leaving_proposed h).2]
    refine ⟨⟨_, _, _, _, rfl⟩, Or.inr (Or.inl rfl), id, hnow, fun commands hchecked => ?_⟩
    apply endAttempts_checked _ hchecked
    intro attempt hrunning
    exact ⟨⟨rfl, rfl, rfl, rfl, rfl, absurd hrunning⟩, nofun, fun hempty => hnow (Option.some.inj hempty),
      fun _ => by simp, fun proof hproof => Or.inl hproof⟩
  | cancelStored =>
    rw [(leaving_proposed h).2]
    refine ⟨⟨_, _, _, _, rfl⟩, Or.inr (Or.inr (Or.inr rfl)), id, hnow, fun commands hchecked => ?_⟩
    apply endAttempts_checked _ hchecked
    intro attempt hrunning
    exact ⟨⟨rfl, rfl, rfl, rfl, rfl, absurd hrunning⟩, nofun, fun hempty => hnow (Option.some.inj hempty),
      fun _ => by simp, fun proof hproof => Or.inl hproof⟩

/-- Only an attempt the transaction ends stops running. -/
theorem runningFinalAttempts_of_endAttempts {selects : FinalValidationAttempt → Bool}
    {ended : FinalValidationAttempt → FinalValidationAttempt}
    (hended : ∀ attempt, (ended attempt).state ≠ .running)
    (hfinals : proposed.finalValidationAttempts =
      endAttempts selects ended stored.finalValidationAttempts) :
    runningFinalAttempts proposed = [] ↔ ∀ attempt ∈ stored.finalValidationAttempts,
      attempt.state = .running → selects attempt = true := by
  unfold runningFinalAttempts endAttempts at *
  rw [hfinals, List.filter_eq_nil_iff, List.forall_mem_map]
  apply forall₂_congr
  intro attempt _
  rw [decide_eq_true_eq]
  by_cases hrunning : attempt.state = .running
  · by_cases hselected : selects attempt = true
    · simp [hrunning, hselected, hended attempt]
    · simp [hrunning, hselected]
  · simp [hrunning]

private theorem runningFinalAttempts_of_same
    (hfinals : proposed.finalValidationAttempts = stored.finalValidationAttempts) :
    runningFinalAttempts proposed = [] ↔ ∀ attempt ∈ stored.finalValidationAttempts,
      attempt.state = .running → false = true := by
  unfold runningFinalAttempts
  rw [hfinals, List.filter_eq_nil_iff]
  apply forall₂_congr
  intro attempt _
  simp

/-- What an ending transaction leaves running. -/
theorem LifecycleWrite.running_of_ends (hends : write.Ends)
    (h : write.mutate now stored = .ok (.proposed proposed)) :
    runningFinalAttempts proposed = [] ↔ ∀ attempt ∈ stored.finalValidationAttempts,
      attempt.state = .running → write.endsAttempt attempt.id = true := by
  cases write with
  | approve expectedPlanRevision => exact hends.elim
  | beginValidation attempt integrationHead => exact hends.elim
  | fail =>
    cases h
    exact runningFinalAttempts_of_same rfl
  | settleStopped cancelled error =>
    rw [(leaving_proposed h).2]
    exact runningFinalAttempts_of_same rfl
  | settleFailedCancel error =>
    rw [(leaving_proposed h).2]
    exact runningFinalAttempts_of_same rfl
  | settleReviewFailure error =>
    rw [(leaving_proposed h).2]
    exact runningFinalAttempts_of_same rfl
  | markExecuting =>
    rw [(leaving_proposed h).2]
    exact runningFinalAttempts_of_same rfl
  | settleValidation attemptId aborted evidence mergeReady =>
    rw [(leaving_proposed h).2]
    apply runningFinalAttempts_of_endAttempts _ rfl
    intro attempt
    unfold settledAttempt
    cases aborted <;> cases mergeReady <;> nofun
  | settleException attemptId aborted message =>
    rw [(leaving_proposed h).2]
    apply runningFinalAttempts_of_endAttempts _ rfl
    intro attempt
    cases aborted <;> nofun
  | interruptStale =>
    rw [(leaving_proposed h).2]
    apply runningFinalAttempts_of_endAttempts _ rfl
    intro attempt hrunning
    cases hrunning
  | cancelStored =>
    rw [(leaving_proposed h).2]
    apply runningFinalAttempts_of_endAttempts _ rfl
    intro attempt hrunning
    cases hrunning

variable {sha256Hex : String → String} {localeCompare : LocaleOrder}

private theorem not_validating (hended : EndedRun stored proposed) : proposed.state ≠ .validating := by
  intro hstate
  rcases hended.state with h | h | h | h <;>
    · rw [hstate] at h
      cases h

/-- An approved run of the engine stays accepted when its state, its final validations and its
evidence change together. -/
theorem accepted_settled {plan : TaskPlan} {order : List String} {state : RunState}
    {finals : List FinalValidationAttempt} {evidence : Option MergeReadyEvidence}
    {error : Option String} {updatedAt : String}
    (h : Accepted sha256Hex localeCompare stored plan order)
    (hengine : executionRecord stored = .engine) (happroved : stored.approvedPlanRevision ≠ none)
    (hproposed : proposed = { stored with
      state, finalValidationAttempts := finals, mergeReadyEvidence := evidence, error, updatedAt })
    (hplanned : state ≠ .planning ∧ state ≠ .awaitingApproval) (hupdated : updatedAt ≠ "")
    (herrors : error ≠ some "") (hfinals : validateFinalAttempts proposed plan = .ok ())
    (hmerge : validateMergeReady localeCompare proposed order = .ok ())
    (hsettled : validateSettledState proposed = .ok ()) :
    Accepted sha256Hex localeCompare proposed plan order := by
  subst hproposed
  refine ⟨?_, h.read, h.authority, h.workers, h.history, ?_, h.ordered, ?_⟩
  · have hheader := h.header
    unfold validateHeader at hheader ⊢
    simp only [seq_ok_iff, ensure_ok_iff, Storage.assertString] at hheader ⊢
    obtain ⟨hrevision, hid, hsafe, hpolicy, hroot, hbranch, hbase, hintegration, hcreated, -,
      hrest⟩ := hheader
    exact ⟨hrevision, hid, hsafe, hpolicy, hroot, hbranch, hbase, hintegration, hcreated, hupdated,
      hrest⟩
  · have happroval := h.approval
    unfold validateApproval at happroval ⊢
    simp only [seq_ok_iff, ensure_ok_iff] at happroval ⊢
    obtain ⟨happrovedAt, htogether, hcurrent, -, -⟩ := happroval
    refine ⟨happrovedAt, htogether, hcurrent, fun _ => happroved, ?_⟩
    intro hplanning
    exact absurd hplanning (not_or.mpr hplanned)
  · have hrecords := h.records
    unfold validateRecords at hrecords ⊢
    simp only [seq_ok_iff] at hrecords ⊢
    obtain ⟨htasks, hintegrated, hattempts, hreferences, hhead, -, hreviews, hrepairs, hblocked,
      hintegrationHead, hrounds, hrepaired, -, -, -, -, hactive, -, hrequest⟩ := hrecords
    refine ⟨htasks, hintegrated, hattempts, hreferences, hhead, ?_, hreviews, hrepairs, hblocked,
      hintegrationHead, hrounds, hrepaired, ?_, hfinals, hmerge, hsettled, hactive, ?_, hrequest⟩
    · unfold Storage.assertOptionalString
      rw [ensure_ok_iff]
      exact herrors
    · unfold validateReviewedState
      rw [if_neg]
      · rfl
      · intro hlegacy
        have hrecord := hengine.symm.trans hlegacy.1
        cases hrecord
    · unfold validateUnapproved
      rw [ensure_ok_iff]
      intro hnone
      exact absurd hnone happroved

/-- What the records of an accepted run pass. -/
theorem accepted_finals {run : OrchestrationRun} {plan : TaskPlan} {order : List String}
    (h : Accepted sha256Hex localeCompare run plan order) :
    run.error ≠ some "" ∧ run.integrationHead ≠ "" ∧ validateFinalAttempts run plan = .ok () := by
  have hrecords := h.records
  unfold validateRecords at hrecords
  simp only [seq_ok_iff, Storage.assertOptionalString, Storage.assertString, ensure_ok_iff] at hrecords
  obtain ⟨-, -, -, -, hhead, herror, -, -, -, -, -, -, -, hfinals, -⟩ := hrecords
  exact ⟨herror, hhead, hfinals⟩

/-- An ended run is accepted again, exactly when nothing of it runs on. -/
private theorem accepted_ended_iff {plan : TaskPlan} {order : List String}
    (h : Accepted sha256Hex localeCompare stored plan order) (hended : EndedRun stored proposed)
    (hengine : executionRecord stored = .engine) (happroved : stored.approvedPlanRevision ≠ none)
    (hevidence : stored.mergeReadyEvidence = none) :
    (∃ plan order, Accepted sha256Hex localeCompare proposed plan order) ↔
      runningFinalAttempts proposed = [] := by
  constructor
  · rintro ⟨readPlan, sorted, haccepted⟩
    have hfinals := (accepted_finals haccepted).2.2
    unfold validateFinalAttempts at hfinals
    rw [seq_ok_iff, seq_ok_iff, ensure_ok_iff, ensure_ok_iff] at hfinals
    obtain ⟨-, hsingle, hvalidating⟩ := hfinals
    have hnone : (runningFinalAttempts proposed).length ≠ 1 :=
      fun hone => not_validating hended (hvalidating.mpr hone)
    rw [← List.length_eq_zero_iff]
    omega
  · intro hrunning
    obtain ⟨herror, -, hchecked⟩ := accepted_finals h
    have hstates := hended.state
    have hstopped := not_validating hended
    have herrors := hended.error herror
    have hupdated := hended.updatedAt
    have hfinals := hended.finals
    obtain ⟨state, finals, error, updatedAt, rfl⟩ := hended.fields
    dsimp only at hstates hstopped herrors hupdated hfinals
    refine ⟨plan, order, accepted_settled h hengine happroved rfl ?_ hupdated herrors ?_ ?_ ?_⟩
    · rcases hstates with rfl | rfl | rfl | rfl <;> decide
    · unfold validateFinalAttempts at hchecked ⊢
      rw [seq_ok_iff, seq_ok_iff, ensure_ok_iff, ensure_ok_iff] at hchecked ⊢
      rw [hrunning]
      refine ⟨hfinals _ hchecked.1, by simp, ?_⟩
      exact iff_of_false hstopped (by simp)
    · unfold validateMergeReady
      rw [hevidence]
      rfl
    · unfold validateSettledState
      rw [seq_ok_iff, ensure_ok_iff, ensure_ok_iff]
      refine ⟨?_, fun _ => hevidence⟩
      intro hcompleted
      rcases hstates with rfl | rfl | rfl | rfl <;> cases hcompleted

/-- A run whose state, final validations and evidence change keeps its history. -/
theorem transition_settled {state : RunState} {finals : List FinalValidationAttempt}
    {evidence : Option MergeReadyEvidence} {error : Option String} {updatedAt : String}
    (hproposed : proposed = { stored with
      state, finalValidationAttempts := finals, mergeReadyEvidence := evidence, error, updatedAt }) :
    assertPlanHistoryTransition stored proposed = .ok () := by
  subst hproposed
  unfold assertPlanHistoryTransition
  simp only [seq_ok_iff, ensure_ok_iff, forM_ok_iff, assertRunAuthorityTransition_ok_iff, and_self,
    implies_true, and_true, true_and, le_refl]
  refine ⟨KeepsAuthority.refl _ _, ?_⟩
  intro entry hentry
  exact List.mem_zipIdx_iff_getElem?.mp hentry

private theorem EndedRun.revised (hended : EndedRun stored proposed) (revision : Nat) :
    EndedRun { stored with revision } { proposed with revision } := by
  obtain ⟨state, finals, error, updatedAt, rfl⟩ := hended.fields
  exact ⟨⟨state, finals, error, updatedAt, rfl⟩, hended.state, hended.error, hended.updatedAt,
    hended.finals⟩

private theorem revision_le_of_accepted {run : OrchestrationRun} {plan : TaskPlan} {order : List String}
    (h : Accepted sha256Hex localeCompare run plan order) : run.revision ≤ maxSafeInteger := by
  have hheader := h.header
  unfold validateHeader at hheader
  rw [seq_ok_iff, ensure_ok_iff] at hheader
  exact hheader.1

private theorem readValidated_of_accepted {files : RunFiles} {run : OrchestrationRun}
    {plan : TaskPlan} {order : List String} (hrun : files run.id = some run)
    (h : Accepted sha256Hex localeCompare run plan order) :
    readValidated sha256Hex localeCompare files run.id = .ok run := by
  unfold readValidated
  rw [seq_ok_iff, ensure_ok_iff, bind_ok_iff]
  have hheader := h.header
  unfold validateHeader at hheader
  simp only [seq_ok_iff, ensure_ok_iff] at hheader
  refine ⟨hheader.2.2.1, run, ?_, ?_⟩
  · rw [require_ok_iff]
    exact hrun
  · rw [validateStoredRun_ok_iff]
    exact ⟨rfl, plan, order, h⟩

/-- A proposed run that keeps its history is written exactly when it is accepted. -/
theorem transaction_ok_iff {files after : RunFiles}
    {mutate : OrchestrationRun → Except String Mutated} {plan : TaskPlan} {order : List String}
    (hrun : files stored.id = some stored)
    (h : Accepted sha256Hex localeCompare stored plan order)
    (hmutated : mutate stored = .ok (.proposed proposed)) (hid : proposed.id = stored.id)
    (htransition : assertPlanHistoryTransition stored proposed = .ok ()) :
    transaction sha256Hex localeCompare files stored.id mutate = .ok after ↔
      (∃ plan order, Accepted sha256Hex localeCompare
        { proposed with revision := stored.revision + 1 } plan order) ∧
      after = Function.update files stored.id
        (some { proposed with revision := stored.revision + 1 }) := by
  unfold transaction storeProposed
  simp only [bind_ok_iff, exists_unit_iff, readValidated_of_accepted hrun h, hmutated,
    Except.ok.injEq, exists_eq_left', ensure_ok_iff, iff_true_intro hid, htransition, true_and,
    validateStoredRun_ok_iff, writeAtomic_ok_iff, acceptsRun_iff]
  rw [← hid]
  constructor
  · rintro ⟨updated, ⟨rfl, haccepted⟩, -, hafter⟩
    exact ⟨haccepted, hafter⟩
  · rintro ⟨haccepted, hafter⟩
    exact ⟨_, ⟨rfl, haccepted⟩, haccepted, hafter⟩

end Ending

/-- Of an approved run the engine executes, which is not ready to merge, a transaction that ends what
is under way is written exactly when it ends every final validation that runs. So the one that
cancels the run, and the one that restarts its validation, are always written. -/
theorem ending_writes_accepted {sha256Hex : String → String} {localeCompare : LocaleOrder}
    {files : RunFiles} (hreachable : (storedRunLifecycle sha256Hex localeCompare).Reachable files)
    {id : String} {run proposed : OrchestrationRun} (hrun : files id = some run)
    (hengine : executionRecord run = .engine) (happroved : run.approvedPlanRevision ≠ none)
    (hevidence : run.mergeReadyEvidence = none) {write : LifecycleWrite} {now : Timestamp}
    (hends : write.Ends) (hproposed : write.mutate now run = .ok (.proposed proposed)) :
    (∃ after, transaction sha256Hex localeCompare files id (write.mutate now) = .ok after) ↔
      run.revision < maxSafeInteger ∧ ∀ attempt ∈ run.finalValidationAttempts,
        attempt.state = .running → write.endsAttempt attempt.id = true := by
  obtain ⟨hid, haccepts⟩ := filesAccepted_reachable (reachable_of_lifecycle hreachable) id run hrun
  subst hid
  obtain ⟨plan, order, haccepted⟩ := acceptsRun_iff.mp haccepts
  have hended := LifecycleWrite.endedRun hends hproposed
  obtain ⟨hsame, htransition⟩ : proposed.id = run.id ∧
      assertPlanHistoryTransition run proposed = .ok () := by
    obtain ⟨state, finals, error, updatedAt, rfl⟩ := hended.fields
    exact ⟨rfl, transition_settled rfl⟩
  have hwritten : ∀ after, transaction sha256Hex localeCompare files run.id (write.mutate now) =
      .ok after ↔ _ := fun after => transaction_ok_iff hrun haccepted hproposed hsame htransition
  simp only [hwritten, exists_and_left, exists_eq, and_true]
  rw [← LifecycleWrite.running_of_ends hends hproposed]
  constructor
  · intro h
    obtain ⟨readPlan, sorted, hnext⟩ := h
    have hrevision := revision_le_of_accepted hnext
    dsimp only at hrevision
    refine ⟨by omega, ?_⟩
    have hstored := haccepted.revised hrevision
    exact (accepted_ended_iff hstored (hended.revised _) hengine happroved hevidence).mp
      ⟨readPlan, sorted, hnext⟩
  · rintro ⟨hrevision, hrunning⟩
    have hstored := haccepted.revised (Nat.succ_le_of_lt hrevision)
    exact (accepted_ended_iff hstored (hended.revised _) hengine happroved hevidence).mpr hrunning

/-! ## A validation that is cancelled -/

/-- The final validation of a run, under way. -/
def runningValidation : FinalValidationAttempt :=
  { id := "final-1", number := 1, state := .running, integrationCommit := "base"
    worktreePath := "/worktrees/final-1", startedAt := "2", finishedAt := none, error := none
    evidence := none }

/-- A run in the middle of its final validation. -/
def validatingRun : OrchestrationRun :=
  { authoredRun "plan" with state := .validating, finalValidationAttempts := [runningValidation] }

private theorem cancelTime_nonempty : "3" ≠ "" := by decide

/-- The time of the cancellation. -/
def cancelledAt : Timestamp := ⟨"3", cancelTime_nonempty⟩

/-- The same run, cancelled. -/
def cancelledRun : OrchestrationRun := { cancelStoredRun cancelledAt validatingRun with revision := 2 }

private theorem validatingRun_accepted : AcceptsRun id codePointOrder validatingRun := by
  rw [AcceptsRun]
  decide +kernel

theorem reachable_of_accepts {run : OrchestrationRun}
    (haccepts : AcceptsRun id codePointOrder run) :
    (storedRunLifecycle id codePointOrder).Reachable (filesOf run) := by
  have hempty : (runStoreSystem id codePointOrder).Reachable fun _ => none := .of_initial rfl
  have hcreate : (runStoreSystem id codePointOrder).step (fun _ => none) (.create run) (filesOf run) := by
    show create id codePointOrder (fun _ => none) run = .ok _
    rw [create_of_accepts haccepts rfl]
    rfl
  exact .of_initial (hempty.step hcreate)

theorem ending_writes_accepted_cancel : (∃ after, transaction id codePointOrder
      (filesOf validatingRun) "run" (LifecycleWrite.cancelStored.mutate cancelledAt) = .ok after) ↔
    validatingRun.revision < maxSafeInteger ∧ ∀ attempt ∈ validatingRun.finalValidationAttempts,
      attempt.state = .running → LifecycleWrite.cancelStored.endsAttempt attempt.id = true :=
  ending_writes_accepted (reachable_of_accepts validatingRun_accepted) (Function.update_self ..) rfl
    (by decide) rfl trivial rfl

private theorem cancelledRun_accepted : AcceptsRun id codePointOrder cancelledRun := by
  obtain ⟨plan, order, haccepted⟩ := acceptsRun_iff.mp validatingRun_accepted
  have hrevised : Accepted id codePointOrder { validatingRun with revision := 2 } plan order :=
    haccepted.revised (by decide)
  have hended : EndedRun validatingRun (cancelStoredRun cancelledAt validatingRun) :=
    @LifecycleWrite.endedRun cancelledAt _ _ .cancelStored trivial rfl
  exact acceptsRun_iff.mpr
    ((accepted_ended_iff hrevised (hended.revised 2) rfl (by decide) rfl).mpr rfl)

theorem stored_lifecycle_kept_cancelled :
    (∀ later, (storedRunLifecycle id codePointOrder).Runs (filesOf cancelledRun) later →
      ∃ next, later "run" = some next ∧
        KeepsFinalAttempts cancelledRun.finalValidationAttempts next.finalValidationAttempts ∧
        StatesLifecycle next) ∧
    ∀ later, ((storedRunLifecycle id codePointOrder).restrict
      fun _ call => call.write.isFail = false).Runs (filesOf cancelledRun) later →
        later "run" = some cancelledRun := by
  have hkept := stored_lifecycle_kept (reachable_of_accepts cancelledRun_accepted) (Function.update_self ..)
  exact ⟨hkept.1, hkept.2 rfl⟩

end BuildConductor.Workflows
