import BuildConductor.Base.TransitionSystem
import BuildConductor.Storage.RunRewriting
import Mathlib.Data.Option.Basic
import Mathlib.Logic.Function.Basic

/-!
# The history of a stored run

Over every sequence of writes the run store accepts, the plan revisions of a run are only appended
to, its security policy and the identity of its authority stay, and nothing that was approved
changes. `src/src/storage/run-store.ts:1440-1619`, `src/src/security/authority.ts:499-530`.
-/

namespace BuildConductor.Storage.RunStore

open Base Domain Security

/-! ## The authority a write carries -/

/-- The authority identity one stored run may carry across a write.
`src/src/security/authority.ts:499-530`. -/
def assertRunAuthorityTransition (current proposed : Option FrozenAuthority) (planChanged : Bool) :
    Except String Unit :=
  match current, proposed with
  | none, none => pure ()
  | none, some _ => .error "A run cannot gain a frozen authority envelope after creation"
  | some _, none => .error "A run's frozen authority envelope cannot be dropped"
  | some current, some proposed => do
    ensure (proposed.source = current.source) "A run's authority source is immutable"
    if proposed.digest = current.digest then pure ()
    else if current.source = .authored then
      .error "An approved authority envelope is immutable"
    else
      ensure (planChanged = true)
        "A derived authority envelope can only change with its plan revision"

/-- A write that keeps the plan revision carries the authority an engine run would. -/
theorem assertRunAuthorityTransition_kept (current proposed : Option FrozenAuthority) :
    assertRunAuthorityTransition current proposed false =
      assertAuthorityTransition current proposed := by
  cases current <;> cases proposed <;> rfl

/-- The same authority, but for a derived envelope whose plan was revised. -/
structure SameAuthority (revised : Prop) (current next : FrozenAuthority) : Prop where
  source : next.source = current.source
  digest : next.digest = current.digest ∨ current.source = .derived ∧ revised

/-- A run keeps the authority it was created with, or keeps having none. -/
def KeepsAuthority (revised : Prop) (current next : Option FrozenAuthority) : Prop :=
  Option.Rel (SameAuthority revised) current next

/-- What the check of an authority means. -/
theorem assertRunAuthorityTransition_ok_iff {current proposed : Option FrozenAuthority}
    {planChanged : Bool} :
    assertRunAuthorityTransition current proposed planChanged = .ok () ↔
      KeepsAuthority (planChanged = true) current proposed := by
  unfold assertRunAuthorityTransition KeepsAuthority
  cases current with
  | none =>
    cases proposed with
    | none => exact iff_of_true rfl Option.Rel.none
    | some proposed => exact iff_of_false nofun nofun
  | some current =>
    cases proposed with
    | none => exact iff_of_false nofun nofun
    | some proposed =>
      dsimp only
      rw [seq_ok_iff, ensure_ok_iff, Option.rel_some_some]
      by_cases hdigest : proposed.digest = current.digest
      · rw [if_pos hdigest]
        exact ⟨fun h => ⟨h.1, Or.inl hdigest⟩, fun h => ⟨h.source, rfl⟩⟩
      · rw [if_neg hdigest]
        cases hsource : current.source with
        | authored =>
          apply iff_of_false (fun h => nomatch h.2)
          intro h
          have hderived := (h.digest.resolve_left hdigest).1
          rw [hsource] at hderived
          cases hderived
        | derived =>
          rw [if_neg nofun, ensure_ok_iff]
          constructor
          · intro h
            exact ⟨h.1.trans hsource.symm, Or.inr ⟨hsource, h.2⟩⟩
          · intro h
            exact ⟨h.source.trans hsource, (h.digest.resolve_left hdigest).2⟩

theorem SameAuthority.trans {first second either : Prop} (hfirst : first → either)
    (hsecond : second → either) {current next later : FrozenAuthority}
    (h : SameAuthority first current next) (h' : SameAuthority second next later) :
    SameAuthority either current later := by
  refine ⟨h'.source.trans h.source, ?_⟩
  rcases h.digest with hsame | hrevised
  · rw [← hsame, ← h.source]
    exact h'.digest.imp_right fun hrevised => ⟨hrevised.1, hsecond hrevised.2⟩
  · exact Or.inr ⟨hrevised.1, hfirst hrevised.2⟩

theorem KeepsAuthority.refl (revised : Prop) (authority : Option FrozenAuthority) :
    KeepsAuthority revised authority authority := by
  cases authority with
  | none => exact .none
  | some authority => exact .some ⟨rfl, Or.inl rfl⟩

theorem KeepsAuthority.mono {revised more : Prop} (hmore : revised → more)
    {current next : Option FrozenAuthority} (h : KeepsAuthority revised current next) :
    KeepsAuthority more current next := by
  cases h with
  | none => exact .none
  | some h => exact .some ⟨h.source, h.digest.imp_right fun hrevised => ⟨hrevised.1, hmore hrevised.2⟩⟩

theorem KeepsAuthority.trans {first second either : Prop} (hfirst : first → either)
    (hsecond : second → either) {current next later : Option FrozenAuthority}
    (h : KeepsAuthority first current next) (h' : KeepsAuthority second next later) :
    KeepsAuthority either current later := by
  cases h with
  | none =>
    cases h' with
    | none => exact .none
  | some h =>
    cases h' with
    | some h' => exact .some (h.trans hfirst hsecond h')

/-! ## What a write may change -/

/-- `src/src/storage/run-store.ts:1440-1480`. -/
def assertPlanHistoryTransition (current proposed : OrchestrationRun) : Except String Unit := do
  ensure (proposed.securityPolicy = current.securityPolicy) "Run security policy is immutable"
  assertRunAuthorityTransition current.authority proposed.authority
    (proposed.planRevision ≠ current.planRevision)
  ensure (current.planRevisions.length ≤ proposed.planRevisions.length)
    "Plan revision history cannot be truncated"
  forM current.planRevisions.zipIdx fun (revision, index) =>
    ensure (proposed.planRevisions[index]? = some revision)
      s!"Plan revision {revision.number} is immutable"
  ensure (current.approvedPlanRevision ≠ none →
      proposed.approvedPlanRevision = current.approvedPlanRevision ∧
      proposed.approvedAt = current.approvedAt ∧
      proposed.planRevisions.length = current.planRevisions.length ∧
      proposed.planRevision = current.planRevision ∧
      proposed.plan = current.plan ∧
      proposed.maxConcurrentWorkers = current.maxConcurrentWorkers)
    "Approved plan revision is immutable"

/-- What an approved run keeps. -/
structure KeepsApproval (current next : OrchestrationRun) : Prop where
  approvedPlanRevision : next.approvedPlanRevision = current.approvedPlanRevision
  approvedAt : next.approvedAt = current.approvedAt
  planRevisions : next.planRevisions = current.planRevisions
  planRevision : next.planRevision = current.planRevision
  plan : next.plan = current.plan
  maxConcurrentWorkers : next.maxConcurrentWorkers = current.maxConcurrentWorkers
  authority : KeepsAuthority False current.authority next.authority

/-- What every write of a run keeps. -/
structure KeepsHistory (current next : OrchestrationRun) : Prop where
  planRevisions : current.planRevisions <+: next.planRevisions
  securityPolicy : next.securityPolicy = current.securityPolicy
  authority : KeepsAuthority (current.planRevisions.length < next.planRevisions.length)
    current.authority next.authority
  approved : current.approvedPlanRevision ≠ none → KeepsApproval current next

theorem KeepsApproval.refl (run : OrchestrationRun) : KeepsApproval run run :=
  ⟨rfl, rfl, rfl, rfl, rfl, rfl, KeepsAuthority.refl False run.authority⟩

theorem KeepsHistory.refl (run : OrchestrationRun) : KeepsHistory run run :=
  ⟨List.prefix_rfl, rfl, KeepsAuthority.refl _ run.authority, fun _ => KeepsApproval.refl run⟩

theorem KeepsApproval.trans {current next later : OrchestrationRun} (h : KeepsApproval current next)
    (h' : KeepsApproval next later) : KeepsApproval current later where
  approvedPlanRevision := h'.approvedPlanRevision.trans h.approvedPlanRevision
  approvedAt := h'.approvedAt.trans h.approvedAt
  planRevisions := h'.planRevisions.trans h.planRevisions
  planRevision := h'.planRevision.trans h.planRevision
  plan := h'.plan.trans h.plan
  maxConcurrentWorkers := h'.maxConcurrentWorkers.trans h.maxConcurrentWorkers
  authority := h.authority.trans id id h'.authority

/-- What two writes keep, one after the other, is kept. -/
theorem KeepsHistory.trans {current next later : OrchestrationRun} (h : KeepsHistory current next)
    (h' : KeepsHistory next later) : KeepsHistory current later where
  planRevisions := h.planRevisions.trans h'.planRevisions
  securityPolicy := h'.securityPolicy.trans h.securityPolicy
  authority := by
    have hfirst := h.planRevisions.length_le
    have hsecond := h'.planRevisions.length_le
    apply h.authority.trans ?_ ?_ h'.authority
    · intro hrevised
      omega
    · intro hrevised
      omega
  approved := by
    intro happroved
    have hfirst := h.approved happroved
    rw [← hfirst.approvedPlanRevision] at happroved
    exact hfirst.trans (h'.approved happroved)

/-- The write that stores a run counts its revision, which is no part of its history. -/
theorem KeepsHistory.revised {current next : OrchestrationRun} (h : KeepsHistory current next)
    (revision : Nat) : KeepsHistory current { next with revision } where
  planRevisions := h.planRevisions
  securityPolicy := h.securityPolicy
  authority := h.authority
  approved := by
    intro happroved
    have hkeeps := h.approved happroved
    exact ⟨hkeeps.approvedPlanRevision, hkeeps.approvedAt, hkeeps.planRevisions,
      hkeeps.planRevision, hkeeps.plan, hkeeps.maxConcurrentWorkers, hkeeps.authority⟩

/-- The list found at each position of another starts it. -/
private theorem prefix_of_getElem? {α : Type} {xs ys : List α}
    (h : ∀ e ∈ xs.zipIdx, ys[e.2]? = some e.1) : xs <+: ys := by
  rw [List.prefix_iff_getElem?]
  intro i hi
  apply h (xs[i], i)
  rw [List.mem_zipIdx_iff_getElem?]
  exact List.getElem?_eq_getElem hi

/-- The check of a transition keeps the history of runs that count their revisions. -/
theorem keepsHistory_of_transition {current proposed : OrchestrationRun}
    (hcurrent : current.planRevision = current.planRevisions.length)
    (hproposed : proposed.planRevision = proposed.planRevisions.length)
    (h : assertPlanHistoryTransition current proposed = .ok ()) : KeepsHistory current proposed := by
  unfold assertPlanHistoryTransition at h
  simp only [seq_ok_iff, ensure_ok_iff, forM_ok_iff, assertRunAuthorityTransition_ok_iff,
    decide_eq_true_eq] at h
  obtain ⟨hpolicy, hauthority, hlength, heach, happroval⟩ := h
  have hstarts : current.planRevisions <+: proposed.planRevisions :=
    prefix_of_getElem? fun e he => heach e he
  refine ⟨hstarts, hpolicy, hauthority.mono fun hrevised => by omega, fun happroved => ?_⟩
  obtain ⟨happrovedRevision, happrovedAt, hsameLength, hrevision, hplan, hworkers⟩ :=
    happroval happroved
  exact
    { approvedPlanRevision := happrovedRevision
      approvedAt := happrovedAt
      planRevisions := (hstarts.eq_of_length hsameLength.symm).symm
      planRevision := hrevision
      plan := hplan
      maxConcurrentWorkers := hworkers
      authority := hauthority.mono fun hrevised => hrevised hrevision }

/-! ## What an accepted run says of its history -/

section History

variable (sha256Hex : String → String)

/-- The plan and the worker limit of a run are those of its last revision, as the reader of plans
spells them, and its authority is identified by the digest of its envelope, as the reader of
envelopes spells it. -/
structure StatesHistory (run : OrchestrationRun) : Prop where
  planRevision : run.planRevision = run.planRevisions.length
  latest : ∃ latest, run.planRevisions.getLast? = some latest ∧
    validateTaskPlan run.plan.toJson = .ok latest.plan ∧
    latest.maxConcurrentWorkers = run.maxConcurrentWorkers
  authority : ∀ authority ∈ run.authority, ∃ envelope,
    normalizeAuthorityEnvelope authority.envelope.toJson authority.source = .ok envelope ∧
    authority.digest = authorityEnvelopeDigest sha256Hex envelope

variable {sha256Hex} {localeCompare : LocaleOrder}

theorem statesHistory_of_accepts {run : OrchestrationRun}
    (h : AcceptsRun sha256Hex localeCompare run) : StatesHistory sha256Hex run := by
  obtain ⟨plan, order, haccepted⟩ := acceptsRun_iff.mp h
  have hhistory := haccepted.history
  unfold validatePlanHistory at hhistory
  simp only [seq_ok_iff, ensure_ok_iff] at hhistory
  obtain ⟨-, -, -, hrevision, hlatest⟩ := hhistory
  refine ⟨hrevision, ?_, ?_⟩
  · rw [Option.map_eq_some_iff] at hlatest
    obtain ⟨latest, hlast, hsame⟩ := hlatest
    rw [Prod.mk.injEq] at hsame
    refine ⟨latest, hlast, ?_, hsame.2⟩
    rw [hsame.1]
    exact haccepted.read
  · intro authority hauthority
    have hchecked := haccepted.authority
    unfold validateAuthority at hchecked
    rw [Option.mem_def.mp hauthority] at hchecked
    dsimp only at hchecked
    simp only [bind_ok_iff, require_ok_iff] at hchecked
    obtain ⟨profiles, -, frozen, hfrozen, -⟩ := hchecked
    unfold validateStoredAuthority at hfrozen
    simp only [bind_ok_iff, ensure_ok_iff, exists_unit_iff] at hfrozen
    obtain ⟨envelope, hnormal, hdigest, -⟩ := hfrozen
    exact ⟨envelope, hnormal, hdigest⟩

end History

/-! ## The run store -/

/-- The run each file of the directory holds. -/
abbrev RunFiles := String → Option OrchestrationRun

/-- What a mutation answers: the run it was given, as it was, or a run to store. -/
inductive Mutated
  | unchanged
  | proposed (run : OrchestrationRun)

section Store

variable (sha256Hex : String → String) (localeCompare : LocaleOrder)

/-- `src/src/storage/run-store.ts:1501-1509`. -/
def writeAtomic (files : RunFiles) (run : OrchestrationRun) : Except String RunFiles := do
  let validated ← validateStoredRun sha256Hex localeCompare run
  pure (Function.update files validated.id (some validated))

/-- `src/src/storage/run-store.ts:1511-1514`. -/
def readValidated (files : RunFiles) (runId : String) : Except String OrchestrationRun := do
  ensure (isSafeRunId runId) s!"Unsafe run id: {runId}"
  let run ← require (files runId) s!"ENOENT: no such file or directory, open '{runId}.json'"
  validateStoredRun sha256Hex localeCompare run

/-- A run may be written once under its id. `src/src/storage/run-store.ts:1551-1565`. -/
def create (files : RunFiles) (run : OrchestrationRun) : Except String RunFiles := do
  let validated ← validateStoredRun sha256Hex localeCompare run
  ensure (files validated.id = none) s!"Run already exists: {validated.id}"
  writeAtomic sha256Hex localeCompare files validated

/-- `src/src/storage/run-store.ts:1567-1592`. -/
def save (files : RunFiles) (run : OrchestrationRun) : Except String RunFiles := do
  let validated ← validateStoredRun sha256Hex localeCompare run
  match files validated.id with
  | none => writeAtomic sha256Hex localeCompare files validated
  | some _ => do
    let current ← readValidated sha256Hex localeCompare files validated.id
    ensure (current.revision = validated.revision)
      s!"Stale run revision {validated.revision}; current revision is {current.revision}"
    assertPlanHistoryTransition current validated
    if current = validated then pure files
    else
      writeAtomic sha256Hex localeCompare files { validated with revision := current.revision + 1 }

/-- What is stored of a proposed run. `src/src/storage/run-store.ts:1608-1617`. -/
def storeProposed (files : RunFiles) (current proposed : OrchestrationRun) :
    Except String RunFiles := do
  ensure (proposed.id = current.id) "A run transaction cannot change the run id"
  assertPlanHistoryTransition current proposed
  let updated ← validateStoredRun sha256Hex localeCompare
    { proposed with revision := current.revision + 1 }
  writeAtomic sha256Hex localeCompare files updated

/-- `src/src/storage/run-store.ts:1594-1619`. -/
def transaction (files : RunFiles) (runId : String)
    (mutate : OrchestrationRun → Except String Mutated) : Except String RunFiles := do
  let current ← readValidated sha256Hex localeCompare files runId
  match ← mutate current with
  | .unchanged => pure files
  | .proposed proposed => storeProposed sha256Hex localeCompare files current proposed

end Store

/-- A call of some process that may write a run. -/
inductive RunWrite
  | create (run : OrchestrationRun)
  | save (run : OrchestrationRun)
  | transaction (runId : String) (mutate : OrchestrationRun → Except String Mutated)

section Runs

variable (sha256Hex : String → String) (localeCompare : LocaleOrder)

/-- The files after a call that succeeds. -/
def RunWrite.perform (files : RunFiles) : RunWrite → Except String RunFiles
  | .create run => RunStore.create sha256Hex localeCompare files run
  | .save run => RunStore.save sha256Hex localeCompare files run
  | .transaction runId mutate => RunStore.transaction sha256Hex localeCompare files runId mutate

/-- The calls of any number of processes on one directory, in the order of the lock each holds
while it reads and writes. -/
def runStoreSystem : TransitionSystem RunFiles RunWrite where
  initial := fun files => files = fun _ => none
  step := fun files call after => call.perform sha256Hex localeCompare files = .ok after

/-- Every file holds an accepted run of its name. -/
def FilesAccepted (files : RunFiles) : Prop :=
  ∀ id run, files id = some run → run.id = id ∧ AcceptsRun sha256Hex localeCompare run

/-- What a call writes: nothing, or one accepted run that keeps the history of the one it
replaces. -/
def WritesRun (files after : RunFiles) : Prop :=
  after = files ∨ ∃ next, AcceptsRun sha256Hex localeCompare next ∧
    after = Function.update files next.id (some next) ∧
    ∀ current, files next.id = some current → KeepsHistory current next

variable {sha256Hex localeCompare}

theorem writeAtomic_ok_iff {files after : RunFiles} {run : OrchestrationRun} :
    writeAtomic sha256Hex localeCompare files run = .ok after ↔
      AcceptsRun sha256Hex localeCompare run ∧
        after = Function.update files run.id (some run) := by
  unfold writeAtomic
  rw [bind_ok_iff]
  simp only [validateStoredRun_ok_iff, pure, Except.pure, Except.ok.injEq]
  constructor
  · rintro ⟨validated, ⟨rfl, haccepted⟩, rfl⟩
    exact ⟨acceptsRun_iff.mpr haccepted, rfl⟩
  · rintro ⟨haccepts, rfl⟩
    exact ⟨run, ⟨rfl, acceptsRun_iff.mp haccepts⟩, rfl⟩

theorem readValidated_ok {files : RunFiles} {runId : String} {run : OrchestrationRun}
    (h : readValidated sha256Hex localeCompare files runId = .ok run) :
    files runId = some run ∧ AcceptsRun sha256Hex localeCompare run := by
  unfold readValidated at h
  rw [seq_ok_iff, bind_ok_iff] at h
  obtain ⟨-, stored, hstored, h⟩ := h
  rw [require_ok_iff] at hstored
  rw [validateStoredRun_ok_iff] at h
  obtain ⟨rfl, haccepted⟩ := h
  exact ⟨hstored, acceptsRun_iff.mpr haccepted⟩

/-- A proposed run whose stored form is accepted keeps the history of the run it replaces. -/
private theorem keepsHistory_of_accepts {current proposed : OrchestrationRun} {revision : Nat}
    (hcurrent : AcceptsRun sha256Hex localeCompare current)
    (hnext : AcceptsRun sha256Hex localeCompare { proposed with revision })
    (h : assertPlanHistoryTransition current proposed = .ok ()) :
    KeepsHistory current { proposed with revision } := by
  have hbefore : current.planRevision = current.planRevisions.length :=
    (statesHistory_of_accepts hcurrent).planRevision
  have hafter : proposed.planRevision = proposed.planRevisions.length :=
    (statesHistory_of_accepts hnext).planRevision
  exact (keepsHistory_of_transition hbefore hafter h).revised revision

private theorem create_writes {files after : RunFiles} {run : OrchestrationRun}
    (h : create sha256Hex localeCompare files run = .ok after) :
    WritesRun sha256Hex localeCompare files after := by
  unfold create at h
  rw [bind_ok_iff] at h
  obtain ⟨validated, -, h⟩ := h
  rw [seq_ok_iff, ensure_ok_iff, writeAtomic_ok_iff] at h
  obtain ⟨hnone, haccepts, hafter⟩ := h
  refine Or.inr ⟨validated, haccepts, hafter, ?_⟩
  intro current hcurrent
  rw [hnone] at hcurrent
  cases hcurrent

private theorem save_writes {files after : RunFiles} {run : OrchestrationRun}
    (h : save sha256Hex localeCompare files run = .ok after) :
    WritesRun sha256Hex localeCompare files after := by
  unfold save at h
  rw [bind_ok_iff] at h
  obtain ⟨validated, -, h⟩ := h
  split at h
  · next hnone =>
    rw [writeAtomic_ok_iff] at h
    refine Or.inr ⟨validated, h.1, h.2, ?_⟩
    intro current hcurrent
    rw [hnone] at hcurrent
    cases hcurrent
  · rw [bind_ok_iff] at h
    obtain ⟨current, hread, h⟩ := h
    obtain ⟨hstored, hcurrent⟩ := readValidated_ok hread
    rw [seq_ok_iff, seq_ok_iff] at h
    obtain ⟨-, htransition, h⟩ := h
    split at h
    · cases h
      exact Or.inl rfl
    · rw [writeAtomic_ok_iff] at h
      refine Or.inr ⟨_, h.1, h.2, ?_⟩
      intro other hother
      have hsame : current = other := by
        rw [← Option.some.injEq, ← hstored]
        exact hother
      rw [← hsame]
      exact keepsHistory_of_accepts hcurrent h.1 htransition

private theorem storeProposed_writes {files after : RunFiles} {current proposed : OrchestrationRun}
    (hstored : files current.id = some current)
    (hcurrent : AcceptsRun sha256Hex localeCompare current)
    (h : storeProposed sha256Hex localeCompare files current proposed = .ok after) :
    WritesRun sha256Hex localeCompare files after := by
  unfold storeProposed at h
  rw [seq_ok_iff, ensure_ok_iff, seq_ok_iff, bind_ok_iff] at h
  obtain ⟨hid, htransition, updated, hupdated, h⟩ := h
  rw [validateStoredRun_ok_iff] at hupdated
  obtain ⟨rfl, -⟩ := hupdated
  rw [writeAtomic_ok_iff] at h
  refine Or.inr ⟨_, h.1, h.2, ?_⟩
  intro other hother
  have hsame : current = other := by
    rw [← Option.some.injEq, ← hstored, ← hid]
    exact hother
  rw [← hsame]
  exact keepsHistory_of_accepts hcurrent h.1 htransition

private theorem transaction_writes {files after : RunFiles} {runId : String}
    {mutate : OrchestrationRun → Except String Mutated}
    (hfiles : FilesAccepted sha256Hex localeCompare files)
    (h : transaction sha256Hex localeCompare files runId mutate = .ok after) :
    WritesRun sha256Hex localeCompare files after := by
  unfold transaction at h
  rw [bind_ok_iff] at h
  obtain ⟨current, hread, h⟩ := h
  rw [bind_ok_iff] at h
  obtain ⟨mutated, -, h⟩ := h
  obtain ⟨hstored, hcurrent⟩ := readValidated_ok hread
  have hid : current.id = runId := (hfiles runId current hstored).1
  cases mutated with
  | unchanged =>
    cases h
    exact Or.inl rfl
  | proposed proposed =>
    apply storeProposed_writes _ hcurrent h
    rw [hid]
    exact hstored

/-- Every call writes at most one run, which keeps the history of the run it replaces. -/
theorem RunWrite.writes {files after : RunFiles} {call : RunWrite}
    (hfiles : FilesAccepted sha256Hex localeCompare files)
    (h : call.perform sha256Hex localeCompare files = .ok after) :
    WritesRun sha256Hex localeCompare files after := by
  cases call with
  | create run => exact create_writes h
  | save run => exact save_writes h
  | transaction runId mutate => exact transaction_writes hfiles h

/-- A write keeps every file accepted. -/
theorem WritesRun.accepted {files after : RunFiles} (h : WritesRun sha256Hex localeCompare files after)
    (hfiles : FilesAccepted sha256Hex localeCompare files) :
    FilesAccepted sha256Hex localeCompare after := by
  rcases h with rfl | ⟨next, haccepts, rfl, -⟩
  · exact hfiles
  · intro id run hrun
    by_cases hid : id = next.id
    · rw [hid, Function.update_self, Option.some.injEq] at hrun
      rw [← hrun]
      exact ⟨hid.symm, haccepts⟩
    · rw [Function.update_of_ne hid] at hrun
      exact hfiles id run hrun

/-- A write keeps the history of every run. -/
theorem WritesRun.keeps {files after : RunFiles} (h : WritesRun sha256Hex localeCompare files after)
    {id : String} {run : OrchestrationRun} (hrun : files id = some run) :
    ∃ next, after id = some next ∧ KeepsHistory run next := by
  rcases h with rfl | ⟨next, -, rfl, hkeeps⟩
  · exact ⟨run, hrun, KeepsHistory.refl run⟩
  · by_cases hid : id = next.id
    · rw [hid] at hrun ⊢
      exact ⟨next, Function.update_self .., hkeeps run hrun⟩
    · rw [Function.update_of_ne hid]
      exact ⟨run, hrun, KeepsHistory.refl run⟩

theorem filesAccepted_reachable {files : RunFiles}
    (h : (runStoreSystem sha256Hex localeCompare).Reachable files) :
    FilesAccepted sha256Hex localeCompare files := by
  apply h.invariant
  · rintro files rfl id run hrun
    cases hrun
  · intro files call after _ hfiles hstep
    exact (RunWrite.writes hfiles hstep).accepted hfiles

/-- After any calls of any processes, a run that was stored is stored, states its history, and
keeps the history it had. -/
theorem history_kept {files later : RunFiles}
    (hreachable : (runStoreSystem sha256Hex localeCompare).Reachable files) {id : String}
    {run : OrchestrationRun} (hrun : files id = some run)
    (hruns : (runStoreSystem sha256Hex localeCompare).Runs files later) :
    ∃ next, later id = some next ∧ KeepsHistory run next ∧ StatesHistory sha256Hex next := by
  have hfiles := filesAccepted_reachable hreachable
  induction hruns with
  | refl =>
    exact ⟨run, hrun, KeepsHistory.refl run, statesHistory_of_accepts (hfiles id run hrun).2⟩
  | snoc hruns hstep ih =>
    obtain ⟨next, hnext, hkeeps, -⟩ := ih
    have hbetween := filesAccepted_reachable (hreachable.runs hruns)
    have hwrites := RunWrite.writes hbetween hstep
    obtain ⟨last, hlast, hkept⟩ := hwrites.keeps hnext
    refine ⟨last, hlast, hkeeps.trans hkept, ?_⟩
    exact statesHistory_of_accepts (hwrites.accepted hbetween id last hlast).2

/-- A run is created under an id no file has. -/
theorem create_of_accepts {files : RunFiles} {run : OrchestrationRun}
    (haccepts : AcceptsRun sha256Hex localeCompare run) (hnone : files run.id = none) :
    create sha256Hex localeCompare files run = .ok (Function.update files run.id (some run)) := by
  unfold create
  rw [bind_ok_iff]
  refine ⟨run, haccepts, ?_⟩
  rw [seq_ok_iff, ensure_ok_iff, writeAtomic_ok_iff]
  exact ⟨hnone, haccepts, rfl⟩

/-- A run is saved over the revision it was read at. -/
theorem save_of_accepts {files : RunFiles} {current run : OrchestrationRun}
    (hcurrent : AcceptsRun sha256Hex localeCompare current) (hstored : files run.id = some current)
    (haccepts : AcceptsRun sha256Hex localeCompare run) (hrevision : current.revision = run.revision)
    (htransition : assertPlanHistoryTransition current run = .ok ()) (hchanged : current ≠ run)
    (hnext : AcceptsRun sha256Hex localeCompare { run with revision := current.revision + 1 }) :
    save sha256Hex localeCompare files run = .ok (Function.update files run.id
      (some { run with revision := current.revision + 1 })) := by
  have hsafe : isSafeRunId run.id = true := by
    obtain ⟨plan, order, haccepted⟩ := acceptsRun_iff.mp haccepts
    have hheader := haccepted.header
    unfold validateHeader at hheader
    simp only [seq_ok_iff, ensure_ok_iff] at hheader
    exact hheader.2.2.1
  have hread : readValidated sha256Hex localeCompare files run.id = .ok current := by
    unfold readValidated
    rw [seq_ok_iff, ensure_ok_iff, bind_ok_iff]
    exact ⟨hsafe, current, require_ok_iff.mpr hstored, hcurrent⟩
  unfold save
  rw [bind_ok_iff]
  refine ⟨run, haccepts, ?_⟩
  rw [hstored]
  dsimp only
  rw [bind_ok_iff]
  refine ⟨current, hread, ?_⟩
  rw [seq_ok_iff, seq_ok_iff, ensure_ok_iff, if_neg hchanged, writeAtomic_ok_iff]
  exact ⟨hrevision, htransition, hnext, rfl⟩

end Runs

/-! ## Two spellings -/

/-- The envelope authored for the run of one task. -/
def authoredEnvelope (outcome : String) : AuthorityEnvelope where
  outcome
  acceptanceCriteria := ["it works"]
  repositories := [⟨"/repo",
    ⟨[.readRepository, .mutateRepository, .executeCommands], ["src/edit.ts"], []⟩⟩]
  forbiddenActions := []
  sandboxValidation := .none
  validation := ⟨[⟨"true", []⟩], true⟩
  escalation := ⟨EscalationCondition.all, []⟩

/-- A run under an authored envelope, whose plan is not spelled as in its revision. -/
def authoredRun (outcome : String) : OrchestrationRun :=
  let plan := smallTaskPlan [smallTask "edit" [] "src/edit.ts"]
  { startedRun plan with
    plan := { plan with title := "plan " }
    authority := some ⟨.authored, authorityEnvelopeDigest id (authoredEnvelope "plan"),
      authoredEnvelope outcome⟩ }

/-- Texts in the order of their code points. -/
def codePointOrder : LocaleOrder := fun left right => decide (left ≤ right)

/-- The files of a directory that holds one run. -/
def filesOf (run : OrchestrationRun) : RunFiles := Function.update (fun _ => none) run.id (some run)

/-- The run after a save that spells its envelope anew. -/
def respelledRun : OrchestrationRun := { authoredRun "plan " with revision := 2 }

private theorem authoredRun_accepted : AcceptsRun id codePointOrder (authoredRun "plan") := by
  rw [AcceptsRun]
  decide +kernel

private theorem spacedRun_accepted : AcceptsRun id codePointOrder (authoredRun "plan ") := by
  rw [AcceptsRun]
  decide +kernel

private theorem respelledRun_accepted : AcceptsRun id codePointOrder respelledRun := by
  obtain ⟨plan, order, haccepted⟩ := acceptsRun_iff.mp spacedRun_accepted
  exact acceptsRun_iff.mpr ⟨plan, order, haccepted.revised (by decide)⟩

private theorem authoredRun_transition :
    assertPlanHistoryTransition (authoredRun "plan") (authoredRun "plan ") = .ok () := by
  unfold assertPlanHistoryTransition
  simp only [seq_ok_iff, ensure_ok_iff, forM_ok_iff, assertRunAuthorityTransition_ok_iff]
  refine ⟨rfl, .some ⟨rfl, Or.inl rfl⟩, le_refl _, ?_, fun _ => ⟨rfl, rfl, rfl, rfl, rfl, rfl⟩⟩
  intro e he
  rw [← List.mem_zipIdx_iff_getElem?]
  exact he

private theorem envelope_respelled : (authoredRun "plan ").authority.map (·.envelope) ≠
    (authoredRun "plan").authority.map (·.envelope) := by
  decide

theorem authoredRun_reachable :
    (runStoreSystem id codePointOrder).Reachable (filesOf (authoredRun "plan")) := by
  have hempty : (runStoreSystem id codePointOrder).Reachable fun _ => none := .of_initial rfl
  have hcreate : (runStoreSystem id codePointOrder).step (fun _ => none)
      (.create (authoredRun "plan")) (filesOf (authoredRun "plan")) := by
    show create id codePointOrder (fun _ => none) (authoredRun "plan") = .ok _
    rw [create_of_accepts authoredRun_accepted rfl]
    rfl
  exact hempty.step hcreate

theorem authoredRun_respelled :
    (runStoreSystem id codePointOrder).Runs (filesOf (authoredRun "plan")) (filesOf respelledRun) := by
  have hstored : filesOf (authoredRun "plan") (authoredRun "plan ").id = some (authoredRun "plan") :=
    Function.update_self ..
  have hchanged : authoredRun "plan" ≠ authoredRun "plan " := fun h =>
    envelope_respelled (by rw [h])
  have hsave := save_of_accepts authoredRun_accepted hstored spacedRun_accepted rfl
    authoredRun_transition hchanged respelledRun_accepted
  have hfiles : Function.update (filesOf (authoredRun "plan")) (authoredRun "plan ").id
      (some respelledRun) = filesOf respelledRun := Function.update_idem _ _ _
  have hstep : (runStoreSystem id codePointOrder).step (filesOf (authoredRun "plan"))
      (.save (authoredRun "plan ")) (filesOf respelledRun) := by
    rw [← hfiles]
    exact hsave
  exact .snoc (.refl _) hstep

theorem history_kept_respelled : ∃ next, filesOf respelledRun "run" = some next ∧
    KeepsHistory (authoredRun "plan") next ∧ StatesHistory id next :=
  history_kept authoredRun_reachable (Function.update_self ..) authoredRun_respelled

/-- A stored run may spell its plan unlike its last revision, and a write may spell its authored
envelope anew. -/
theorem history_respelled : ∃ files later run next,
    (runStoreSystem id codePointOrder).Reachable files ∧
    (runStoreSystem id codePointOrder).Runs files later ∧
    files "run" = some run ∧ later "run" = some next ∧
    run.planRevisions.getLast?.map (·.plan) ≠ some run.plan ∧
    run.authority.map (·.source) = some .authored ∧
    next.authority.map (·.envelope) ≠ run.authority.map (·.envelope) := by
  refine ⟨filesOf (authoredRun "plan"), filesOf respelledRun, authoredRun "plan", respelledRun,
    authoredRun_reachable, authoredRun_respelled, Function.update_self .., Function.update_self ..,
    ?_, rfl, envelope_respelled⟩
  decide

end BuildConductor.Storage.RunStore
