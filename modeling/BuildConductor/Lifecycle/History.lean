import Mathlib.Data.List.ReduceOption
import BuildConductor.Base.LinearHistory
import BuildConductor.Lifecycle.Growth
import BuildConductor.Lifecycle.Integrity

/-!
# The commits behind the step records

A step record names the commit at which the step was integrated, its last succeeded attempt the
commit that was picked. Read in topological order, these are the notes of the integration branch.
Supports `src/src/engine/engine.ts:575-659`, `src/src/engine/finalization.ts:61-93`.
-/

namespace BuildConductor.Lifecycle

open Base Domain Security Engine Workflows Storage

/-! ## Notes -/

/-- The commit at which a step was integrated. -/
def landedAt (run : WorkflowRunState) (stepId : String) : Option String :=
  (run.steps.get? stepId).bind (·.integratedCommit)

/-- The commit of the last succeeded attempt of a step, which may have committed nothing. -/
def contribution (run : WorkflowRunState) (stepId : String) : Option (Option String) :=
  (latestSucceededAttempt run stepId).map fun attempt => present attempt.commit

/-- The note an integrated step left: what it contributed, and the head after it. -/
def integrationNote (run : WorkflowRunState) (stepId : String) : Option (Option String × String) :=
  (landedAt run stepId).map fun commit => ((contribution run stepId).join, commit)

/-- The notes of the integrated steps, in topological order. -/
def integrationNotes (run : WorkflowRunState) : List (Option String × String) :=
  (topologicalStepIds run.plan).filterMap (integrationNote run)

section Notes

variable {sha256Hex : String → String} {world : World} {run next : WorkflowRunState}
  {now : Timestamp} {transaction : Transaction} {stepId : String} {record : WorkflowStepRecord}

theorem landedAt_of_record (hrecord : run.steps.get? stepId = some record) :
    landedAt run stepId = record.integratedCommit := by
  rw [landedAt, hrecord]
  rfl

/-- What a step has landed is the integration record the store checks. -/
theorem Consistent.landedAt_eq (h : Consistent sha256Hex world)
    (hrecord : world.run.steps.get? stepId = some record) :
    (mutatingCommit world.run world.run.plan stepId).join = landedAt world.run stepId := by
  rw [h.kept.mutatingCommit_eq hrecord, landedAt_of_record hrecord]
  split
  · rfl
  · next hpure => exact ((h.record hrecord).authorized.resolve_right hpure).symm

/-- The heads the notes name are the recorded commits in topological order. -/
theorem Consistent.notes_snd (h : Consistent sha256Hex world) :
    (integrationNotes world.run).map Prod.snd =
      (commitsAlong world.run world.run.plan (topologicalStepIds world.run.plan)).reduceOption := by
  rw [integrationNotes, commitsAlong, List.map_filterMap, List.reduceOption, List.filterMap_filterMap]
  apply List.filterMap_congr
  intro stepId hstepId
  obtain ⟨record, hrecord⟩ := h.kept.mem_order_iff.mp hstepId
  rw [integrationNote, Option.map_map, ← h.landedAt_eq hrecord]
  cases mutatingCommit world.run world.run.plan stepId with
  | none => rfl
  | some commit => cases commit <;> rfl

/-- The last note names the integration head. -/
theorem Consistent.notes_head (h : Consistent sha256Hex world) :
    ((integrationNotes world.run).map Prod.snd).getLastD world.run.baseCommit =
      world.run.integrationHead := by
  obtain ⟨done, waiting, hcommits, hhead⟩ := h.accepted.integration.integrated
  rw [h.notes_snd, hcommits, List.reduceOption_append, List.reduceOption_replicate_none,
    List.append_nil, List.reduceOption, List.filterMap_map]
  simp only [Function.comp_def, id, List.filterMap_some]
  exact hhead.symm

/-- After a step that is still to be integrated, nothing is integrated. -/
theorem AwaitsMerge.nothing_after (h : AwaitsMerge world.run stepId)
    (hconsistent : Consistent sha256Hex world) {pre post : List String}
    (horder : topologicalStepIds world.run.plan = pre ++ stepId :: post) :
    ∀ id ∈ post, landedAt world.run id = none := by
  obtain ⟨record, hrecord, -, hrequires, hnone⟩ := h
  obtain ⟨done, waiting, hcommits, -⟩ := hconsistent.accepted.integration.integrated
  have hsingle : commitsAlong world.run world.run.plan [stepId] = [none] := by
    rw [commitsAlong, List.filterMap_cons_some (b := none)]
    · rfl
    · rw [hconsistent.kept.mutatingCommit_eq hrecord, if_pos hrequires, hnone]
  have hsplit : commitsAlong world.run world.run.plan pre ++
      none :: commitsAlong world.run world.run.plan post =
        done.map some ++ List.replicate waiting none := by
    rw [← hcommits, horder, commitsAlong_append, ← List.singleton_append (l := post),
      commitsAlong_append, hsingle]
    rfl
  have hwaiting : ∀ commit ∈ commitsAlong world.run world.run.plan post, commit = none := by
    intro commit hcommit
    rcases List.append_eq_append_iff.mp hsplit with ⟨rest, hdone, hrest⟩ | ⟨rest, -, hrest⟩
    · cases rest with
      | nil =>
        rw [List.nil_append] at hrest
        have hmem : commit ∈ List.replicate waiting (none : Option String) := by
          rw [← hrest]
          exact List.mem_cons_of_mem _ hcommit
        exact List.eq_of_mem_replicate hmem
      | cons first rest =>
        rw [List.cons_append, List.cons.injEq] at hrest
        have hmem : first ∈ done.map some := by
          rw [hdone]
          exact List.mem_append_right _ (List.mem_cons_self ..)
        obtain ⟨text, -, htext⟩ := List.mem_map.mp hmem
        rw [← hrest.1] at htext
        cases htext
    · have hmem : commit ∈ List.replicate waiting (none : Option String) := by
        rw [hrest]
        exact List.mem_append_right _ (List.mem_cons_of_mem _ hcommit)
      exact List.eq_of_mem_replicate hmem
  intro id hid
  obtain ⟨later, hlater⟩ := hconsistent.kept.mem_order_iff.mp
    (by rw [horder]; exact List.mem_append_right _ (List.mem_cons_of_mem _ hid))
  rw [← hconsistent.landedAt_eq hlater]
  cases hcommit : mutatingCommit world.run world.run.plan id with
  | none => rfl
  | some commit => exact hwaiting commit (List.mem_filterMap.mpr ⟨id, hid, hcommit⟩)

end Notes

/-! ## Writes -/

section Writes

variable {sha256Hex : String → String} {run next : WorkflowRunState} {now : Timestamp}
  {transaction : Transaction} {stepId : String} {record settled : WorkflowStepRecord}

private theorem Settles.integratedCommit {decision : InterruptedAttemptDecision}
    {interrupted : WorkflowStepAttempt} {definition : StepDefinition}
    {settleAttempt : WorkflowStepAttempt → WorkflowStepAttempt}
    {settleRecord : WorkflowStepRecord → WorkflowStepRecord} {outcome : RecoveryOutcome}
    (h : Settles now decision interrupted definition settleAttempt settleRecord outcome)
    (record : WorkflowStepRecord) :
    (settleRecord record).integratedCommit = record.integratedCommit := by
  cases h <;> rfl

private theorem settledRecord_integratedCommit (outcome : StepOutcome) (retrying : Bool)
    (record : WorkflowStepRecord) :
    (settledRecord outcome retrying record).integratedCommit = record.integratedCommit := by
  unfold settledRecord
  cases outcome with
  | failed error workerId retryable => cases retrying <;> rfl
  | succeeded _ _ _ _ | cancelled _ _ => rfl

/-- Only a recorded integration names the commit of a step. -/
private theorem updates_integratedCommit
    (hupdates : transaction.updates now run stepId record settled)
    (h : ∀ ticket commit, transaction = .recordIntegration ticket commit → stepId ≠ ticket.stepId) :
    settled.integratedCommit = record.integratedCommit := by
  cases transaction with
  | settleStep id attempt executed routing =>
    rw [Transaction.updates] at hupdates
    rw [hupdates]
    split
    · exact settledRecord_integratedCommit _ _ record
    · rfl
  | recordIntegration ticket commit =>
    rw [Transaction.updates, if_neg (h ticket commit rfl)] at hupdates
    rw [hupdates]
  | recover decide =>
    rcases hupdates with ⟨attempt, -, -, settleAttempt, settleRecord, outcome, hsettles, hsettled⟩ |
      ⟨-, hsettled⟩
    · rw [hsettled]
      exact hsettles.integratedCommit record
    · rw [hsettled]
      split <;> rfl
  | requestCancellation reason | markRunning attemptId | recordWorker attemptId workerId
  | admission request =>
    rw [Transaction.updates] at hupdates
    rw [hupdates]
  | reserve attempt | failStep id message | recordIntegrationFailure ticket error
  | settleRun cancelled | relaunch stopped | retry =>
    rw [Transaction.updates] at hupdates
    rw [hupdates]
    split <;> rfl

theorem landedAt_apply (happly : transaction.apply now run = .ok next) (hkept : PlanKept run)
    (hunique : (activeStepIds run).Nodup)
    (h : ∀ ticket commit, transaction = .recordIntegration ticket commit → stepId ≠ ticket.stepId) :
    landedAt next stepId = landedAt run stepId := by
  cases hrecord : run.steps.get? stepId with
  | some record =>
    obtain ⟨settled, later, hupdates, hreconciles, hlater⟩ :=
      Transaction.apply_updates happly hkept hunique hrecord
    rw [landedAt_of_record hlater, landedAt_of_record hrecord,
      ← updates_integratedCommit hupdates h, hreconciles.1]
  | none =>
    have hnone : landedAt run stepId = none := by
      rw [landedAt, hrecord]
      rfl
    rw [hnone]
    cases hlater : next.steps.get? stepId with
    | none =>
      rw [landedAt, hlater]
      rfl
    | some later =>
      rcases Transaction.apply_new_record happly hkept hlater with ⟨before, hbefore⟩ | ⟨-, hadmitted⟩
      · rw [hrecord] at hbefore
        cases hbefore
      · rw [landedAt_of_record hlater, hadmitted.1]
        rfl

private theorem find?_contribution {f : WorkflowStepAttempt → WorkflowStepAttempt}
    (hstep : ∀ attempt, (f attempt).stepId = attempt.stepId) {attempts : List WorkflowStepAttempt}
    (hkept : ∀ attempt ∈ attempts, attempt.stepId = stepId →
      (f attempt).state = attempt.state ∧ (f attempt).commit = attempt.commit) :
    (((attempts.map f).find? fun candidate =>
      candidate.stepId = stepId && candidate.state = .succeeded).map fun attempt =>
        present attempt.commit) =
    (attempts.find? fun candidate =>
      candidate.stepId = stepId && candidate.state = .succeeded).map fun attempt =>
        present attempt.commit := by
  induction attempts with
  | nil => rfl
  | cons attempt rest ih =>
    have hrest := ih fun other hother => hkept other (List.mem_cons_of_mem _ hother)
    rw [List.map_cons, List.find?_cons, List.find?_cons, hstep]
    by_cases hid : attempt.stepId = stepId
    · obtain ⟨hstate, hcommit⟩ := hkept attempt (List.mem_cons_self ..) hid
      rw [hstate]
      split
      · rw [Option.map_some, Option.map_some, hcommit]
      · exact hrest
    · simp only [hid, decide_false, Bool.false_and]
      exact hrest

/-- The result of a step without an active attempt is not touched. -/
theorem contribution_apply (happly : transaction.apply now run = .ok next)
    (hwrite : WriteSound run transaction) (htable : AttemptTable run)
    (hidle : stepId ∉ activeStepIds run) : contribution next stepId = contribution run stepId := by
  have hinactive : ∀ attempt ∈ run.attempts, attempt.stepId = stepId →
      attempt.state.isActive = false := by
    intro attempt hattempt hid
    by_contra hactive
    rw [Bool.not_eq_false] at hactive
    exact hidle (mem_activeStepIds_iff.mpr ⟨attempt, hattempt, hactive, hid⟩)
  have hsettles : ∀ attempt ∈ run.attempts, attempt.stepId = stepId →
      ¬ transaction.settlesAttempt run attempt.id := by
    intro attempt hattempt hid hsettled
    have hactive : ∃ stored ∈ run.attempts, stored.id = attempt.id ∧ stored.state.isActive = true := by
      cases transaction with
      | settleStep id other executed routing =>
        obtain ⟨-, stored, hstored, hsame, hactive⟩ := hwrite.settles id other executed routing rfl
        exact ⟨stored, hstored, hsame.id.trans (Eq.symm hsettled), hactive⟩
      | recover decide =>
        obtain ⟨stored, hstored, hsame⟩ := List.mem_map.mp hsettled
        exact ⟨stored, (List.mem_filter.mp hstored).1, hsame, (List.mem_filter.mp hstored).2⟩
      | _ => cases hsettled
    obtain ⟨stored, hstored, hsame, hactive⟩ := hactive
    rw [List.inj_on_of_nodup_map htable.nodup hstored hattempt hsame,
      hinactive attempt hattempt hid] at hactive
    cases hactive
  unfold contribution latestSucceededAttempt
  rw [List.findRev?_eq_find?_reverse, List.findRev?_eq_find?_reverse]
  rcases Transaction.apply_results happly with ⟨attempt, hreserve, -, hattempts⟩ |
    ⟨f, hattempts, hevolves⟩
  · have hactive := hwrite.reserves attempt hreserve
    have hfresh : (decide (attempt.stepId = stepId) && decide (attempt.state = .succeeded)) =
        false := by
      rw [Bool.and_eq_false_iff]
      right
      rw [decide_eq_false_iff_not]
      intro hsucceeded
      rw [hsucceeded] at hactive
      cases hactive
    rw [hattempts, List.reverse_append, List.reverse_singleton, List.singleton_append,
      List.find?_cons_of_neg (by rw [hfresh]; exact Bool.false_ne_true)]
  · have hkept : ∀ attempt ∈ run.attempts, attempt.stepId = stepId →
        (f attempt).state = attempt.state ∧ (f attempt).commit = attempt.commit := by
      intro attempt hattempt hid
      have hnot := hsettles attempt hattempt hid
      refine ⟨((hevolves attempt).kept hnot).resolve_right ?_, ((hevolves attempt).result hnot).commit⟩
      rintro ⟨hmark, -⟩
      have hactive := hwrite.marks attempt.id hmark attempt hattempt rfl
      rw [hinactive attempt hattempt hid] at hactive
      cases hactive
    rw [hattempts, ← List.map_reverse]
    apply find?_contribution fun attempt => (hevolves attempt).same.stepId
    exact fun attempt hattempt => hkept attempt (List.mem_reverse.mp hattempt)

/-- What is integrated has no active attempt. -/
theorem StepsSound.landed_idle {world : World} (h : StepsSound world.run)
    (hconsistent : Consistent sha256Hex world) (hlanded : landedAt world.run stepId ≠ none) :
    stepId ∉ activeStepIds world.run := by
  intro hactive
  obtain ⟨record, hrecord, hopen⟩ := h.unfinished stepId hactive
  rw [landedAt_of_record hrecord] at hlanded
  exact hopen ((hconsistent.record hrecord).succeeded.resolve_left hlanded)

/-- The order of the steps only grows at its end, by steps that are not integrated. -/
private theorem order_apply (happly : transaction.apply now run = .ok next) (hkept : PlanKept run)
    (hlater : PlanKept next) :
    ∃ more, topologicalStepIds next.plan = topologicalStepIds run.plan ++ more ∧
      ∀ stepId ∈ more, run.steps.get? stepId = none := by
  rcases Transaction.apply_plan happly with hplan | ⟨request, -, hgrown⟩
  · exact ⟨[], by rw [hplan, List.append_nil], fun stepId hstepId => by cases hstepId⟩
  · obtain ⟨hsteps, happended⟩ := grownPlan_steps hgrown
    obtain ⟨order, horder, -⟩ := topologicalStepIds_grown hkept hsteps happended
    refine ⟨order, horder, ?_⟩
    intro stepId hstepId
    have hnodup := hlater.nodup_order
    rw [horder, List.nodup_append] at hnodup
    cases hrecord : run.steps.get? stepId with
    | none => rfl
    | some record =>
      exact absurd rfl (hnodup.2.2 stepId (hkept.mem_order_iff.mpr ⟨record, hrecord⟩) stepId hstepId)

/-- A write leaves the note of every step it does not integrate. -/
private theorem integrationNote_apply {world : World}
    (happly : transaction.apply now world.run = .ok next)
    (hconsistent : Consistent sha256Hex world) (hsteps : StepsSound world.run)
    (hwrite : WriteSound world.run transaction)
    (h : ∀ ticket commit, transaction = .recordIntegration ticket commit → stepId ≠ ticket.stepId) :
    integrationNote next stepId = integrationNote world.run stepId := by
  rw [integrationNote, integrationNote,
    landedAt_apply happly hconsistent.kept hconsistent.exclusive.single h]
  cases hcommit : landedAt world.run stepId with
  | none => rfl
  | some commit =>
    have hidle := hsteps.landed_idle hconsistent (by rw [hcommit]; simp)
    rw [contribution_apply happly hwrite hconsistent.tracked.table hidle]

/-- A write other than a recorded integration leaves the notes. -/
theorem integrationNotes_apply {world : World} (happly : transaction.apply now world.run = .ok next)
    (hconsistent : Consistent sha256Hex world) (hsteps : StepsSound world.run)
    (hwrite : WriteSound world.run transaction)
    (hintegrates : ∀ ticket commit, transaction ≠ .recordIntegration ticket commit) :
    integrationNotes next = integrationNotes world.run := by
  have hkept := Transaction.apply_planKept happly hconsistent.kept
  have hnote : ∀ id, integrationNote next id = integrationNote world.run id := by
    intro id
    apply integrationNote_apply happly hconsistent hsteps hwrite
    exact fun ticket commit hintegrate => absurd hintegrate (hintegrates ticket commit)
  obtain ⟨more, horder, hnew⟩ := order_apply happly hconsistent.kept hkept
  have hmore : more.filterMap (integrationNote next) = [] := by
    rw [List.filterMap_eq_nil_iff]
    intro id hid
    rw [hnote, integrationNote, landedAt, hnew id hid]
    rfl
  rw [integrationNotes, horder, List.filterMap_append, hmore, List.append_nil]
  exact List.filterMap_congr fun id _ => hnote id

/-- A recorded integration adds its note at the end. -/
theorem integrationNotes_recorded {world : World} {ticket : IntegrationTicket} {commit : String}
    (happly : (Transaction.recordIntegration ticket commit).apply now world.run = .ok next)
    (hconsistent : Consistent sha256Hex world) (hsteps : StepsSound world.run)
    (hwrite : WriteSound world.run (.recordIntegration ticket commit)) :
    integrationNotes next = integrationNotes world.run ++
      [((contribution world.run ticket.stepId).join, commit)] := by
  have hawaits := hwrite.integrates ticket commit rfl
  obtain ⟨record, hrecord, -, -, hnone⟩ := id hawaits
  obtain ⟨settled, later, hupdates, hreconciles, hlater⟩ :=
    Transaction.apply_updates happly hconsistent.kept hconsistent.exclusive.single hrecord
  obtain ⟨pre, post, horder⟩ :=
    List.append_of_mem (hconsistent.kept.mem_order_iff.mpr ⟨record, hrecord⟩)
  have hplan : next.plan = world.run.plan :=
    (Transaction.apply_plan happly).resolve_right fun ⟨request, hadmission, _⟩ => by cases hadmission
  have hnodup := hconsistent.kept.nodup_order
  rw [horder, List.nodup_append, List.nodup_cons] at hnodup
  have hbefore : integrationNote world.run ticket.stepId = none := by
    rw [integrationNote, landedAt_of_record hrecord, hnone]
    rfl
  have hafter : integrationNote next ticket.stepId =
      some ((contribution world.run ticket.stepId).join, commit) := by
    rw [Transaction.updates, if_pos rfl] at hupdates
    have hidle : ticket.stepId ∉ activeStepIds world.run :=
      fun hactive => hawaits.not_unfinished (hsteps.unfinished _ hactive)
    rw [integrationNote, landedAt_of_record hlater, hreconciles.1, hupdates,
      contribution_apply happly hwrite hconsistent.tracked.table hidle]
    rfl
  have hother : ∀ id, id ≠ ticket.stepId →
      integrationNote next id = integrationNote world.run id := by
    intro id hid
    apply integrationNote_apply happly hconsistent hsteps hwrite
    rintro other _ hintegrate
    cases hintegrate
    exact hid
  have hpre : pre.filterMap (integrationNote next) = pre.filterMap (integrationNote world.run) := by
    apply List.filterMap_congr
    intro id hid
    exact hother id fun heq => hnodup.2.2 id hid id (heq ▸ List.mem_cons_self ..) rfl
  have hpost : ∀ id ∈ post, integrationNote world.run id = none := by
    intro id hid
    rw [integrationNote, hawaits.nothing_after hconsistent horder id hid]
    rfl
  have hpostNext : ∀ id ∈ post, integrationNote next id = none := by
    intro id hid
    rw [hother id fun heq => hnodup.2.1.1 (heq ▸ hid)]
    exact hpost id hid
  rw [integrationNotes, integrationNotes, hplan, horder, List.filterMap_append,
    List.filterMap_append, hpre, List.filterMap_cons_some hafter, List.filterMap_cons_none hbefore,
    List.filterMap_eq_nil_iff.mpr hpost, List.filterMap_eq_nil_iff.mpr hpostNext, List.append_nil]

end Writes

/-! ## The branch -/

/-- What the branch records of a commit: the commit it was picked from, and itself. -/
def BranchCommit.entry (picked : BranchCommit) : String × String := (picked.source, picked.commit)

/-- The note the engine is about to record. -/
def Phase.pendingNotes : Phase → List (Option String × String)
  | .recordingIntegration ticket integratedCommit =>
    [(present ticket.attempt.commit, integratedCommit)]
  | _ => []

def Process.pendingNotes : Process → List (Option String × String)
  | .engine e => e.phase.pendingNotes
  | _ => []

/-- The notes of the run, and the one about to be recorded. -/
def World.notes (world : World) : List (Option String × String) :=
  integrationNotes world.run ++ world.process.pendingNotes

/-- What the engine integrates is what its step contributed, and moves the head. -/
def PhaseLands (run : WorkflowRunState) : Phase → Prop
  | .merging ticket commit => present ticket.attempt.commit = some commit ∧
      contribution run ticket.stepId = some (some commit)
  | .recordingIntegration ticket integratedCommit =>
    contribution run ticket.stepId = some (present ticket.attempt.commit) ∧
      (present ticket.attempt.commit ≠ none → integratedCommit ≠ run.integrationHead)
  | _ => True

/-- The branch is what the notes say, and then what was never noted. Once there is such a commit,
the branch is ahead of the noted head, and nothing more is picked onto it. -/
structure Landed (world : World) (landed lost : List BranchCommit) : Prop where
  branch : world.branch = landed ++ lost
  notes : LinearHistory.Notes world.run.baseCommit world.notes (landed.map BranchCommit.entry)
  ahead : lost ≠ [] → world.branchHead ≠
      LinearHistory.head world.run.baseCommit (landed.map BranchCommit.entry) ∧
    ∀ note ∈ world.process.pendingNotes, note.1 = none

/-- No merge goes unrecorded: the engine does not end, and the store does not refuse the record,
between a merge and its record. -/
def RecordsMerges (world : World) : Action → Prop
  | .refuse (.recordIntegration ticket _) => present ticket.attempt.commit = none
  | .stop => ∀ note ∈ world.process.pendingNotes, note.1 = none
  | _ => True

/-- What one step does to the branch and its notes. -/
inductive HistoryStep (world : World) (action : Action) (later : World) : Prop
  | same : later.branch = world.branch → later.notes = world.notes →
      (∀ note ∈ later.process.pendingNotes, note ∈ world.process.pendingNotes) →
      HistoryStep world action later
  | dropped {note} : world.process.pendingNotes = [note] → later.process.pendingNotes = [] →
      later.branch = world.branch → integrationNotes later.run = integrationNotes world.run →
      (note.1 ≠ none → note.2 ≠ world.run.integrationHead) →
      (RecordsMerges world action → note.1 = none) →
      HistoryStep world action later
  | kept : world.process.pendingNotes = [] →
      later.process.pendingNotes = [(none, world.run.integrationHead)] →
      later.branch = world.branch → integrationNotes later.run = integrationNotes world.run →
      HistoryStep world action later
  | picked {source commit} : world.process.pendingNotes = [] →
      later.process.pendingNotes = [(some source, commit)] →
      later.branch = world.branch ++ [⟨source, commit⟩] →
      integrationNotes later.run = integrationNotes world.run →
      world.branchHead = world.run.integrationHead →
      HistoryStep world action later

section Branch

variable {sha256Hex : String → String} {world later : World} {action : Action}
  {landed lost : List BranchCommit}

theorem branchHead_eq (world : World) :
    world.branchHead =
      LinearHistory.head world.run.baseCommit (world.branch.map BranchCommit.entry) := by
  rw [World.branchHead, LinearHistory.head, List.map_map, List.getLastD_eq_getLast?,
    List.getLast?_map]
  rfl

/-- While nothing is about to be recorded, the noted head is the integration head. -/
theorem Landed.noted_head (h : Landed world landed lost) (hconsistent : Consistent sha256Hex world)
    (hnone : world.process.pendingNotes = []) :
    LinearHistory.head world.run.baseCommit (landed.map BranchCommit.entry) =
      world.run.integrationHead := by
  have hnotes := h.notes
  rw [World.notes, hnone, List.append_nil] at hnotes
  rw [← hnotes.head_eq, hconsistent.notes_head]

/-- One step keeps a branch its notes describe. -/
theorem Landed.step (h : Landed world landed lost) (hconsistent : Consistent sha256Hex world)
    (hbase : later.run.baseCommit = world.run.baseCommit)
    (hstep : HistoryStep world action later) :
    ∃ landed' lost', Landed later landed' lost' ∧
      (RecordsMerges world action → lost = [] → lost' = []) := by
  have hhead : later.branch = world.branch → later.branchHead = world.branchHead := by
    intro hbranch
    rw [branchHead_eq, branchHead_eq, hbranch, hbase]
  have hnotes := h.notes
  cases hstep with
  | same hbranch hsame hpending =>
    refine ⟨landed, lost, ⟨hbranch.trans h.branch, ?_, ?_⟩, fun _ => id⟩
    · rw [hbase, hsame]
      exact hnotes
    · intro hlost
      rw [hhead hbranch, hbase]
      exact ⟨(h.ahead hlost).1, fun note hnote => (h.ahead hlost).2 note (hpending note hnote)⟩
  | @dropped note hpending hnone hbranch hsame hmoves hrecords =>
    obtain ⟨source, commit⟩ := note
    have hlater : later.notes = integrationNotes world.run := by
      rw [World.notes, hnone, hsame, List.append_nil]
    rw [World.notes, hpending] at hnotes
    cases source with
    | none =>
      refine ⟨landed, lost, ⟨hbranch.trans h.branch, ?_, ?_⟩, fun _ => id⟩
      · rw [hbase, hlater]
        exact hnotes.of_kept.1
      · intro hlost
        rw [hhead hbranch, hbase, hnone]
        exact ⟨(h.ahead hlost).1, fun note hnote => by cases hnote⟩
    | some source =>
      have hlost : lost = [] := by
        by_contra hlost
        have hpicked := (h.ahead hlost).2 (some source, commit) (by rw [hpending]; exact .head _)
        cases hpicked
      obtain ⟨before, hlanded, hbefore⟩ := hnotes.of_appended
      obtain ⟨landed', last, rfl, rfl, hlast⟩ := List.map_eq_append_iff.mp hlanded
      refine ⟨landed', last, ⟨?_, ?_, ?_⟩, ?_⟩
      · rw [hbranch, h.branch, hlost, List.append_nil]
      · rw [hbase, hlater]
        exact hbefore
      · intro _
        rw [hhead hbranch, branchHead_eq, h.branch, hlost, List.append_nil, hlanded,
          LinearHistory.head_append, hbase, hnone, ← hbefore.head_eq, hconsistent.notes_head]
        exact ⟨hmoves (by simp), fun note hnote => by cases hnote⟩
      · intro hallowed
        cases hrecords hallowed
  | kept hpending hlater hbranch hsame =>
    have hnoted := h.noted_head hconsistent hpending
    refine ⟨landed, lost, ⟨hbranch.trans h.branch, ?_, ?_⟩, fun _ => id⟩
    · rw [World.notes, hpending, List.append_nil] at hnotes
      rw [World.notes, hlater, hsame, hbase, ← hnoted]
      exact hnotes.kept
    · intro hlost
      rw [hhead hbranch, hbase, hlater]
      refine ⟨(h.ahead hlost).1, ?_⟩
      intro note hnote
      rw [List.mem_singleton.mp hnote]
  | @picked source commit hpending hlater hbranch hsame hcurrent =>
    have hnoted := h.noted_head hconsistent hpending
    have hlost : lost = [] := by
      by_contra hlost
      exact (h.ahead hlost).1 (hcurrent.trans hnoted.symm)
    refine ⟨landed ++ [⟨source, commit⟩], [], ⟨?_, ?_, ?_⟩, fun _ _ => rfl⟩
    · rw [hbranch, h.branch, hlost, List.append_nil, List.append_nil]
    · rw [World.notes, hpending, List.append_nil] at hnotes
      rw [World.notes, hlater, hsame, hbase, List.map_append]
      exact hnotes.appended source commit
    · exact fun hlost => absurd rfl hlost

end Branch

/-! ## Runs -/

section Runs

variable {sha256Hex : String → String} {world later : World} {action : Action}
  {transaction : Transaction}

private theorem writeSound_of_cancels {run : WorkflowRunState} (h : transaction.cancels) :
    WriteSound run transaction := by
  constructor <;> intros <;> subst transaction <;> exact absurd h (by simp [Transaction.cancels])

/-- A write that integrates nothing keeps what the engine is about to land. -/
private theorem PhaseLands.write {next : WorkflowRunState} {now : Timestamp}
    {active : List ActiveStep} {phase : Phase} (h : PhaseLands world.run phase)
    (hsound : PhaseSound world.run active phase) (hsteps : StepsSound world.run)
    (hconsistent : Consistent sha256Hex world) (hwrite : WriteSound world.run transaction)
    (happly : transaction.apply now world.run = .ok next)
    (hintegrates : ∀ ticket commit, transaction ≠ .recordIntegration ticket commit) :
    PhaseLands next phase := by
  have hcontribution : ∀ stepId, AwaitsMerge world.run stepId →
      contribution next stepId = contribution world.run stepId := by
    intro stepId hawaits
    apply contribution_apply happly hwrite hconsistent.tracked.table
    exact fun hactive => hawaits.not_unfinished (hsteps.unfinished stepId hactive)
  cases phase with
  | merging ticket commit =>
    obtain ⟨hcommit, hsource⟩ := h
    exact ⟨hcommit, (hcontribution _ hsound.1).trans hsource⟩
  | recordingIntegration ticket commit =>
    obtain ⟨hsource, hmoves⟩ := h
    refine ⟨(hcontribution _ hsound).trans hsource, ?_⟩
    rw [Transaction.apply_integrationHead happly hintegrates]
    exact hmoves
  | _ => trivial

private theorem phaseLands_loadPending (run : WorkflowRunState) :
    PhaseLands run (loadPending run) := by
  rcases loadPending_cases run with ⟨hphase, -⟩ | ⟨stepId, -, -, ⟨hphase, -⟩ |
    ⟨attempt, hattempt, ⟨commit, hcommit, hphase⟩ | ⟨hnone, hphase⟩⟩⟩
  · rw [hphase]
    trivial
  · rw [hphase]
    trivial
  · rw [hphase]
    refine ⟨hcommit, ?_⟩
    rw [contribution, hattempt, Option.map_some, hcommit]
  · rw [hphase]
    refine ⟨?_, fun hsome => absurd hnone hsome⟩
    rw [contribution, hattempt, Option.map_some]

/-- Every step keeps what the engine is about to land. -/
private theorem phaseLands_step {accepts : WorkflowRunState → Prop} (hsound : Sound world)
    (hconsistent : Consistent sha256Hex world) (hstep : Step accepts world action later)
    (h : ∀ e, world.process = .engine e → PhaseLands world.run e.phase) :
    ∀ e, later.process = .engine e → PhaseLands later.run e.phase := by
  apply hstep.engine_rule (P := fun run e => PhaseLands run e.phase) h
  · trivial
  · rintro transaction now e e' hprocess hissues happly rfl
    have hwrite := hsound.write hconsistent.tracked hstep
    have hphase := hsound.phase e hprocess
    have hkept : (∀ ticket commit, transaction ≠ .recordIntegration ticket commit) →
        PhaseLands later.run e.phase :=
      (h e hprocess).write hphase hsound.steps hconsistent hwrite happly
    generalize hlater : Process.engine e' = process at hissues
    cases hissues with
    | recordWorker _ | admission | settleStep _ =>
      cases hlater
      exact hkept (by simp)
    | settleRun _ => cases hlater
    | _ =>
      cases hlater
      trivial
  · intro transaction now e hprocess hcancels happly
    apply (h e hprocess).write (hsound.phase e hprocess) hsound.steps hconsistent
      (writeSound_of_cancels hcancels) happly
    rintro ticket commit rfl
    exact hcancels
  · intro transaction e e' hprocess hrefuses
    have hphase := h e hprocess
    generalize hlater : Process.engine e' = process at hrefuses
    cases hrefuses with
    | recordWorker _ | admission | settleStep _ =>
      cases hlater
      exact hphase
    | _ =>
      cases hlater
      trivial
  · intro e e' branch' hprocess hmove
    have hphase := h e hprocess
    cases hmove with
    | load _ => exact phaseLands_loadPending world.run
    | merged hmerging hcurrent hne hhead hfresh =>
      have hcommit := hsound.phase e hprocess
      rw [hmerging] at hphase hcommit
      refine ⟨hphase.2.trans (congrArg some hphase.1.symm), fun _ => ?_⟩
      rw [← hcommit.2, ← hcurrent]
      exact hhead
    | dispatch _ =>
      rcases dispatchPhase_cases e.aborted _ world.run with hdispatch | ⟨hdispatch, -⟩
      · rw [hdispatch]
        trivial
      · rw [hdispatch]
        trivial
    | launch _ =>
      rcases launchPhase_cases world.run _ _ with ⟨ticket, -, hlaunch⟩ | hlaunch
      · rw [hlaunch]
        trivial
      · rw [hlaunch]
        trivial
    | abort => exact hphase
    | _ => trivial

/-- Only a recorded integration takes the note it is about. -/
private theorem pendingNotes_issues {before after : WorkflowRunState} {now : Timestamp}
    {process process' : Process} (hissues : Issues now before after process transaction process')
    (hintegrates : ∀ ticket commit, transaction ≠ .recordIntegration ticket commit) :
    process'.pendingNotes = process.pendingNotes := by
  cases hissues with
  | recordIntegration _ => exact absurd rfl (hintegrates _ _)
  | recordWorker _ | admission | settleStep _ | relaunch => rfl
  | recover _ =>
    unfold afterRecovery
    split
    · rfl
    · split <;> rfl
  | retry => split <;> rfl
  | reserved hphase _ | notReserved hphase _ | markRunning hphase | failLaunch hphase
  | failUnrecorded hphase | recordIntegrationFailure hphase | settleRun hphase =>
    simp only [Process.pendingNotes, Phase.pendingNotes, hphase]

/-- What a process is about to record is one note, which moves the head if it was picked. -/
private theorem pendingNotes_cases
    (hlands : ∀ e, world.process = .engine e → PhaseLands world.run e.phase) :
    world.process.pendingNotes = [] ∨ ∃ note, world.process.pendingNotes = [note] ∧
      (note.1 ≠ none → note.2 ≠ world.run.integrationHead) := by
  cases hprocess : world.process with
  | engine e =>
    have hphase := hlands e hprocess
    rw [Process.pendingNotes]
    cases hcurrent : e.phase with
    | recordingIntegration ticket commit =>
      rw [hcurrent] at hphase
      exact Or.inr ⟨_, rfl, hphase.2⟩
    | _ => exact Or.inl rfl
  | _ => exact Or.inl rfl

/-- Every step does one of the few things to the branch and its notes. -/
private theorem historyStep {accepts : WorkflowRunState → Prop} (hsound : Sound world)
    (hconsistent : Consistent sha256Hex world)
    (hlands : ∀ e, world.process = .engine e → PhaseLands world.run e.phase)
    (hstep : Step accepts world action later) : HistoryStep world action later := by
  have hsame : later.branch = world.branch →
      integrationNotes later.run = integrationNotes world.run →
      later.process.pendingNotes = world.process.pendingNotes → HistoryStep world action later := by
    intro hbranch hnotes hpending
    refine .same hbranch ?_ ?_
    · rw [World.notes, World.notes, hnotes, hpending]
    · intro note hnote
      rw [← hpending]
      exact hnote
  have hstopped : later.branch = world.branch → later.run = world.run → later.process = .idle →
      action = .stop → HistoryStep world action later := by
    rintro hbranch hrun hidle rfl
    rcases pendingNotes_cases hlands with hnone | ⟨note, hnote, hmoves⟩
    · apply hsame hbranch (by rw [hrun])
      rw [hidle, hnone]
      rfl
    · refine .dropped hnote (by rw [hidle]; rfl) hbranch (by rw [hrun]) hmoves ?_
      exact fun hallowed => hallowed note (by rw [hnote]; exact .head _)
  cases hstep with
  | @write transaction next process now hissued happly haccepted =>
    have hwrite := hsound.write hconsistent.tracked (Step.write hissued happly haccepted)
    by_cases hintegrates : ∃ ticket commit, transaction = .recordIntegration ticket commit
    · obtain ⟨ticket, commit, rfl⟩ := hintegrates
      have hnotes := integrationNotes_recorded happly hconsistent hsound.steps hwrite
      generalize hprocess : world.process = before at hissued
      cases hissued with
      | @recordIntegration e _ _ hphase =>
        have hland := hlands e hprocess
        rw [hphase] at hland
        refine .same rfl ?_ fun note hnote => by cases hnote
        rw [World.notes, World.notes, hnotes, hprocess, hland.1]
        simp only [Process.pendingNotes, Phase.pendingNotes, hphase, List.append_nil]
        rfl
    · have hother : ∀ ticket commit, transaction ≠ .recordIntegration ticket commit :=
        fun ticket commit heq => hintegrates ⟨ticket, commit, heq⟩
      exact hsame rfl (integrationNotes_apply happly hconsistent hsound.steps hwrite hother)
        (pendingNotes_issues hissued hother)
  | requestCancellation happly _ =>
    exact hsame rfl (integrationNotes_apply happly hconsistent hsound.steps
      (writeSound_of_cancels trivial) (by simp)) rfl
  | settleCancelled _ happly _ =>
    exact hsame rfl (integrationNotes_apply happly hconsistent hsound.steps
      (writeSound_of_cancels rfl) (by simp)) rfl
  | @refuse transaction process hrefused =>
    generalize hprocess : world.process = before at hrefused
    cases hrefused with
    | @recordIntegration e ticket commit error hphase =>
      have hland := hlands e hprocess
      rw [hphase] at hland
      refine @HistoryStep.dropped _ _ _ (present ticket.attempt.commit, commit) ?_ rfl rfl rfl hland.2 id
      rw [hprocess]
      simp only [Process.pendingNotes, Phase.pendingNotes, hphase]
    | recordWorker _ | admission | settleStep _ | recover | relaunch | retry =>
      exact hsame rfl rfl (congrArg Process.pendingNotes hprocess).symm
    | reserve hphase | markRunning hphase | failLaunch hphase | failUnrecorded hphase
    | recordIntegrationFailure hphase | settleRun hphase =>
      apply hsame rfl rfl
      rw [hprocess]
      simp only [Process.pendingNotes, Phase.pendingNotes, hphase]
  | @move e branch e' hprocess hmove =>
    have hcommit := hsound.phase e hprocess
    have hland := hlands e hprocess
    cases hmove with
    | load hphase =>
      have hnone : world.process.pendingNotes = [] := by
        rw [hprocess]
        simp only [Process.pendingNotes, Phase.pendingNotes, hphase]
      rcases loadPending_cases world.run with ⟨hload, -⟩ | ⟨stepId, -, -, ⟨hload, -⟩ |
        ⟨attempt, -, ⟨commit, -, hload⟩ | ⟨hempty, hload⟩⟩⟩
      · apply hsame rfl rfl
        show (loadPending world.run).pendingNotes = _
        rw [hnone, hload]
        rfl
      · apply hsame rfl rfl
        show (loadPending world.run).pendingNotes = _
        rw [hnone, hload]
        rfl
      · apply hsame rfl rfl
        show (loadPending world.run).pendingNotes = _
        rw [hnone, hload]
        rfl
      · refine .kept hnone ?_ rfl rfl
        simp only [Process.pendingNotes, Phase.pendingNotes, hload, hempty]
    | @merged ticket commit hash hphase hcurrent _ _ _ =>
      rw [hphase] at hcommit hland
      refine .picked ?_ ?_ rfl rfl (hcurrent.trans hcommit.2)
      · rw [hprocess]
        simp only [Process.pendingNotes, Phase.pendingNotes, hphase]
      · simp only [Process.pendingNotes, Phase.pendingNotes, hland.1]
    | @dispatch status hphase =>
      apply hsame rfl rfl
      rw [hprocess]
      rcases dispatchPhase_cases e.aborted status world.run with hdispatch | ⟨hdispatch, -⟩
      · simp only [Process.pendingNotes, Phase.pendingNotes, hphase, hdispatch]
      · simp only [Process.pendingNotes, Phase.pendingNotes, hphase, hdispatch]
    | @launch stepId queue hphase =>
      apply hsame rfl rfl
      rw [hprocess]
      rcases launchPhase_cases world.run stepId queue with ⟨ticket, -, hlaunch⟩ | hlaunch
      · simp only [Process.pendingNotes, Phase.pendingNotes, hphase, hlaunch]
      · simp only [Process.pendingNotes, Phase.pendingNotes, hphase, hlaunch]
    | abort =>
      apply hsame rfl rfl
      rw [hprocess]
      rfl
    | mergeFailed hphase | reload hphase | dispatched hphase | prepared _ hphase _ _
    | prepareFailed hphase | settle hphase _ | wait hphase _ | wake hphase _
    | wakeRejected hphase _ =>
      apply hsame rfl rfl
      rw [hprocess]
      simp only [Process.pendingNotes, Phase.pendingNotes, hphase]
  | dropCanceller _ => exact hsame rfl rfl rfl
  | resume hidle =>
    apply hsame rfl rfl
    rw [hidle]
    rfl
  | assessRetry hidle _ _ =>
    apply hsame rfl rfl
    rw [hidle]
    rfl
  | crash _ => exact hstopped rfl rfl rfl rfl
  | stop _ _ _ => exact hstopped rfl rfl rfl rfl

/-- A step is integrated only at what an attempt of it contributed. -/
private theorem contributed_step {accepts : WorkflowRunState → Prop} (hsound : Sound world)
    (hconsistent : Consistent sha256Hex world)
    (hlands : ∀ e, world.process = .engine e → PhaseLands world.run e.phase)
    (hstep : Step accepts world action later)
    (h : ∀ stepId, landedAt world.run stepId ≠ none → contribution world.run stepId ≠ none) :
    ∀ stepId, landedAt later.run stepId ≠ none → contribution later.run stepId ≠ none := by
  rcases Step.run_cases hstep with hrun | ⟨transaction, now, rfl, happly⟩
  · rw [hrun]
    exact h
  · have hwrite := hsound.write hconsistent.tracked hstep
    have hidle : ∀ stepId, landedAt later.run stepId ≠ none →
        stepId ∉ activeStepIds world.run ∧ contribution world.run stepId ≠ none := by
      intro stepId hlanded
      by_cases hintegrates : ∃ ticket commit,
          transaction = .recordIntegration ticket commit ∧ stepId = ticket.stepId
      · obtain ⟨ticket, commit, rfl, rfl⟩ := hintegrates
        have hawaits := hwrite.integrates ticket commit rfl
        refine ⟨fun hactive => hawaits.not_unfinished (hsound.steps.unfinished _ hactive), ?_⟩
        cases hstep with
        | write hissued _ _ =>
          generalize hprocess : world.process = before at hissued
          cases hissued with
          | recordIntegration hphase =>
            have hland := hlands _ hprocess
            rw [hphase] at hland
            rw [hland.1]
            exact Option.some_ne_none _
      · have hsame := landedAt_apply happly hconsistent.kept hconsistent.exclusive.single
          fun ticket commit hrecord hid => hintegrates ⟨ticket, commit, hrecord, hid⟩
        rw [hsame] at hlanded
        exact ⟨hsound.steps.landed_idle hconsistent hlanded, h stepId hlanded⟩
    intro stepId hlanded
    obtain ⟨hnot, hcontributed⟩ := hidle stepId hlanded
    rw [contribution_apply happly hwrite hconsistent.tracked.table hnot]
    exact hcontributed

private theorem landedAt_of_starts {accepts : WorkflowRunState → Prop}
    (h : Starts PlanValidated accepts world) (stepId : String) : landedAt world.run stepId = none := by
  obtain ⟨input, -, hcreate⟩ := h.input
  have hcreated := createWorkflowRunState_ok hcreate
  cases hrecord : world.run.steps.get? stepId with
  | none =>
    rw [landedAt, hrecord]
    rfl
  | some record =>
    rw [landedAt_of_record hrecord, hcreated.initial (planKept_of_starts h) hrecord]
    rfl

/-- What the engine integrates is what its step contributed, and so was what is integrated. -/
structure Historic (world : World) : Prop where
  lands : ∀ e, world.process = .engine e → PhaseLands world.run e.phase
  contributed : ∀ stepId, landedAt world.run stepId ≠ none → contribution world.run stepId ≠ none

theorem historic_reachable (h : (storedEngine sha256Hex).Reachable world) : Historic world := by
  apply h.invariant
  · intro s hstarts
    constructor
    · intro e hengine
      rw [hstarts.process] at hengine
      cases hengine
      trivial
    · exact fun stepId hlanded => absurd (landedAt_of_starts hstarts stepId) hlanded
  · intro s a t hreach hs hstep
    have hsound := sound_reachable hreach
    have hconsistent := consistent_reachable hreach
    exact ⟨phaseLands_step hsound hconsistent hstep hs.lands,
      contributed_step hsound hconsistent hs.lands hstep hs.contributed⟩

private theorem baseCommit_step {accepts : WorkflowRunState → Prop}
    (hstep : Step accepts world action later) : later.run.baseCommit = world.run.baseCommit := by
  rcases Step.run_cases hstep with hrun | ⟨transaction, now, rfl, happly⟩
  · rw [hrun]
  · exact (Transaction.apply_header happly).baseCommit

private theorem landed_step (hreach : (storedEngine sha256Hex).Reachable world)
    (hstep : (storedEngine sha256Hex).step world action later) {landed lost : List BranchCommit}
    (h : Landed world landed lost) : ∃ landed' lost', Landed later landed' lost' ∧
      (RecordsMerges world action → lost = [] → lost' = []) :=
  h.step (consistent_reachable hreach) (baseCommit_step hstep)
    (historyStep (sound_reachable hreach) (consistent_reachable hreach)
      (historic_reachable hreach).lands hstep)

private theorem landed_of_starts {accepts : WorkflowRunState → Prop}
    (h : Starts PlanValidated accepts world) : Landed world [] [] where
  branch := h.branch
  notes := by
    have hnotes : integrationNotes world.run = [] := by
      rw [integrationNotes, List.filterMap_eq_nil_iff]
      intro stepId _
      rw [integrationNote, landedAt_of_starts h]
      rfl
    rw [World.notes, hnotes, h.process]
    exact .nil
  ahead := fun hlost => absurd rfl hlost

/-- The branch of every reachable world is what its notes say, and then what was never noted. -/
theorem landed_reachable (h : (storedEngine sha256Hex).Reachable world) :
    ∃ landed lost, Landed world landed lost := by
  apply h.invariant
  · exact fun s hstarts => ⟨[], [], landed_of_starts hstarts⟩
  · rintro s a t hreach ⟨landed, lost, hlanded⟩ hstep
    obtain ⟨landed', lost', hlater, -⟩ := landed_step hreach hstep hlanded
    exact ⟨landed', lost', hlater⟩

/-- While every merge is recorded, the notes describe the whole branch. -/
theorem landed_recording (h : ((storedEngine sha256Hex).restrict RecordsMerges).Reachable world) :
    Landed world world.branch [] := by
  have hall : ∃ landed, Landed world landed [] := by
    apply h.invariant
    · exact fun s hstarts => ⟨[], landed_of_starts hstarts⟩
    · rintro s a t hreach ⟨landed, hlanded⟩ ⟨hallowed, hstep⟩
      obtain ⟨landed', lost', hlater, hnone⟩ := landed_step hreach.of_restrict hstep hlanded
      rw [hnone hallowed rfl] at hlater
      exact ⟨landed', hlater⟩
  obtain ⟨landed, hlanded⟩ := hall
  have hbranch := hlanded.branch
  rw [List.append_nil] at hbranch
  rw [hbranch]
  exact hlanded

end Runs

end BuildConductor.Lifecycle
