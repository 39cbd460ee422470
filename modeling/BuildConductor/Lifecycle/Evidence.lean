import BuildConductor.Engine.Finalization
import BuildConductor.Lifecycle.History

/-!
# Evidence of a completed run

The commits finalization recomputes from the step records are those on the integration branch, as
long as no merge went unrecorded. `src/src/engine/finalization.ts:61-93`,
`src/src/engine/engine.ts:575-659`, `src/src/git/git.ts:623-713`.
-/

namespace BuildConductor.Lifecycle

open Base Domain Engine Git Storage Workflows

/-! ## Evidence and notes -/

/-- The commit a piece of evidence names, and the commit it was picked from. -/
def evidenceEntry (evidence : IntegratedCommitEvidence) : String × String :=
  (evidence.sourceCommit, evidence.integratedCommit)

section Evidence

variable {sha256Hex : String → String} {world : World} {stepId : String}
  {record : WorkflowStepRecord}

/-- The attempts a record lists are the attempts of its step. -/
theorem Consistent.succeededAttemptOf_eq (h : Consistent sha256Hex world)
    (hrecord : world.run.steps.get? stepId = some record) :
    succeededAttemptOf world.run record.attemptIds = latestSucceededAttempt world.run stepId := by
  unfold succeededAttemptOf latestSucceededAttempt
  rw [List.findRev?_eq_find?_reverse, List.findRev?_eq_find?_reverse]
  have hsame : ∀ attempt ∈ world.run.attempts.reverse,
      (decide (attempt.id ∈ record.attemptIds) && decide (attempt.state = .succeeded)) =
        (decide (attempt.stepId = stepId) && decide (attempt.state = .succeeded)) := by
    intro attempt hattempt
    congr 1
    rw [decide_eq_decide, h.numbered.ids stepId record hrecord]
    constructor
    · intro hid
      obtain ⟨other, hother, hsame⟩ := List.mem_map.mp hid
      rw [attemptsOf, List.mem_filter, decide_eq_true_eq] at hother
      rw [List.inj_on_of_nodup_map h.tracked.table.nodup (List.mem_reverse.mp hattempt) hother.1
        hsame.symm]
      exact hother.2
    · intro hid
      apply List.mem_map_of_mem
      rw [attemptsOf, List.mem_filter, decide_eq_true_eq]
      exact ⟨List.mem_reverse.mp hattempt, hid⟩
  generalize world.run.attempts.reverse = attempts at hsame
  induction attempts with
  | nil => rfl
  | cons attempt rest ih =>
    rw [List.find?_cons, List.find?_cons, hsame attempt (List.mem_cons_self ..),
      ih fun other hother => hsame other (List.mem_cons_of_mem _ hother)]

/-- The evidence of a step is its note, if a commit was picked. -/
theorem integratedStepEvidence_ok (h : Consistent sha256Hex world) (hhistoric : Historic world)
    (stepId : String) : ∃ evidence, integratedStepEvidence world.run stepId = .ok evidence ∧
      evidence.map evidenceEntry =
        (integrationNote world.run stepId).bind (fun note =>
          note.1.map fun source => (source, note.2)) ∧
      ∀ found, evidence = some found → found.id = stepId := by
  unfold integratedStepEvidence
  cases hrecord : world.run.steps.get? stepId with
  | none =>
    refine ⟨none, rfl, ?_, by simp⟩
    rw [integrationNote, landedAt, hrecord]
    rfl
  | some record =>
    have haccepted := h.record hrecord
    dsimp only
    cases hcommit : record.integratedCommit with
    | none =>
      have hnote : integrationNote world.run stepId = none := by
        rw [integrationNote, landedAt_of_record hrecord, hcommit]
        rfl
      rw [hnote]
      refine ⟨none, ?_, rfl, by simp⟩
      split <;> rfl
    | some commit =>
      have hrequires := haccepted.authorized.resolve_left (by rw [hcommit]; simp)
      have hlanded : landedAt world.run stepId = some commit := by
        rw [landedAt_of_record hrecord, hcommit]
      have hpresent : present (some commit) = some commit := by
        have hne := haccepted.commit_ne
        rw [hcommit] at hne
        simp [present, Option.filter]
        exact fun hempty => hne (by rw [hempty])
      rw [if_neg (by rw [hrequires]; simp), hpresent]
      dsimp only
      rw [h.succeededAttemptOf_eq hrecord]
      have hcontributed := hhistoric.contributed stepId (by rw [hlanded]; simp)
      rw [integrationNote, hlanded, Option.map_some, Option.bind_some]
      unfold contribution at hcontributed ⊢
      cases hattempt : latestSucceededAttempt world.run stepId with
      | none =>
        rw [hattempt] at hcontributed
        exact absurd rfl hcontributed
      | some attempt =>
        refine ⟨_, rfl, ?_, ?_⟩
        · rw [Option.map_map]
          rfl
        · intro found hfound
          obtain ⟨source, -, rfl⟩ := Option.map_eq_some_iff.mp hfound
          rfl

/-- The evidence lists the notes that picked a commit, each of its own step. -/
theorem integratedCommitEvidence_ok (h : Consistent sha256Hex world) (hhistoric : Historic world) :
    ∃ evidence, integratedCommitEvidence world.run = .ok evidence ∧
      evidence.map evidenceEntry = (integrationNotes world.run).filterMap (fun note =>
        note.1.map fun source => (source, note.2)) ∧
      ∀ found ∈ evidence, contribution world.run found.id = some (some found.sourceCommit) ∧
        landedAt world.run found.id = some found.integratedCommit := by
  unfold integratedCommitEvidence integrationNotes
  simp only [bind_ok_iff, mapM_ok_iff]
  rw [List.filterMap_filterMap]
  induction topologicalStepIds world.run.plan with
  | nil => exact ⟨[], ⟨[], .nil, rfl⟩, rfl, fun found hfound => by cases hfound⟩
  | cons stepId rest ih =>
    obtain ⟨evidence, ⟨found, hfound, hevidence⟩, hentries, hsources⟩ := ih
    cases hevidence
    obtain ⟨first, hfirst, hentry, hid⟩ := integratedStepEvidence_ok h hhistoric stepId
    refine ⟨(first :: found).filterMap id, ⟨_, .cons hfirst hfound, rfl⟩, ?_, ?_⟩
    · rw [List.filterMap_cons, List.filterMap_cons, ← hentry, ← hentries]
      cases first <;> rfl
    · intro evidence hmem
      rcases List.mem_filterMap.mp hmem with ⟨other, hother, hsome⟩
      rcases List.mem_cons.mp hother with rfl | hrest
      · rw [id_eq] at hsome
        rw [hsome, Option.map_some] at hentry
        rw [hid evidence hsome]
        unfold integrationNote at hentry
        cases hlanded : landedAt world.run stepId with
        | none =>
          rw [hlanded] at hentry
          cases hentry
        | some commit =>
          rw [hlanded, Option.map_some, Option.bind_some] at hentry
          obtain ⟨source, hsource, hpair⟩ := Option.map_eq_some_iff.mp hentry.symm
          rw [evidenceEntry, Prod.mk.injEq] at hpair
          rw [← hpair.1, ← hpair.2]
          exact ⟨Option.join_eq_some_iff.mp hsource, rfl⟩
      · exact hsources evidence (List.mem_filterMap.mpr ⟨other, hrest, hsome⟩)

end Evidence

/-! ## The chain -/

/-- Git answers about the integration branch of a world, whose commits are made from their sources,
and the user left the base as it was. -/
structure Describes (answers : HistoryAnswers) (world : World) : Prop where
  head : answers.head = world.branchHead
  worktree : answers.isClean = true ∧ answers.currentBranch = world.run.baseBranch ∧
    answers.userHead = world.run.baseCommit
  revisions : answers.revisions.map (fun revision => (revision.hash, revision.parents)) =
    (LinearHistory.linked world.run.baseCommit (world.branch.map (·.commit))).map fun link =>
      (link.1, [link.2])
  mapped : ∀ picked ∈ world.branch, ∀ parent,
    (picked.commit, parent) ∈
      LinearHistory.linked world.run.baseCommit (world.branch.map (·.commit)) →
    answers.verifySourceCommitMapping picked.source picked.commit parent = .ok ()

/-- The evidence of a run lists the commits of the integration branch up to the integration head,
in order and with the commits they were picked from, and passes the check of the history. -/
structure DescribesBranch (world : World) (evidence : List IntegratedCommitEvidence) : Prop where
  recomputed : integratedCommitEvidence world.run = .ok evidence
  commits : evidence.map evidenceEntry = world.branch.map BranchCommit.entry
  head : world.branchHead = world.run.integrationHead
  sources : ∀ found ∈ evidence, contribution world.run found.id = some (some found.sourceCommit) ∧
    landedAt world.run found.id = some found.integratedCommit
  verified : ∀ answers, Describes answers world → ∃ commits,
    verifyMergeReadyHistory answers (mergeReadyHistoryInput world.run evidence) = .ok commits

section Chain

variable {sha256Hex : String → String} {world : World} {evidence : List IntegratedCommitEvidence}

/-- Evidence that lists the branch passes the check of the history. -/
theorem verified_of_describes {answers : HistoryAnswers} (h : Describes answers world)
    (hcommits : evidence.map evidenceEntry = world.branch.map BranchCommit.entry)
    (hhead : world.branchHead = world.run.integrationHead) : ∃ commits,
      verifyMergeReadyHistory answers (mergeReadyHistoryInput world.run evidence) = .ok commits := by
  have hintegrated : evidence.map (·.integratedCommit) = world.branch.map (·.commit) := by
    have hsnd := congrArg (List.map Prod.snd) hcommits
    rw [List.map_map, List.map_map] at hsnd
    exact hsnd
  obtain ⟨commits, hread⟩ : ∃ commits, commits = answers.revisions.map fun revision =>
      GitCommitEvidence.mk revision.hash (revision.parents.headD "") revision.subject := ⟨_, rfl⟩
  have hlinks : commits.map (fun commit => (commit.hash, commit.parent)) =
      LinearHistory.linked world.run.baseCommit (world.branch.map (·.commit)) := by
    have hall := congrArg (List.map fun pair : String × List String => (pair.1, pair.2.headD ""))
      h.revisions
    rw [List.map_map, List.map_map] at hall
    rw [hread, List.map_map]
    refine Eq.trans hall (Eq.trans (List.map_congr_left ?_) (List.map_id _))
    exact fun link _ => rfl
  have hhashes : commits.map (·.hash) = world.branch.map (·.commit) := by
    have hfst := congrArg (List.map Prod.fst) hlinks
    rw [List.map_map, LinearHistory.linked_fst] at hfst
    exact hfst
  have hlength : commits.length = (world.branch.map (·.commit)).length := by
    rw [← hhashes, List.length_map]
  refine ⟨commits, verifyMergeReadyHistory_ok_iff.mpr ⟨h.head.trans hhead, h.worktree, ?_, ?_, ?_, ?_⟩⟩
  · rw [hread, List.forall₂_map_right_iff, List.forall₂_same]
    intro revision hrevision
    have hmem : (revision.hash, revision.parents) ∈
        answers.revisions.map (fun revision => (revision.hash, revision.parents)) :=
      List.mem_map_of_mem hrevision
    rw [h.revisions] at hmem
    obtain ⟨link, -, hlink⟩ := List.mem_map.mp hmem
    rw [Prod.mk.injEq] at hlink
    rw [readRevision_ok_iff, ← hlink.2]
    exact ⟨rfl, rfl, rfl⟩
  · rw [hhashes]
    exact hintegrated.symm
  · have hsnd := congrArg (List.map Prod.snd) hlinks
    rw [List.map_map, LinearHistory.linked_snd, ← hlength] at hsnd
    rw [mergeReadyHistoryInput, hintegrated]
    exact hsnd
  · intro mapping hmapping
    change mapping ∈ evidence.zip commits at hmapping
    obtain ⟨index, hindex, rfl⟩ := List.getElem_of_mem hmapping
    rw [List.length_zip] at hindex
    have hevidence : index < evidence.length := by omega
    rw [List.getElem_zip]
    have hhash : commits[index].hash = evidence[index].integratedCommit := by
      have hget := congrArg (·[index]?) (hhashes.trans hintegrated.symm)
      rw [List.getElem?_map, List.getElem?_map, List.getElem?_eq_getElem (by omega),
        List.getElem?_eq_getElem (by omega), Option.map_some, Option.map_some,
        Option.some.injEq] at hget
      exact hget
    have hpicked : evidenceEntry evidence[index] ∈ world.branch.map BranchCommit.entry := by
      rw [← hcommits]
      exact List.mem_map_of_mem (List.getElem_mem _)
    obtain ⟨picked, hmem, hentry⟩ := List.mem_map.mp hpicked
    obtain ⟨hsource, hcommit⟩ := Prod.mk.inj hentry
    rw [← hsource, ← hcommit]
    apply h.mapped picked hmem
    rw [hcommit, ← hhash, ← hlinks]
    exact List.mem_map_of_mem (List.getElem_mem _)

/-- A completed run has nothing left to record. -/
private theorem no_pending_of_completed (h : (storedEngine sha256Hex).Reachable world)
    (hcompleted : world.run.state = .completed) : world.process.pendingNotes = [] := by
  have hconsistent := consistent_reachable h
  cases hprocess : world.process with
  | engine e =>
    have hphase := (sound_reachable h).phase e hprocess
    rw [Process.pendingNotes]
    cases hcurrent : e.phase with
    | recordingIntegration ticket commit =>
      rw [hcurrent] at hphase
      obtain ⟨record, hrecord, -, hrequires, hnone⟩ := hphase
      obtain ⟨hdefinition, hid⟩ := hconsistent.kept.planned _ record hrecord
      have hdone := (hconsistent.accepted.integration.completed hcompleted _ record hrecord).2
        record.definition (by
          rw [← hid]
          exact definitionOf_eq (nodup_stepIds hconsistent.kept.steps) hdefinition)
      rw [hrequires] at hdone
      exact absurd hnone (hdone.resolve_left Bool.true_eq_false_eq_False)
    | _ => rfl
  | _ => rfl

/-- In a run whose merges are all recorded, the evidence of a completed run describes the
integration branch. -/
theorem evidence_describes_branch
    (h : ((storedEngine sha256Hex).restrict RecordsMerges).Reachable world)
    (hcompleted : world.run.state = .completed) :
    ∃ evidence, DescribesBranch world evidence := by
  have hreach := h.of_restrict
  have hconsistent := consistent_reachable hreach
  have hlanded := landed_recording h
  have hnone := no_pending_of_completed hreach hcompleted
  have hnotes := hlanded.notes
  rw [World.notes, hnone, List.append_nil] at hnotes
  obtain ⟨evidence, hevidence, hentries, hsources⟩ :=
    integratedCommitEvidence_ok hconsistent (historic_reachable hreach)
  have hcommits : evidence.map evidenceEntry = world.branch.map BranchCommit.entry :=
    hentries.trans hnotes.branch_eq.symm
  have hhead : world.branchHead = world.run.integrationHead := by
    rw [branchHead_eq, hlanded.noted_head hconsistent hnone]
  exact ⟨evidence, hevidence, hcommits, hhead, hsources,
    fun answers hanswers => verified_of_describes hanswers hcommits hhead⟩

end Chain

/-! ## A merge that goes unrecorded

One change step. Its commit is merged, but the store does not take the record, so the step counts
as failed. A user retries the run; the new attempt finds nothing to change, and the run completes. -/

/-- The run one write makes of a run, if it goes through. -/
def afterWrite (run : WorkflowRunState) (write : Transaction × Timestamp) : WorkflowRunState :=
  match write.1.apply write.2 run with
  | .ok next => next
  | .error _ => run

def emptyResult (commit : Option String) : StepExecutionResult :=
  ⟨.succeeded none none commit none, clock "2", false, none⟩

/-- The writes up to the merge. -/
def mergeWrites : List (Transaction × Timestamp) :=
  [(.reserve (editAttempt .prepared none), clock "1"),
    (.markRunning "edit-1", clock "1"),
    (.settleStep "edit" (editAttempt .prepared none) (emptyResult (some "c1")) (.ok []), clock "2")]

/-- The second attempt of `edit`. -/
def secondAttempt (state : AttemptState) : WorkflowStepAttempt :=
  smallAttempt "edit-2" "edit" 2 state none

def secondWorkspace : Workspace .mutable "base" where
  path := "/worktrees/edit-2"
  branch := some "task/edit-2"
  path_empty_iff := by decide
  branch_isSome_iff := by decide
  branch_ne_empty := by decide

/-- The writes after a merge that is recorded. -/
def recordWrites : List (Transaction × Timestamp) :=
  [(.recordIntegration editTicket "m1", clock "3"), (.settleRun false, clock "4")]

/-- The writes after a merge whose record is refused. -/
def retryWrites : List (Transaction × Timestamp) :=
  [(.recordIntegrationFailure editTicket "disk full", clock "3"),
    (.settleRun false, clock "3"),
    (.retry, clock "4"),
    (.reserve (secondAttempt .prepared), clock "1"),
    (.markRunning "edit-2", clock "1"),
    (.settleStep "edit" (secondAttempt .prepared) (emptyResult none) (.ok []), clock "2"),
    (.recordIntegration ⟨"edit", secondAttempt .succeeded, "base"⟩ "base", clock "3"),
    (.settleRun false, clock "4")]

/-- The run after the first of some writes. -/
def loneRun (writes : List (Transaction × Timestamp)) : WorkflowRunState :=
  writes.foldl afterWrite (smallRun [editStep])

/-- The engine at work on that run. -/
def loneEngine (writes : List (Transaction × Timestamp)) (phase : Phase) (active : List ActiveStep)
    (branch : List BranchCommit) : World :=
  ⟨loneRun writes, .engine ⟨phase, active, false⟩, 0, branch⟩

/-- That run with nobody working on it. -/
def loneIdle (writes : List (Transaction × Timestamp)) (branch : List BranchCommit) : World :=
  ⟨loneRun writes, .idle, 0, branch⟩

/-- The process does not end between a merge and its record. -/
def NoStopInMerge (world : World) (action : Action) : Prop :=
  action = .stop → ∀ note ∈ world.process.pendingNotes, note.1 = none

section Scenario

variable (sha256Hex : String → String)

private theorem lone_move {allowed : World → Action → Prop} (hallowed : ∀ w, allowed w .move)
    {writes : List (Transaction × Timestamp)} {phase phase' : Phase} {active active' : List ActiveStep}
    {branch branch' : List BranchCommit}
    (h : ((storedEngine sha256Hex).restrict allowed).Reachable (loneEngine writes phase active branch))
    (hmove : Moves (loneRun writes) (loneEngine writes phase active branch).branchHead branch
      ⟨phase, active, false⟩ branch' ⟨phase', active', false⟩) :
    ((storedEngine sha256Hex).restrict allowed).Reachable
      (loneEngine writes phase' active' branch') :=
  h.step ⟨hallowed _, Step.move rfl hmove⟩

private theorem lone_write {allowed : World → Action → Prop}
    (hallowed : ∀ w transaction, allowed w (.write transaction))
    {writes later : List (Transaction × Timestamp)} {process process' : Process}
    {branch : List BranchCommit} {transaction : Transaction} {now : Timestamp}
    (h : ((storedEngine sha256Hex).restrict allowed).Reachable ⟨loneRun writes, process, 0, branch⟩)
    (hissues : Issues now (loneRun writes) (loneRun later) process transaction process')
    (happly : transaction.apply now (loneRun writes) = .ok (loneRun later))
    (haccepted : Accepts sha256Hex (loneRun later)) :
    ((storedEngine sha256Hex).restrict allowed).Reachable ⟨loneRun later, process', 0, branch⟩ :=
  h.step ⟨hallowed _ _, Step.write hissues happly fun _ => haccepted⟩

/-- The commit of the step is merged, and about to be recorded. -/
private theorem merged_reachable :
    ((storedEngine sha256Hex).restrict RecordsMerges).Reachable
      (loneEngine mergeWrites (.recordingIntegration editTicket "m1") [] [⟨"c1", "m1"⟩]) := by
  have hmoves : ∀ w, RecordsMerges w .move := fun _ => trivial
  have hwrites : ∀ w t, RecordsMerges w (.write t) := fun _ _ => trivial
  have hstart : ((storedEngine sha256Hex).restrict RecordsMerges).Reachable
      (loneEngine [] .integrating [] []) :=
    .of_initial
      { input := ⟨smallInput [editStep] 2, ⟨(smallPlan [editStep]).toJson, rfl⟩, rfl⟩
        accepted := rfl, process := rfl, cancellers := rfl, branch := rfl }
  have hqueued : ((storedEngine sha256Hex).restrict RecordsMerges).Reachable
      (loneEngine [] (.dispatching ["edit"]) [] []) :=
    lone_move sha256Hex hmoves (lone_move sha256Hex hmoves hstart (.load rfl))
      (@Moves.dispatch _ _ _ ⟨.returned .running, [], false⟩ .running rfl)
  have hpreparing : ((storedEngine sha256Hex).restrict RecordsMerges).Reachable
      (loneEngine [] (.preparing ⟨"edit", .mutable, 1, "base"⟩ []) [] []) :=
    lone_move sha256Hex hmoves hqueued
      (@Moves.launch _ _ _ ⟨.dispatching ["edit"], [], false⟩ "edit" [] rfl)
  have hreserving : ((storedEngine sha256Hex).restrict RecordsMerges).Reachable
      (loneEngine [] (.reserving (editAttempt .prepared none) []) [] []) :=
    lone_move sha256Hex hmoves hpreparing
      (@Moves.prepared (loneRun []) _ _ ⟨.preparing ⟨"edit", .mutable, 1, "base"⟩ [], [], false⟩
        ⟨"edit", .mutable, 1, "base"⟩ [] "edit-1" (clock "1") editWorkspace rfl (by decide)
        (by decide))
  have hreserved : ((storedEngine sha256Hex).restrict RecordsMerges).Reachable
      (loneEngine (mergeWrites.take 1) (.marking (editAttempt .prepared none) []) [] []) :=
    lone_write sha256Hex hwrites hreserving (.reserved rfl (by decide)) rfl rfl
  have hmarked : ((storedEngine sha256Hex).restrict RecordsMerges).Reachable
      (loneEngine (mergeWrites.take 2) (.dispatching []) [⟨editAttempt .prepared none, .executing⟩]
        []) :=
    lone_write sha256Hex hwrites hreserved (.markRunning rfl) rfl rfl
  have hwaiting : ((storedEngine sha256Hex).restrict RecordsMerges).Reachable
      (loneEngine (mergeWrites.take 2) .waiting [⟨editAttempt .prepared none, .executing⟩] []) :=
    lone_move sha256Hex hmoves (lone_move sha256Hex hmoves hmarked (.dispatched rfl))
      (.wait rfl (List.cons_ne_nil _ _))
  have hsettled : ((storedEngine sha256Hex).restrict RecordsMerges).Reachable
      (loneEngine mergeWrites .waiting [⟨editAttempt .prepared none, .resolved⟩] []) :=
    lone_write sha256Hex hwrites hwaiting (@Issues.settleStep (clock "2") _ _
      ⟨.waiting, _, false⟩ [] [] _ (emptyResult (some "c1")) (.ok []) rfl) rfl rfl
  have hmerging : ((storedEngine sha256Hex).restrict RecordsMerges).Reachable
      (loneEngine mergeWrites (.merging editTicket "c1") [] []) :=
    lone_move sha256Hex hmoves (lone_move sha256Hex hmoves hsettled
      (@Moves.wake _ _ _ _ [] [] _ rfl rfl)) (.load rfl)
  exact lone_move sha256Hex hmoves hmerging
    (@Moves.merged _ _ _ _ editTicket "c1" "m1" rfl rfl (by decide) (by decide) (by decide))

/-- The run can complete with the merge recorded. -/
private theorem recorded_reachable :
    ((storedEngine sha256Hex).restrict RecordsMerges).Reachable
      (loneIdle (mergeWrites ++ recordWrites) [⟨"c1", "m1"⟩]) := by
  have hmoves : ∀ w, RecordsMerges w .move := fun _ => trivial
  have hwrites : ∀ w t, RecordsMerges w (.write t) := fun _ _ => trivial
  have hrecorded : ((storedEngine sha256Hex).restrict RecordsMerges).Reachable
      (loneEngine (mergeWrites ++ recordWrites.take 1) .integrating [] [⟨"c1", "m1"⟩]) :=
    lone_write sha256Hex hwrites (merged_reachable sha256Hex) (.recordIntegration rfl) rfl rfl
  have hdispatching : ((storedEngine sha256Hex).restrict RecordsMerges).Reachable
      (loneEngine (mergeWrites ++ recordWrites.take 1) (.dispatching []) [] [⟨"c1", "m1"⟩]) :=
    lone_move sha256Hex hmoves (lone_move sha256Hex hmoves hrecorded (.load rfl))
      (@Moves.dispatch _ _ _ ⟨.returned .running, [], false⟩ .running rfl)
  have hsettling : ((storedEngine sha256Hex).restrict RecordsMerges).Reachable
      (loneEngine (mergeWrites ++ recordWrites.take 1) (.settling false) [] [⟨"c1", "m1"⟩]) :=
    lone_move sha256Hex hmoves (lone_move sha256Hex hmoves hdispatching (.dispatched rfl))
      (.settle rfl rfl)
  exact lone_write sha256Hex hwrites hsettling (.settleRun rfl) rfl rfl

private theorem noStop_move (w : World) : NoStopInMerge w .move := fun hstop => by cases hstop

private theorem noStop_write (w : World) (transaction : Transaction) :
    NoStopInMerge w (.write transaction) := fun hstop => by cases hstop

/-- The record of the merge can be refused, and the run retried. -/
private theorem retried_reachable :
    ((storedEngine sha256Hex).restrict NoStopInMerge).Reachable
      (loneEngine (mergeWrites ++ retryWrites.take 3) .integrating [] [⟨"c1", "m1"⟩]) := by
  have hmerged : ((storedEngine sha256Hex).restrict NoStopInMerge).Reachable
      (loneEngine mergeWrites (.recordingIntegration editTicket "m1") [] [⟨"c1", "m1"⟩]) := by
    apply (merged_reachable sha256Hex).restrict_mono
    rintro world action hrecords rfl
    exact hrecords
  have hrefused : ((storedEngine sha256Hex).restrict NoStopInMerge).Reachable
      (loneEngine mergeWrites (.failingIntegration editTicket "disk full") [] [⟨"c1", "m1"⟩]) :=
    hmerged.step ⟨fun hstop => (by cases hstop), Step.refuse
      (@Refuses.recordIntegration ⟨.recordingIntegration editTicket "m1", [], false⟩ _ _ _ rfl)⟩
  have hfailed : ((storedEngine sha256Hex).restrict NoStopInMerge).Reachable
      (loneEngine (mergeWrites ++ retryWrites.take 1) .reloading [] [⟨"c1", "m1"⟩]) :=
    lone_write sha256Hex noStop_write hrefused (.recordIntegrationFailure rfl) rfl rfl
  have hdispatched : ((storedEngine sha256Hex).restrict NoStopInMerge).Reachable
      (loneEngine (mergeWrites ++ retryWrites.take 1) .dispatched [] [⟨"c1", "m1"⟩]) :=
    lone_move sha256Hex noStop_move (lone_move sha256Hex noStop_move hfailed (.reload rfl))
      (@Moves.dispatch _ _ _ ⟨.returned .failed, [], false⟩ .failed rfl)
  have hsettled : ((storedEngine sha256Hex).restrict NoStopInMerge).Reachable
      (loneIdle (mergeWrites ++ retryWrites.take 2) [⟨"c1", "m1"⟩]) :=
    lone_write sha256Hex noStop_write (lone_move sha256Hex noStop_move hdispatched (.settle rfl rfl))
      (.settleRun rfl) rfl rfl
  have hassessed : ((storedEngine sha256Hex).restrict NoStopInMerge).Reachable
      ⟨loneRun (mergeWrites ++ retryWrites.take 2), .retrying, 0, [⟨"c1", "m1"⟩]⟩ :=
    hsettled.step ⟨fun hstop => (by cases hstop), Step.assessRetry rfl rfl (by decide)⟩
  exact lone_write sha256Hex noStop_write hassessed .retry rfl rfl

/-- The second attempt can succeed without a commit. -/
private theorem emptied_reachable :
    ((storedEngine sha256Hex).restrict NoStopInMerge).Reachable
      (loneEngine (mergeWrites ++ retryWrites.take 6)
        (.recordingIntegration ⟨"edit", secondAttempt .succeeded, "base"⟩ "base") []
        [⟨"c1", "m1"⟩]) := by
  have hretried := retried_reachable sha256Hex
  have hqueued : ((storedEngine sha256Hex).restrict NoStopInMerge).Reachable
      (loneEngine (mergeWrites ++ retryWrites.take 3) (.dispatching ["edit"]) []
        [⟨"c1", "m1"⟩]) :=
    lone_move sha256Hex noStop_move (lone_move sha256Hex noStop_move hretried (.load rfl))
      (@Moves.dispatch _ _ _ ⟨.returned .running, [], false⟩ .running rfl)
  have hpreparing : ((storedEngine sha256Hex).restrict NoStopInMerge).Reachable
      (loneEngine (mergeWrites ++ retryWrites.take 3) (.preparing ⟨"edit", .mutable, 2, "base"⟩ [])
        [] [⟨"c1", "m1"⟩]) :=
    lone_move sha256Hex noStop_move hqueued
      (@Moves.launch _ _ _ ⟨.dispatching ["edit"], [], false⟩ "edit" [] rfl)
  have hreserving : ((storedEngine sha256Hex).restrict NoStopInMerge).Reachable
      (loneEngine (mergeWrites ++ retryWrites.take 3) (.reserving (secondAttempt .prepared) []) []
        [⟨"c1", "m1"⟩]) :=
    lone_move sha256Hex noStop_move hpreparing
      (@Moves.prepared (loneRun (mergeWrites ++ retryWrites.take 3)) _ _
        ⟨.preparing ⟨"edit", .mutable, 2, "base"⟩ [], [], false⟩ ⟨"edit", .mutable, 2, "base"⟩ []
        "edit-2" (clock "1") secondWorkspace rfl (by decide) (by decide))
  have hreserved : ((storedEngine sha256Hex).restrict NoStopInMerge).Reachable
      (loneEngine (mergeWrites ++ retryWrites.take 4) (.marking (secondAttempt .prepared) []) []
        [⟨"c1", "m1"⟩]) :=
    lone_write sha256Hex noStop_write hreserving (.reserved rfl (by decide)) rfl rfl
  have hmarked : ((storedEngine sha256Hex).restrict NoStopInMerge).Reachable
      (loneEngine (mergeWrites ++ retryWrites.take 5) (.dispatching [])
        [⟨secondAttempt .prepared, .executing⟩] [⟨"c1", "m1"⟩]) :=
    lone_write sha256Hex noStop_write hreserved (.markRunning rfl) rfl rfl
  have hwaiting : ((storedEngine sha256Hex).restrict NoStopInMerge).Reachable
      (loneEngine (mergeWrites ++ retryWrites.take 5) .waiting
        [⟨secondAttempt .prepared, .executing⟩] [⟨"c1", "m1"⟩]) :=
    lone_move sha256Hex noStop_move (lone_move sha256Hex noStop_move hmarked (.dispatched rfl))
      (.wait rfl (List.cons_ne_nil _ _))
  have hsucceeded : ((storedEngine sha256Hex).restrict NoStopInMerge).Reachable
      (loneEngine (mergeWrites ++ retryWrites.take 6) .waiting
        [⟨secondAttempt .prepared, .resolved⟩] [⟨"c1", "m1"⟩]) :=
    lone_write sha256Hex noStop_write hwaiting (@Issues.settleStep (clock "2") _ _
      ⟨.waiting, _, false⟩ [] [] _ (emptyResult none) (.ok []) rfl) rfl rfl
  exact lone_move sha256Hex noStop_move (lone_move sha256Hex noStop_move hsucceeded
    (@Moves.wake _ _ _ _ [] [] _ rfl rfl)) (.load rfl)

/-- Without a crash, the run can complete with the merge unrecorded. -/
private theorem unrecorded_reachable :
    ((storedEngine sha256Hex).restrict NoStopInMerge).Reachable
      (loneIdle (mergeWrites ++ retryWrites) [⟨"c1", "m1"⟩]) := by
  have hrecording := emptied_reachable sha256Hex
  have hrecorded : ((storedEngine sha256Hex).restrict NoStopInMerge).Reachable
      (loneEngine (mergeWrites ++ retryWrites.take 7) .integrating [] [⟨"c1", "m1"⟩]) :=
    lone_write sha256Hex noStop_write hrecording (.recordIntegration rfl) rfl rfl
  have hdispatching : ((storedEngine sha256Hex).restrict NoStopInMerge).Reachable
      (loneEngine (mergeWrites ++ retryWrites.take 7) (.dispatching []) [] [⟨"c1", "m1"⟩]) :=
    lone_move sha256Hex noStop_move (lone_move sha256Hex noStop_move hrecorded (.load rfl))
      (@Moves.dispatch _ _ _ ⟨.returned .running, [], false⟩ .running rfl)
  have hsettling : ((storedEngine sha256Hex).restrict NoStopInMerge).Reachable
      (loneEngine (mergeWrites ++ retryWrites.take 7) (.settling false) [] [⟨"c1", "m1"⟩]) :=
    lone_move sha256Hex noStop_move (lone_move sha256Hex noStop_move hdispatching (.dispatched rfl))
      (.settle rfl rfl)
  exact lone_write sha256Hex noStop_write hsettling (.settleRun rfl) rfl rfl

end Scenario

theorem evidence_describes_branch_recorded :
    ∃ evidence, DescribesBranch (loneIdle (mergeWrites ++ recordWrites) [⟨"c1", "m1"⟩]) evidence :=
  evidence_describes_branch (recorded_reachable id) rfl

/-- What git answers about the branch with the unrecorded merge. -/
def unrecordedAnswers : HistoryAnswers where
  head := "m1"
  isClean := true
  currentBranch := "main"
  userHead := "base"
  revisions := [⟨"m1", ["base"], "edit"⟩]
  verifySourceCommitMapping := fun _ _ _ => .ok ()

/-- Without a crash in a merge, a completed run may still be refused for the commits on its branch. -/
theorem evidence_misses_merge : ¬ ∀ (sha256Hex : String → String) (world : World),
    ((storedEngine sha256Hex).restrict NoStopInMerge).Reachable world →
    world.run.state = .completed → ∃ evidence, integratedCommitEvidence world.run = .ok evidence ∧
      ∀ answers, Describes answers world → ∃ commits,
        verifyMergeReadyHistory answers (mergeReadyHistoryInput world.run evidence) = .ok commits := by
  intro h
  obtain ⟨evidence, -, hverified⟩ := h id _ (unrecorded_reachable id) rfl
  have hdescribes : Describes unrecordedAnswers
      (loneIdle (mergeWrites ++ retryWrites) [⟨"c1", "m1"⟩]) :=
    ⟨rfl, ⟨rfl, rfl, rfl⟩, rfl, fun _ _ _ _ => rfl⟩
  obtain ⟨commits, hcommits⟩ := hverified unrecordedAnswers hdescribes
  have hhead : "m1" = "base" := (verifyMergeReadyHistory_ok_iff.mp hcommits).1
  exact absurd hhead (by decide)

end BuildConductor.Lifecycle
