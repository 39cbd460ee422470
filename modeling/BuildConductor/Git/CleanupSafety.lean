import BuildConductor.Git.Cleanup
import Mathlib.Logic.Relation

/-!
# Cleanup loses no work

Every run of the two cleanup passes is a sequence of safe steps, whatever the run, its worktrees and
its branches are, and whether the pass returns or fails; so commits stay reachable.
`src/src/git/worktrees.ts:344-658`.
-/

namespace BuildConductor.Git

open Base Domain WorktreeManager

/-! ## Safe steps -/

/-- What a cleanup does to a repository. -/
inductive CleanupAction
  | removeWorktree (target : String)
  | removeScratchDirectory (directory : String)
  | pruneEntries
  | deleteBranch (name : String)

/-- What a cleanup may do: remove a worktree that is clean or an integration scratch, remove a
scratch directory, prune entries, and delete a branch of the run that is checked out nowhere, is not
its integration branch, and is at a recorded starting point. -/
def cleanup (manager : WorktreeManager) (run : OrchestrationRun) :
    TransitionSystem RepositoryState CleanupAction where
  initial := fun _ => True
  step := fun state action next =>
    match action with
    | .removeWorktree target =>
      (manager.isIntegrationScratch run target = true ∨ manager.machine.status target = .ok "") ∧
        next = state.withoutWorktree manager.machine target
    | .removeScratchDirectory directory =>
      startsWith directory (manager.integrationScratch run) = true ∧
        next = (removeDirectory manager.machine directory state).2
    | .pruneEntries => next = (pruneWorktrees state).2
    | .deleteBranch name =>
      startsWith name (branchesOf run) = true ∧ name ≠ run.integrationBranch ∧
        (∀ worktree ∈ state.worktrees, worktree.branch ≠ some name) ∧
        (∃ head ∈ safeStartPoints run, state.branches.get? name = some head) ∧
        next = { state with branches := state.branches.erase name }

/-! ## Commands -/

/-- A worktree is removed when it is clean or the removal is forced. -/
theorem removeWorktree_cases (machine : Machine) (path : String) (force : Bool)
    (state : RepositoryState) :
    (removeWorktree machine path force state).2 = state ∨
      (force = true ∨ machine.status path = .ok "") ∧
        (removeWorktree machine path force state).2 = state.withoutWorktree machine path := by
  unfold removeWorktree
  simp only [bind, Effect.lift, ensure]
  by_cases hrefuses : machine.refusesRemoval path = false
  · rw [if_pos hrefuses]
    cases force with
    | true => exact .inr ⟨.inl rfl, rfl⟩
    | false =>
      cases hstatus : machine.status path with
      | error message => exact .inl rfl
      | ok status =>
        by_cases hclean : status = ""
        · subst hclean
          exact .inr ⟨.inr rfl, rfl⟩
        · simp only [Bool.false_eq_true, ↓reduceIte, if_neg hclean]
          exact .inl trivial
  · rw [if_neg hrefuses]
    exact .inl rfl

/-- A branch is deleted only while it is at the expected head. -/
theorem deleteBranch_cases (machine : Machine) (branch expectedHead : String)
    (state : RepositoryState) :
    (deleteBranch machine branch expectedHead state).2 = state ∨
      state.branches.get? branch = some expectedHead ∧
        (deleteBranch machine branch expectedHead state).2 =
          { state with branches := state.branches.erase branch } := by
  unfold deleteBranch
  simp only [bind, Effect.read, Effect.lift, ensure]
  by_cases hhead : state.branches.get? branch = some expectedHead
  · rw [if_pos hhead]
    by_cases hrefuses : machine.refusesDeletion branch = false
    · rw [if_pos hrefuses]
      exact .inr ⟨hhead, rfl⟩
    · rw [if_neg hrefuses]
      exact .inl rfl
  · rw [if_neg hhead]
    exact .inl rfl

section

variable {manager : WorktreeManager} {run : OrchestrationRun} {I : RepositoryState → Prop}

private theorem keeps_removeWorktree {target : String} {force : Bool}
    (hscratch : force = true → manager.isIntegrationScratch run target = true)
    (hkept : ∀ state, I state → I (state.withoutWorktree manager.machine target)) :
    Keeps (cleanup manager run) I (removeWorktree manager.machine target force) := by
  apply Keeps.of_step
  intro state hstate
  rcases removeWorktree_cases manager.machine target force state with hsame | ⟨hguard, hnext⟩
  · exact .inl hsame
  · rw [hnext]
    exact .inr ⟨⟨.removeWorktree target, hguard.imp_left hscratch, rfl⟩, hkept state hstate⟩

/-- A clean worktree may go, whatever the report says. -/
private theorem keeps_removeClean {target : String} (isExpected : Bool)
    (report : ResourceReconciliationReport) :
    Keeps (cleanup manager run) (fun _ => True) (manager.removeClean target isExpected report) := by
  unfold removeClean
  apply (Keeps.lift _).bind
  intro status
  split
  · exact Keeps.pure _
  · split
    · unfold removeReported
      have hremove : Keeps (cleanup manager run) (fun _ => True)
          (removeWorktree manager.machine target false) :=
        keeps_removeWorktree nofun fun _ _ => trivial
      apply hremove.attempt.bind
      intro removed
      split
      · exact Keeps.pure _
      · exact Keeps.pure _
    · exact Keeps.pure _

private theorem keeps_reconcileWorktree (report : ResourceReconciliationReport)
    (worktree : GitWorktreeInfo) :
    Keeps (cleanup manager run) (fun _ => True)
      (manager.reconcileWorktree run report worktree) := by
  unfold reconcileWorktree
  dsimp only
  split
  · next hscratch =>
    have hdirectory := hscratch
    unfold isIntegrationScratch at hdirectory
    rw [Bool.and_eq_true] at hdirectory
    apply (keeps_removeWorktree (fun _ => hscratch) fun _ _ => trivial).bind
    intro _
    have hremove : Keeps (cleanup manager run) (fun _ => True)
        (removeDirectory manager.machine (dirname (manager.machine.resolve worktree.path))) :=
      Keeps.of_step fun _ _ => .inr ⟨⟨.removeScratchDirectory _, hdirectory.2, rfl⟩, trivial⟩
    exact hremove.bind fun _ => Keeps.pure _
  · split
    · exact Keeps.pure _
    · split
      · exact Keeps.pure _
      · exact keeps_removeClean _ report

private theorem keeps_pruneWorktree (report : ResourceReconciliationReport)
    (worktree : GitWorktreeInfo) :
    Keeps (cleanup manager run) (fun _ => True)
      (manager.pruneWorktree run report worktree) := by
  unfold pruneWorktree
  dsimp only
  split
  · split
    · exact Keeps.pure _
    · exact keeps_removeClean _ report
  · exact Keeps.pure _

private theorem keeps_pruneWorktrees :
    Keeps (cleanup manager run) (fun _ => True) pruneWorktrees :=
  Keeps.of_step fun _ _ => .inr ⟨⟨.pruneEntries, rfl⟩, trivial⟩

/-! ## Branches -/

variable {remaining : List GitWorktreeInfo}

/-- A branch of the run that is checked out nowhere may go while it is at a starting point. -/
private theorem keeps_deleteReported {branch head : String}
    (howned : startsWith branch (branchesOf run) = true) (hname : branch ≠ run.integrationBranch)
    (hfree : branch ∉ checkedOutBranches remaining) (hhead : head ∈ safeStartPoints run)
    (report : ResourceReconciliationReport) :
    Keeps (cleanup manager run) (fun state => state.worktrees = remaining)
      (manager.deleteReported branch head report) := by
  have hdelete : Keeps (cleanup manager run) (fun state => state.worktrees = remaining)
      (deleteBranch manager.machine branch head) := by
    apply Keeps.of_step
    intro state hstate
    rcases deleteBranch_cases manager.machine branch head state with hsame | ⟨hat, hnext⟩
    · exact .inl hsame
    · rw [hnext]
      refine .inr ⟨⟨.deleteBranch branch, howned, hname, ?_, ⟨head, hhead, hat⟩, rfl⟩, hstate⟩
      intro worktree hworktree hbranch
      rw [hstate] at hworktree
      exact hfree (List.mem_filterMap.mpr ⟨worktree, hworktree, hbranch⟩)
  unfold deleteReported
  apply hdelete.attempt.bind
  intro deleted
  split
  · exact Keeps.pure _
  · exact Keeps.pure _

private theorem keeps_reconcileBranch {branch : String × String}
    (howned : startsWith branch.1 (branchesOf run) = true)
    (report : ResourceReconciliationReport) :
    Keeps (cleanup manager run) (fun state => state.worktrees = remaining)
      (manager.reconcileBranch run (checkedOutBranches remaining) report branch) := by
  unfold reconcileBranch
  split
  · exact Keeps.pure _
  · next hfree =>
    rw [not_or, not_or] at hfree
    split
    · exact Keeps.pure _
    · next hhead =>
      exact keeps_deleteReported howned hfree.1 hfree.2.2 (not_not.mp hhead) report

/-- The heads the second pass deletes are recorded starting points. -/
theorem deletableBranchHeads_safe {branch head : String}
    (h : (deletableBranchHeads run).get? branch = some head) : head ∈ safeStartPoints run := by
  have hmem := OrderedRecord.mem_of_get?_ofList h
  unfold safeStartPoints
  simp only [List.mem_append, List.mem_map, List.mem_filterMap, List.mem_filter, Prod.mk.injEq,
    Option.map_eq_some_iff] at hmem
  rcases hmem with (⟨attempt, ⟨hattempt, -⟩, -, rfl⟩ | ⟨attempt, hattempt, _, -, -, rfl⟩) |
    ⟨attempt, ⟨hattempt, -⟩, -, rfl⟩
  · simp only [List.mem_append, List.mem_cons, List.mem_map]
    exact .inl (.inl (.inr ⟨attempt, hattempt, rfl⟩))
  · simp only [List.mem_append, List.mem_cons, List.mem_map]
    exact .inl (.inr ⟨attempt, hattempt, rfl⟩)
  · simp only [List.mem_append, List.mem_cons, List.mem_map]
    exact .inr ⟨attempt, hattempt, rfl⟩

private theorem keeps_pruneBranch {branch : String × String}
    (howned : startsWith branch.1 (branchesOf run) = true)
    (report : ResourceReconciliationReport) :
    Keeps (cleanup manager run) (fun state => state.worktrees = remaining)
      (manager.pruneBranch run (checkedOutBranches remaining) report branch) := by
  unfold pruneBranch
  split
  · exact Keeps.pure _
  · next hfree =>
    rw [not_or] at hfree
    split
    · exact Keeps.pure _
    · next head hhead =>
      unfold expectedHead? at hhead
      rw [Option.filter_eq_some_iff] at hhead
      split
      · exact Keeps.pure _
      · exact keeps_deleteReported howned hfree.1 hfree.2 (deletableBranchHeads_safe hhead.1) report

/-! ## The passes -/

/-- What both passes do once the worktrees are gone through: the branches of a listing are visited
while the worktrees stay as they are. -/
private theorem along_branches {β : Type}
    {visit : List GitWorktreeInfo → List (String × String) → GitCommand β}
    (hvisit : ∀ remaining branches,
      (∀ branch ∈ branches, startsWith branch.1 (branchesOf run) = true) →
      Keeps (cleanup manager run) (fun state => state.worktrees = remaining)
        (visit remaining branches)) :
    Along (cleanup manager run) (fun _ => True) (do
      pruneWorktrees
      let remaining ← Effect.read (·.worktrees)
      let branches ← Effect.read (·.listBranches (branchesOf run))
      visit remaining branches) := by
  refine Along.bind keeps_pruneWorktrees fun _ => Along.read fun remaining =>
    Along.read fun branches => ?_
  intro state hstate
  obtain ⟨⟨-, hremaining⟩, hbranches⟩ := hstate
  apply (hvisit remaining branches ?_).along state hremaining
  intro branch hbranch
  rw [← hbranches, RepositoryState.listBranches, List.mem_filter] at hbranch
  exact hbranch.2

/-- The first pass makes safe steps only. -/
theorem reconcileRunResources_along :
    Along (cleanup manager run) (fun _ => True) (manager.reconcileRunResources run) := by
  unfold reconcileRunResources
  refine Along.bind (Keeps.read _) fun worktrees => ?_
  refine Along.bind (Keeps.foldlM (fun worktree _ report => keeps_reconcileWorktree report worktree)
    _) fun report => ?_
  apply along_branches
  intro remaining branches howned
  exact Keeps.foldlM
    (fun branch hbranch report => keeps_reconcileBranch (howned branch hbranch) report) report

/-- The second pass makes safe steps only. -/
theorem pruneRunResources_along :
    Along (cleanup manager run) (fun _ => True) (manager.pruneRunResources run) := by
  unfold pruneRunResources
  refine Along.bind (Keeps.lift _) fun _ => ?_
  refine Along.bind (fun state hstate => ⟨reconcileRunResources_along state hstate, trivial⟩)
    fun orphanReport => ?_
  refine Along.bind (Keeps.read _) fun worktrees => ?_
  refine Along.bind (Keeps.foldlM (fun worktree _ report => keeps_pruneWorktree report worktree) _)
    fun report => ?_
  apply along_branches
  intro remaining branches howned
  exact (Keeps.foldlM (fun branch hbranch report =>
    keeps_pruneBranch (howned branch hbranch) report) report).bind fun _ => Keeps.pure _

end

/-! ## What a whole cleanup leaves -/

/-- A commit some branch leads to. -/
def Reachable (parent : String → String → Prop) (state : RepositoryState) (commit : String) : Prop :=
  ∃ name head, state.branches.get? name = some head ∧ Relation.ReflTransGen parent head commit

/-- A worktree whose files are an integration scratch, unchanged or gone already. -/
def MayGo (manager : WorktreeManager) (run : OrchestrationRun) (worktree : GitWorktreeInfo) : Prop :=
  manager.isIntegrationScratch run (manager.machine.resolve worktree.path) = true ∨
    manager.machine.status (manager.machine.resolve worktree.path) = .ok "" ∨
    worktree.prunable = true ∨
    ∃ directory, startsWith directory (manager.integrationScratch run) = true ∧
      isPathInside manager.machine.workingDirectory directory worktree.path = true

/-- What holds between the repository before and after: worktrees that are gone might go, none has
appeared, and branches that are gone were the run's own, at recorded starting points and checked out
nowhere. -/
structure Preserved (manager : WorktreeManager) (run : OrchestrationRun)
    (before after : RepositoryState) : Prop where
  worktrees : ∀ worktree ∈ after.worktrees, ∃ earlier ∈ before.worktrees,
    earlier.path = worktree.path ∧ earlier.branch = worktree.branch
  removed : ∀ worktree ∈ before.worktrees, MayGo manager run worktree ∨
    ∃ later ∈ after.worktrees, later.path = worktree.path ∧ later.prunable = worktree.prunable
  kept : ∀ name head, after.branches.get? name = some head → before.branches.get? name = some head
  deleted : ∀ name head, before.branches.get? name = some head →
    after.branches.get? name = some head ∨
      startsWith name (branchesOf run) = true ∧ name ≠ run.integrationBranch ∧
      head ∈ safeStartPoints run ∧ ∀ worktree ∈ after.worktrees, worktree.branch ≠ some name

section

variable {manager : WorktreeManager} {run : OrchestrationRun} {before state next : RepositoryState}

private theorem Preserved.refl : Preserved manager run before before where
  worktrees := fun worktree hmem => ⟨worktree, hmem, rfl, rfl⟩
  removed := fun worktree hmem => .inr ⟨worktree, hmem, rfl, rfl⟩
  kept := fun _ _ h => h
  deleted := fun _ _ h => .inl h

/-- A step on the worktrees, told by what it does to each of them. -/
private theorem Preserved.worktreeStep (h : Preserved manager run before state)
    (hbranches : next.branches = state.branches)
    (hworktrees : ∀ worktree ∈ next.worktrees, ∃ earlier ∈ state.worktrees,
      earlier.path = worktree.path ∧ earlier.branch = worktree.branch)
    (hremoved : ∀ worktree ∈ state.worktrees, MayGo manager run worktree ∨
      ∃ later ∈ next.worktrees, later.path = worktree.path ∧ later.prunable = worktree.prunable) :
    Preserved manager run before next where
  worktrees := by
    intro worktree hmem
    obtain ⟨middle, hmiddle, hpath, hbranch⟩ := hworktrees worktree hmem
    obtain ⟨earlier, hearlier, hpath', hbranch'⟩ := h.worktrees middle hmiddle
    exact ⟨earlier, hearlier, hpath'.trans hpath, hbranch'.trans hbranch⟩
  removed := by
    intro worktree hmem
    rcases h.removed worktree hmem with hgo | ⟨middle, hmiddle, hpath, hprunable⟩
    · exact .inl hgo
    · rcases hremoved middle hmiddle with hgo | ⟨later, hlater, hpath', hprunable'⟩
      · unfold MayGo at hgo ⊢
        rw [hpath, hprunable] at hgo
        exact .inl hgo
      · exact .inr ⟨later, hlater, hpath'.trans hpath, hprunable'.trans hprunable⟩
  kept := by
    rw [hbranches]
    exact h.kept
  deleted := by
    intro name head hhead
    rw [hbranches]
    rcases h.deleted name head hhead with hkept | ⟨howned, hname, hsafe, hfree⟩
    · exact .inl hkept
    · refine .inr ⟨howned, hname, hsafe, fun worktree hmem hbranch => ?_⟩
      obtain ⟨middle, hmiddle, -, hsame⟩ := hworktrees worktree hmem
      exact hfree middle hmiddle (hsame.trans hbranch)

private theorem Preserved.step {action : CleanupAction} (h : Preserved manager run before state)
    (hstep : (cleanup manager run).step state action next) : Preserved manager run before next := by
  cases action with
  | removeWorktree target =>
    obtain ⟨hguard, rfl⟩ := hstep
    refine h.worktreeStep rfl (fun worktree hmem => ⟨worktree, List.mem_of_mem_filter hmem, rfl, rfl⟩) ?_
    intro worktree hmem
    by_cases htarget : manager.machine.resolve worktree.path = target
    · subst htarget
      rcases hguard with hscratch | hclean
      · exact .inl (.inl hscratch)
      · exact .inl (.inr (.inl hclean))
    · exact .inr ⟨worktree, List.mem_filter.mpr ⟨hmem, decide_eq_true htarget⟩, rfl, rfl⟩
  | removeScratchDirectory directory =>
    obtain ⟨hdirectory, rfl⟩ := hstep
    refine h.worktreeStep rfl ?_ ?_
    · intro worktree hmem
      obtain ⟨earlier, hearlier, rfl⟩ := List.mem_map.mp hmem
      refine ⟨earlier, hearlier, ?_⟩
      split <;> exact ⟨rfl, rfl⟩
    · intro worktree hmem
      by_cases hinside : isPathInside manager.machine.workingDirectory directory worktree.path = true
      · exact .inl (.inr (.inr (.inr ⟨directory, hdirectory, hinside⟩)))
      · exact .inr ⟨worktree, List.mem_map.mpr ⟨worktree, hmem, if_neg hinside⟩, rfl, rfl⟩
  | pruneEntries =>
    cases hstep
    refine h.worktreeStep rfl (fun worktree hmem => ⟨worktree, List.mem_of_mem_filter hmem, rfl, rfl⟩) ?_
    intro worktree hmem
    cases hprunable : worktree.prunable with
    | true => exact .inl (.inr (.inr (.inl hprunable)))
    | false =>
      refine .inr ⟨worktree, List.mem_filter.mpr ⟨hmem, ?_⟩, rfl, hprunable⟩
      rw [hprunable]
      rfl
  | deleteBranch name =>
    obtain ⟨howned, hname, hfree, ⟨head, hsafe, hhead⟩, rfl⟩ := hstep
    refine ⟨h.worktrees, h.removed, ?_, ?_⟩
    · intro other otherHead hother
      dsimp only at hother
      rw [OrderedRecord.get?_erase] at hother
      split at hother
      · cases hother
      · exact h.kept other otherHead hother
    · intro other otherHead hother
      rcases h.deleted other otherHead hother with hkept | hgone
      · by_cases hsame : other = name
        · subst hsame
          rw [hhead] at hkept
          cases hkept
          exact .inr ⟨howned, hname, hsafe, hfree⟩
        · left
          dsimp only
          rw [OrderedRecord.get?_erase, if_neg hsame]
          exact hkept
      · exact .inr hgone

/-- A sequence of safe steps preserves. -/
theorem preserved_of_runs (h : (cleanup manager run).Runs before next) :
    Preserved manager run before next := by
  induction h with
  | refl => exact Preserved.refl
  | snoc _ hstep ih => exact ih.step hstep

/-- Commits stay reachable when every recorded starting point is reachable from the integration
branch, or from the base branch and that is none of the run's own. -/
theorem Preserved.reachable (h : Preserved manager run before next)
    {parent : String → String → Prop}
    (hstart : ∀ commit ∈ safeStartPoints run, ∃ name head,
      (name = run.integrationBranch ∨
        name = run.baseBranch ∧ startsWith run.baseBranch (branchesOf run) = false) ∧
      before.branches.get? name = some head ∧ Relation.ReflTransGen parent head commit)
    {commit : String} (hcommit : Reachable parent before commit) : Reachable parent next commit := by
  obtain ⟨name, head, hhead, hleads⟩ := hcommit
  rcases h.deleted name head hhead with hkept | ⟨-, -, hsafe, -⟩
  · exact ⟨name, head, hkept, hleads⟩
  · obtain ⟨survivor, survivorHead, hsurvives, hsurvivor, hstarts⟩ := hstart head hsafe
    rcases h.deleted survivor survivorHead hsurvivor with hkept | ⟨howned, hname, -, -⟩
    · exact ⟨survivor, survivorHead, hkept, hstarts.trans hleads⟩
    · rcases hsurvives with hintegration | ⟨hbase, hforeign⟩
      · exact absurd hintegration hname
      · rw [hbase, hforeign] at howned
        cases howned

end

/-- A manager on a machine that answers every question plainly. -/
def plainManager : WorktreeManager where
  machine :=
    { workingDirectory := "/", temporaryDirectory := "/tmp", realpath := some, sha256Hex := id
      status := fun _ => .ok "", refusesRemoval := fun _ => false, refusesDeletion := fun _ => false }
  worktreeRoot := "/data/worktrees"
  legacyWorktreeRoot := none

/-- A repository whose branches are all at one commit, with one worktree. -/
def leveledRepository (branches : List String) : RepositoryState where
  worktrees := [⟨"/repo", "base", some "main", false⟩]
  branches := .ofList (branches.map fun branch => (branch, "base"))

end BuildConductor.Git
