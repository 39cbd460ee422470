import BuildConductor.Base.Checks

/-!
# The history behind merge-ready evidence

The check that the integration branch holds exactly the persisted commits, in order, on top of an
untouched base. `src/src/git/git.ts:623-713`.
-/

namespace BuildConductor.Git

open Base

/-- `"task" | "repair"`. -/
inductive IntegratedCommitKind
  | task | repair
deriving DecidableEq, Repr

/-- `src/src/domain/types.ts:388-393`. -/
structure IntegratedCommitEvidence where
  kind : IntegratedCommitKind
  id : String
  sourceCommit : String
  integratedCommit : String
deriving DecidableEq, Repr

/-- `src/src/domain/types.ts:395-399`. -/
structure GitCommitEvidence where
  hash : String
  parent : String
  subject : String
deriving DecidableEq, Repr

/-- A revision of the branch since its base, as `rev-list` and `show` describe it. -/
structure Revision where
  hash : String
  parents : List String
  subject : String

/-- The repository root and the time of the check are left out. `src/src/git/git.ts:58-66`. -/
structure VerifyMergeReadyHistoryInput where
  integrationBranch : String
  integrationHead : String
  baseBranch : String
  baseCommit : String
  commits : List IntegratedCommitEvidence

/-- What git answers about the integration branch and the user's worktree. -/
structure HistoryAnswers where
  head : String
  isClean : Bool
  currentBranch : String
  userHead : String
  /-- `rev-list --reverse` from the base commit to the branch. -/
  revisions : List Revision
  /-- `verifySourceCommitMapping` of a source commit, an integrated commit and its parent. -/
  verifySourceCommitMapping : String → String → String → Except String Unit

/-- A revision with its only parent. `src/src/git/git.ts:653-672`. -/
def readRevision (revision : Revision) : Except String GitCommitEvidence :=
  match revision.parents with
  | [parent] => pure ⟨revision.hash, parent, revision.subject⟩
  | _ => throw s!"Integration commit {revision.hash} is not single-parent"

/-- Whether the commits are the expected ones, each on top of the one before.
`src/src/git/git.ts:673-686`. -/
def matchesPersistedOrder (baseCommit : String) (commits : List GitCommitEvidence)
    (expectedHashes : List String) : Bool :=
  commits.length = expectedHashes.length &&
    commits.zipIdx.all fun (commit, index) =>
      some commit.hash = expectedHashes[index]? &&
        some commit.parent =
          if index = 0 then some baseCommit else expectedHashes[index - 1]?

/-- `src/src/git/git.ts:623-713`. -/
def verifyMergeReadyHistory (answers : HistoryAnswers) (input : VerifyMergeReadyHistoryInput) :
    Except String (List GitCommitEvidence) := do
  ensure (answers.head = input.integrationHead)
    s!"Integration branch {input.integrationBranch} is at {answers.head}, expected {
      input.integrationHead}"
  ensure (answers.isClean ∧ answers.currentBranch = input.baseBranch ∧
      answers.userHead = input.baseCommit)
    s!"User worktree must remain clean on {input.baseBranch} at {input.baseCommit}"
  let commits ← answers.revisions.mapM readRevision
  ensure (matchesPersistedOrder input.baseCommit commits (input.commits.map (·.integratedCommit)))
    "Integration history does not match persisted commit order"
  forM (input.commits.zip commits) fun (mapping, integratedCommit) =>
    answers.verifySourceCommitMapping mapping.sourceCommit mapping.integratedCommit
      integratedCommit.parent
  pure commits

/-- The order check compares the hashes, and the parents with the hashes before. -/
theorem matchesPersistedOrder_iff {baseCommit : String} {commits : List GitCommitEvidence}
    {expectedHashes : List String} :
    matchesPersistedOrder baseCommit commits expectedHashes = true ↔
      commits.map (·.hash) = expectedHashes ∧
      commits.map (·.parent) = (baseCommit :: expectedHashes).take commits.length := by
  have hparent : ∀ index, (if index = 0 then some baseCommit else expectedHashes[index - 1]?) =
      (baseCommit :: expectedHashes)[index]? := by
    intro index
    cases index with
    | zero => rfl
    | succ index => rfl
  have hall : (commits.zipIdx.all fun (commit, index) =>
        some commit.hash = expectedHashes[index]? &&
          some commit.parent =
            if index = 0 then some baseCommit else expectedHashes[index - 1]?) = true ↔
      ∀ (index : Nat) (commit : GitCommitEvidence), commits[index]? = some commit →
        some commit.hash = expectedHashes[index]? ∧
        some commit.parent = (baseCommit :: expectedHashes)[index]? := by
    rw [List.all_eq_true]
    simp only [Prod.forall, List.mem_zipIdx_iff_getElem?, Bool.and_eq_true, decide_eq_true_eq,
      hparent]
    exact forall_comm
  unfold matchesPersistedOrder
  rw [Bool.and_eq_true, decide_eq_true_eq, hall]
  constructor
  · rintro ⟨hlength, hcommits⟩
    constructor
    · apply List.ext_getElem?
      intro index
      rw [List.getElem?_map]
      cases hcommit : commits[index]? with
      | none =>
        rw [List.getElem?_eq_none_iff] at hcommit
        rw [Option.map_none, eq_comm, List.getElem?_eq_none_iff]
        omega
      | some commit => exact (hcommits index commit hcommit).1
    · apply List.ext_getElem?
      intro index
      rw [List.getElem?_map, List.getElem?_take]
      cases hcommit : commits[index]? with
      | none =>
        rw [List.getElem?_eq_none_iff] at hcommit
        rw [if_neg (by omega)]
        rfl
      | some commit =>
        have hindex := (List.getElem?_eq_some_iff.mp hcommit).1
        rw [if_pos hindex]
        exact (hcommits index commit hcommit).2
  · rintro ⟨hhashes, hparents⟩
    refine ⟨by rw [← hhashes, List.length_map], ?_⟩
    intro index commit hcommit
    have hindex := (List.getElem?_eq_some_iff.mp hcommit).1
    constructor
    · rw [← hhashes, List.getElem?_map, hcommit]
      rfl
    · have hget := congrArg (·[index]?) hparents
      rw [List.getElem?_map, hcommit, List.getElem?_take, if_pos hindex] at hget
      exact hget

theorem readRevision_ok_iff {revision : Revision} {commit : GitCommitEvidence} :
    readRevision revision = .ok commit ↔ commit.hash = revision.hash ∧
      revision.parents = [commit.parent] ∧ commit.subject = revision.subject := by
  unfold readRevision
  split
  · next parent hparents =>
    rw [hparents]
    constructor
    · rintro ⟨⟩
      exact ⟨rfl, rfl, rfl⟩
    · rintro ⟨hhash, hparent, hsubject⟩
      rw [List.singleton_inj] at hparent
      rw [hparent, ← hhash, ← hsubject]
      rfl
  · next hparents =>
    constructor
    · rintro ⟨⟩
    · rintro ⟨-, hparent, -⟩
      exact absurd hparent (hparents commit.parent)

/-- The check passes on a clean base, with the persisted commits on top of one another, each made
from its source. -/
theorem verifyMergeReadyHistory_ok_iff {answers : HistoryAnswers}
    {input : VerifyMergeReadyHistoryInput} {commits : List GitCommitEvidence} :
    verifyMergeReadyHistory answers input = .ok commits ↔
      answers.head = input.integrationHead ∧
      (answers.isClean = true ∧ answers.currentBranch = input.baseBranch ∧
        answers.userHead = input.baseCommit) ∧
      List.Forall₂ (fun revision commit => readRevision revision = .ok commit) answers.revisions
        commits ∧
      commits.map (·.hash) = input.commits.map (·.integratedCommit) ∧
      commits.map (·.parent) =
        (input.baseCommit :: input.commits.map (·.integratedCommit)).take commits.length ∧
      ∀ mapping ∈ input.commits.zip commits, answers.verifySourceCommitMapping
        mapping.1.sourceCommit mapping.1.integratedCommit mapping.2.parent = .ok () := by
  unfold verifyMergeReadyHistory
  simp only [bind_ok_iff, exists_unit_iff, ensure_ok_iff, mapM_ok_iff, matchesPersistedOrder_iff,
    forM_ok_iff]
  constructor
  · rintro ⟨hhead, hworktree, read, hread, ⟨hhashes, hparents⟩, hmapped, hcommits⟩
    cases hcommits
    exact ⟨hhead, hworktree, hread, hhashes, hparents, hmapped⟩
  · rintro ⟨hhead, hworktree, hread, hhashes, hparents, hmapped⟩
    exact ⟨hhead, hworktree, commits, hread, ⟨hhashes, hparents⟩, hmapped, rfl⟩

end BuildConductor.Git
