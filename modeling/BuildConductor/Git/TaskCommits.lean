import BuildConductor.Base.Checks
import BuildConductor.Base.Effects
import BuildConductor.Base.OrderedRecord
import BuildConductor.Domain.Text
import BuildConductor.Domain.Types
import Mathlib.Data.List.Sort

/-!
# Task commits

A worktree is inspected, and what was validated becomes one commit on the branch of the task. What
Git and the file system answer is a parameter of every single look; the commits and the branches of
the repository are a state. `src/src/git/git.ts:220-246,716-955`.
-/

namespace BuildConductor.Git

open Base Domain

/-! ## Commits -/

/-- A file of a commit: its mode and its blob. -/
structure TreeEntry where
  mode : String
  blob : String
deriving DecidableEq, Repr

/-- The files of a commit, by path. -/
abbrev Tree := OrderedRecord String TreeEntry

/-- A commit with one parent. -/
structure Commit where
  parent : String
  tree : Tree
  message : String

/-- The commits of a repository by their hashes, and the heads of its branches. -/
structure CommitStore where
  commits : OrderedRecord String Commit
  branches : OrderedRecord String String

/-- The paths two trees differ at. -/
def Tree.differing (before after : Tree) : List String :=
  (before.keys ++ after.keys).eraseDups.filter fun path => before.get? path ≠ after.get? path

theorem Tree.mem_differing_iff {before after : Tree} {path : String} :
    path ∈ before.differing after ↔ before.get? path ≠ after.get? path := by
  unfold Tree.differing
  rw [List.mem_filter, List.mem_eraseDups, List.mem_append, OrderedRecord.mem_keys_iff,
    OrderedRecord.mem_keys_iff, decide_eq_true_eq]
  refine and_iff_right_of_imp fun hne => ?_
  by_cases hbefore : (before.get? path).isSome = true
  · exact Or.inl hbefore
  · by_cases hafter : (after.get? path).isSome = true
    · exact Or.inr hafter
    · rw [Bool.not_eq_true, Option.isSome_eq_false_iff, Option.isNone_iff_eq_none] at hbefore hafter
      rw [hbefore, hafter] at hne
      exact absurd rfl hne

/-! ## Looking at a worktree -/

/-- What `lstat` finds. -/
inductive FileKind
  | missing | file | symbolicLink | other
deriving DecidableEq, Repr

/-- What Git and the file system answer while a worktree is inspected. The status is the parsed
one, and the digest covers the files read for it. -/
structure WorktreeReading where
  branch : Except String String
  head : Except String String
  status : Except String (List ChangedFileEvidence)
  stagedEntries : List String → Except String (List String)
  diff : List String → Except String String
  kind : String → Except String FileKind
  digest : List ChangedFileEvidence → String → Except String String

/-- `src/src/git/git.ts:47-52`. -/
structure TaskWorktreeSnapshot where
  branch : String
  baseCommit : String
  changedFiles : List ChangedFileEvidence
  diffHash : String
deriving DecidableEq, Repr

/-- The path of a change, and the one it had before. -/
def ChangedFileEvidence.paths (file : ChangedFileEvidence) : List String :=
  file.path :: (present file.previousPath).toList

/-- The paths of some changes, in order. `src/src/validation/task-validator.ts:126-129`. -/
def changedPaths (files : List ChangedFileEvidence) : List String :=
  files.flatMap ChangedFileEvidence.paths

section Inspection

variable (localeCompare : String → String → Bool)

/-- The paths of some changes, each once, sorted. `src/src/git/git.ts:748-754,842-849`. -/
def pathSet (files : List ChangedFileEvidence) : List String :=
  (changedPaths files).eraseDups.mergeSort localeCompare

theorem mem_pathSet_iff {files : List ChangedFileEvidence} {path : String} :
    path ∈ pathSet localeCompare files ↔ path ∈ changedPaths files := by
  unfold pathSet
  rw [List.mem_mergeSort, List.mem_eraseDups]

/-- `src/src/git/git.ts:778-793`. -/
def assertSupportedFile (reading : WorktreeReading) (path : String) : Except String Unit := do
  let kind ← reading.kind path
  ensure (kind ≠ .symbolicLink)
    s!"Task worktree changes include an unsupported symbolic link: {path}"
  ensure (kind ≠ .other) s!"Unsupported changed file type: {path}"

/-- `src/src/git/git.ts:716-818`. -/
def inspectTaskWorktree (reading : WorktreeReading) (expectedBranch expectedBaseCommit : String) :
    Except String TaskWorktreeSnapshot := do
  let branch ← reading.branch
  let head ← reading.head
  let changedFiles ← reading.status
  ensure (branch = expectedBranch)
    s!"Task worktree branch changed: expected {expectedBranch}, found {branch}"
  ensure (head = expectedBaseCommit)
    s!"Task worktree HEAD changed: expected {expectedBaseCommit}, found {head}"
  ensure (changedFiles ≠ []) "Task worker produced no changes"
  let paths := pathSet localeCompare changedFiles
  let stagedEntries ← reading.stagedEntries paths
  ensure (∀ entry ∈ stagedEntries, startsWith entry "160000 " = false)
    "Task worktree changes include an unsupported Git submodule"
  let diff ← reading.diff paths
  forM paths (assertSupportedFile reading)
  let diffHash ← reading.digest changedFiles diff
  pure { branch, baseCommit := expectedBaseCommit, changedFiles, diffHash }

/-- `src/src/git/git.ts:232-246`. -/
def assertSnapshotMatches (actual expected : TaskWorktreeSnapshot) : Except String Unit :=
  ensure (actual = expected) "Task worktree changed after validation"

end Inspection

/-- What Git answers about a detached worktree. -/
structure DetachedReading where
  head : Except String String
  branch : Except String String
  status : Except String String

/-- `src/src/git/git.ts:601-621`. -/
def verifyDetachedWorktree (reading : DetachedReading) (expectedCommit : String) :
    Except String Unit := do
  let head ← reading.head
  let branch ← reading.branch
  let status ← reading.status
  ensure (head = expectedCommit)
    s!"Final validation worktree is at {head}, expected {expectedCommit}"
  ensure (branch = "HEAD") "Final validation worktree must have detached HEAD"
  ensure (status = "") s!"Final validation worktree is dirty: {status}"

/-! ## Committing -/

/-- What a path holds when it is written into the index. -/
inductive PathContent
  | missing
  | file (executable : Bool) (blob filteredBlob : Except String String)
  | unsupported

/-- What Git and the file system answer while a task is committed. -/
structure CommitReading where
  inspection : WorktreeReading
  content : String → Except String PathContent
  /-- The hash of a commit object. -/
  hash : Commit → String
  /-- The index of the worktree is reset to the commit. -/
  readTree : Except String Unit
  status : Except String String

/-- One path of the index, as it is in the worktree. `src/src/git/git.ts:864-909`. -/
def updateIndex (reading : CommitReading) (tree : Tree) (path : String) : Except String Tree := do
  match ← reading.content path with
  | .missing => pure (tree.erase path)
  | .unsupported => .error s!"Unsupported changed file type: {path}"
  | .file executable blob filteredBlob => do
    let blob ← blob
    let filteredBlob ← filteredBlob
    ensure (filteredBlob = blob) s!"Git clean filter would alter validated bytes for {path}"
    pure (tree.set path ⟨if executable then "100755" else "100644", blob⟩)

/-- The branch and the parent of a commit are the expected ones. `src/src/git/git.ts:957-979`. -/
def verifyTaskCommit (branch commit baseCommit : String) : Effect CommitStore Unit := do
  let branchHead ← Effect.read fun store => store.branches.get? branch
  let parent ← Effect.read fun store => (store.commits.get? commit).map (·.parent)
  Effect.lift (ensure (branchHead = some commit)
    s!"Task branch {branch} does not point to recorded commit {commit}")
  Effect.lift (ensure (parent = some baseCommit)
    s!"Task commit {commit} does not have expected parent {baseCommit}")

/-- A single line that is not blank. -/
def isSingleLine (message : String) : Prop :=
  trim message ≠ "" ∧ '\r' ∉ message.toList ∧ '\n' ∉ message.toList

instance (message : String) : Decidable (isSingleLine message) :=
  inferInstanceAs (Decidable (_ ∧ _ ∧ _))

/-- `git commit-tree`, with the hash the object gets. -/
def CommitStore.addCommit (store : CommitStore) (hash : String) (commit : Commit) : CommitStore :=
  { store with commits := store.commits.set hash commit }

/-- `src/src/git/git.ts:828-955`. -/
def commitTaskWork (localeCompare : String → String → Bool) (reading : CommitReading)
    (expectedSnapshot : TaskWorktreeSnapshot) (message : String) : Effect CommitStore String := do
  Effect.lift (ensure (isSingleLine message) "Task commit message must be a non-empty single line")
  let actual ← Effect.lift (inspectTaskWorktree localeCompare reading.inspection
    expectedSnapshot.branch expectedSnapshot.baseCommit)
  Effect.lift (assertSnapshotMatches actual expectedSnapshot)
  let paths := pathSet localeCompare expectedSnapshot.changedFiles
  let base ← Effect.read fun store => store.commits.get? expectedSnapshot.baseCommit
  let base ← Effect.lift (require base "git read-tree failed")
  let tree ← Effect.lift (paths.foldlM (updateIndex reading) base.tree)
  let commit : Commit := ⟨expectedSnapshot.baseCommit, tree, message⟩
  let hash := reading.hash commit
  Effect.change fun store => store.addCommit hash commit
  let branchHead ← Effect.read fun store => store.branches.get? expectedSnapshot.branch
  Effect.lift (ensure (branchHead = some expectedSnapshot.baseCommit) "git update-ref failed")
  Effect.change fun store =>
    { store with branches := store.branches.set expectedSnapshot.branch hash }
  Effect.lift reading.readTree
  verifyTaskCommit expectedSnapshot.branch hash expectedSnapshot.baseCommit
  let committedPaths := (base.tree.differing tree).mergeSort localeCompare
  Effect.lift (ensure (committedPaths = paths)
    "Created task commit does not match the validated path set")
  let status ← Effect.lift reading.status
  Effect.lift (ensure (status = "") "Task worktree is not clean after commit")
  pure hash

/-! ## What a commit changes -/

/-- The worktree is clean and detached at a commit. -/
structure CleanAt (reading : DetachedReading) (commit : String) : Prop where
  head : reading.head = .ok commit
  branch : reading.branch = .ok "HEAD"
  status : reading.status = .ok ""

theorem verifyDetachedWorktree_ok_iff {reading : DetachedReading} {commit : String} :
    verifyDetachedWorktree reading commit = .ok () ↔ CleanAt reading commit := by
  unfold verifyDetachedWorktree
  simp only [bind_ok_iff, exists_unit_iff, ensure_ok_iff]
  constructor
  · rintro ⟨head, hhead, branch, hbranch, status, hstatus, rfl, rfl, rfl⟩
    exact ⟨hhead, hbranch, hstatus⟩
  · intro h
    exact ⟨commit, h.head, "HEAD", h.branch, "", h.status, rfl, rfl, rfl⟩

theorem inspectTaskWorktree_ok {localeCompare : String → String → Bool} {reading : WorktreeReading}
    {branch baseCommit : String} {snapshot : TaskWorktreeSnapshot}
    (h : inspectTaskWorktree localeCompare reading branch baseCommit = .ok snapshot) :
    snapshot.branch = branch ∧ snapshot.baseCommit = baseCommit ∧
      reading.status = .ok snapshot.changedFiles ∧ snapshot.changedFiles ≠ [] := by
  unfold inspectTaskWorktree at h
  simp only [bind_ok_iff, exists_unit_iff, ensure_ok_iff] at h
  obtain ⟨found, -, head, -, changedFiles, hstatus, hbranch, -, hchanged, -, -, -, -, -, -, diffHash,
    -, h⟩ := h
  cases h
  exact ⟨hbranch, rfl, hstatus, hchanged⟩

/-- Only the path of an index update can change. -/
theorem updateIndex_get?_of_ne {reading : CommitReading} {tree later : Tree} {path other : String}
    (h : updateIndex reading tree path = .ok later) (hne : other ≠ path) :
    later.get? other = tree.get? other := by
  unfold updateIndex at h
  rw [bind_ok_iff] at h
  obtain ⟨content, -, h⟩ := h
  split at h
  · cases h
    rw [OrderedRecord.get?_erase, if_neg hne]
  · cases h
  · simp only [bind_ok_iff, exists_unit_iff, ensure_ok_iff] at h
    obtain ⟨blob, -, filteredBlob, -, -, h⟩ := h
    cases h
    exact OrderedRecord.get?_set_of_ne _ _ hne

private theorem updateIndex_foldlM_get? {reading : CommitReading} {paths : List String}
    {tree later : Tree} (h : paths.foldlM (updateIndex reading) tree = .ok later) {path : String}
    (hpath : path ∉ paths) : later.get? path = tree.get? path := by
  induction paths generalizing tree with
  | nil =>
    cases h
    rfl
  | cons first rest ih =>
    rw [List.foldlM_cons, bind_ok_iff] at h
    obtain ⟨middle, hfirst, hrest⟩ := h
    rw [List.mem_cons, not_or] at hpath
    rw [ih hrest hpath.2, updateIndex_get?_of_ne hfirst hpath.1]

/-- A commit of a snapshot: it stands on the base of the snapshot, the branch moved to it, and it
changes exactly the paths of the snapshot. -/
structure Commits (snapshot : TaskWorktreeSnapshot) (message : String) (before after : CommitStore)
    (hash : String) : Prop where
  commit : ∃ base commit, before.commits.get? snapshot.baseCommit = some base ∧
    after.commits.get? hash = some commit ∧ commit.parent = snapshot.baseCommit ∧
    commit.message = message ∧
    ∀ path, commit.tree.get? path ≠ base.tree.get? path ↔ path ∈ changedPaths snapshot.changedFiles
  moved : before.branches.get? snapshot.branch = some snapshot.baseCommit
  branches : after.branches = before.branches.set snapshot.branch hash
  commits : ∀ other, other ≠ hash → after.commits.get? other = before.commits.get? other

theorem commitTaskWork_ok {localeCompare : String → String → Bool} {reading : CommitReading}
    {snapshot : TaskWorktreeSnapshot} {message hash : String} {before after : CommitStore}
    (h : commitTaskWork localeCompare reading snapshot message before = (.ok hash, after)) :
    Commits snapshot message before after hash := by
  unfold commitTaskWork verifyTaskCommit assertSnapshotMatches at h
  simp only [Effect.bind_ok_iff, Effect.lift_ok_iff, Effect.read_ok_iff, Effect.change_ok_iff,
    Effect.pure_ok_iff, ensure_ok_iff, require_ok_iff] at h
  obtain ⟨-, _, ⟨-, rfl⟩, actual, _, ⟨-, rfl⟩, -, _, ⟨-, rfl⟩, _, _, ⟨rfl, rfl⟩, base, _,
    ⟨hbase, rfl⟩, tree, _, ⟨htree, rfl⟩, -, _, rfl, _, _, ⟨rfl, rfl⟩, -, _, ⟨hmoved, rfl⟩, -, _, rfl,
    h⟩ := h
  obtain ⟨-, _, ⟨-, rfl⟩, -, _, ⟨_, _, ⟨-, rfl⟩, _, _, ⟨-, rfl⟩, -, _, ⟨-, rfl⟩, -, rfl⟩, -, _,
    ⟨hpaths, rfl⟩, -, _, ⟨-, rfl⟩, -, _, ⟨-, rfl⟩, rfl, rfl⟩ := h
  refine ⟨⟨base, _, hbase, OrderedRecord.get?_set_self _ _ _, rfl, rfl, ?_⟩, hmoved, rfl, ?_⟩
  · intro path
    rw [← mem_pathSet_iff localeCompare, ← hpaths, List.mem_mergeSort, Tree.mem_differing_iff]
    exact ne_comm
  · intro other hother
    exact OrderedRecord.get?_set_of_ne _ _ hother

/-- How far a commit of a snapshot can get: nothing is written, the commit object is written, or the
branch has moved to it. A written commit changes paths of the snapshot only. -/
inductive Publishes (snapshot : TaskWorktreeSnapshot) (before : CommitStore) : CommitStore → Prop
  | nothing : Publishes snapshot before before
  | written {base commit : Commit} (hash : String) :
      before.commits.get? snapshot.baseCommit = some base → commit.parent = snapshot.baseCommit →
      (∀ path ∉ changedPaths snapshot.changedFiles, commit.tree.get? path = base.tree.get? path) →
      Publishes snapshot before (before.addCommit hash commit)
  | moved {base commit : Commit} (hash : String) :
      before.commits.get? snapshot.baseCommit = some base → commit.parent = snapshot.baseCommit →
      (∀ path ∉ changedPaths snapshot.changedFiles, commit.tree.get? path = base.tree.get? path) →
      before.branches.get? snapshot.branch = some snapshot.baseCommit →
      Publishes snapshot before
        { before.addCommit hash commit with
          branches := before.branches.set snapshot.branch hash }

/-- Also a commit that fails halfway publishes nothing but paths of the snapshot. -/
theorem commitTaskWork_publishes (localeCompare : String → String → Bool) (reading : CommitReading)
    (snapshot : TaskWorktreeSnapshot) (message : String) (before : CommitStore) :
    Publishes snapshot before
      (commitTaskWork localeCompare reading snapshot message before).2 := by
  have hverify : ∀ branch commit baseCommit store,
      (verifyTaskCommit branch commit baseCommit store).2 = store := by
    intro branch commit baseCommit store
    apply @Effect.lift_ends _ _ _ store fun later => later = store
    · rfl
    · exact fun _ _ => rfl
  unfold commitTaskWork
  apply Effect.lift_ends .nothing
  intro _ _
  apply Effect.lift_ends .nothing
  intro actual _
  apply Effect.lift_ends .nothing
  intro _ _
  apply Effect.lift_ends .nothing
  intro base hbase
  rw [require_ok_iff] at hbase
  apply Effect.lift_ends .nothing
  intro tree htree
  have hunchanged : ∀ path ∉ changedPaths snapshot.changedFiles,
      tree.get? path = base.tree.get? path := by
    intro path hpath
    apply updateIndex_foldlM_get? htree
    rw [mem_pathSet_iff]
    exact hpath
  let commit : Commit := ⟨snapshot.baseCommit, tree, message⟩
  have hwritten : Publishes snapshot before (before.addCommit (reading.hash commit) commit) :=
    .written _ hbase rfl hunchanged
  apply Effect.lift_ends hwritten
  intro _ hmoved
  rw [ensure_ok_iff] at hmoved
  have hpublished : Publishes snapshot before
      { before.addCommit (reading.hash commit) commit with
        branches := before.branches.set snapshot.branch (reading.hash commit) } :=
    .moved _ hbase rfl hunchanged hmoved
  apply Effect.lift_ends hpublished
  intro _ _
  apply Effect.bind_ends
  · rw [hverify]
    exact hpublished
  · intro _ later hverified
    have hlater := hverify snapshot.branch (reading.hash commit) snapshot.baseCommit
      { before.addCommit (reading.hash commit) commit with
        branches := before.branches.set snapshot.branch (reading.hash commit) }
    rw [hverified] at hlater
    dsimp only at hlater
    rw [hlater]
    apply Effect.lift_ends hpublished
    intro _ _
    apply Effect.lift_ends hpublished
    intro _ _
    apply Effect.lift_ends hpublished
    intro _ _
    exact hpublished

end BuildConductor.Git
