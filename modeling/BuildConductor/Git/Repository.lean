import BuildConductor.Base.Checks
import BuildConductor.Base.Effects
import BuildConductor.Base.OrderedRecord
import BuildConductor.Git.Paths

/-!
# Worktrees and branches

The worktrees and branches of one repository, and the Git commands that list and remove them. What
the machine answers is a parameter. `src/src/git/git.ts:439-600`.
-/

namespace BuildConductor.Git

open Base Domain

/-- The entries without a head are left out by the listing. `src/src/git/git.ts:477-518`. -/
structure GitWorktreeInfo where
  path : String
  head : String
  branch : Option String
  prunable : Bool
deriving DecidableEq, Repr

/-- The worktrees of a repository and the heads of its branches. -/
structure RepositoryState where
  worktrees : List GitWorktreeInfo
  branches : OrderedRecord String String

/-- What the machine answers during one call. -/
structure Machine where
  workingDirectory : String
  temporaryDirectory : String
  /-- `realpath`, none when the path does not exist. -/
  realpath : String → Option String
  sha256Hex : String → String
  /-- `git status --porcelain` in a worktree, trimmed; it fails where there is none. -/
  status : String → Except String String
  /-- Git refuses to remove the worktree for a reason of its own, such as a lock. -/
  refusesRemoval : String → Bool
  /-- Git refuses to delete the branch for a reason of its own. -/
  refusesDeletion : String → Bool

/-- Commands on a repository. -/
abbrev GitCommand (α : Type) := Effect RepositoryState α

variable (machine : Machine)

/-- `path.resolve(path)` on the machine. -/
def Machine.resolve (path : String) : String := resolvePath machine.workingDirectory path

/-- The worktrees that are not at a path. -/
def RepositoryState.withoutWorktree (state : RepositoryState) (path : String) : RepositoryState :=
  { state with worktrees := state.worktrees.filter fun worktree =>
      machine.resolve worktree.path ≠ path }

/-- `git worktree remove`, which refuses changes unless it is forced.
`src/src/git/git.ts:578-589`. -/
def removeWorktree (path : String) (force : Bool) : GitCommand Unit := do
  Effect.lift (ensure (machine.refusesRemoval path = false) "git worktree remove failed")
  if force then pure ()
  else do
    let status ← Effect.lift (machine.status path)
    Effect.lift (ensure (status = "") "git worktree remove failed")
  Effect.change (·.withoutWorktree machine path)

/-- `rm -rf`: the worktrees in the directory are gone, and their entries can be pruned. -/
def removeDirectory (directory : String) : GitCommand Unit :=
  Effect.change fun state =>
    { state with worktrees := state.worktrees.map fun worktree =>
        if isPathInside machine.workingDirectory directory worktree.path then
          { worktree with prunable := true }
        else worktree }

/-- `git worktree prune`. `src/src/git/git.ts:560-562`. -/
def pruneWorktrees : GitCommand Unit :=
  Effect.change fun state => { state with worktrees := state.worktrees.filter (!·.prunable) }

/-- The branches below a name. `src/src/git/git.ts:520-539`. -/
def RepositoryState.listBranches (state : RepositoryState) (below : String) :
    List (String × String) :=
  state.branches.entries.filter fun branch => startsWith branch.1 below

/-- The branch is deleted only while it is where it is expected. `src/src/git/git.ts:541-558`. -/
def deleteBranch (branch expectedHead : String) : GitCommand Unit := do
  let actualHead ← Effect.read fun state => state.branches.get? branch
  Effect.lift (ensure (actualHead = some expectedHead)
    (s!"Refusing to delete branch {branch}: expected {expectedHead}, found " ++ actualHead.getD ""))
  Effect.lift (ensure (machine.refusesDeletion branch = false) "git update-ref failed")
  Effect.change fun state => { state with branches := state.branches.erase branch }

/-- Where integration keeps its scratch worktrees. `src/src/git/git.ts:17-28`. -/
def integrationScratchDirectoryPrefix (repositoryRoot branch : String) : String :=
  let identity := machine.sha256Hex (machine.resolve repositoryRoot ++ "\x00" ++ branch)
  joinPaths [machine.temporaryDirectory,
    s!"pi-build-conductor-integration-{String.ofList (identity.toList.take 16)}-"]

/-- The part of a path that exists, made canonical; every pass drops one segment.
`src/src/git/worktrees.ts:37-55`. -/
def canonicalizeFrom (current : String) (trailing : List String) : Nat → String
  | 0 => current
  | passes + 1 =>
    match machine.realpath current with
    | some canonical => if trailing = [] then canonical else joinPaths (canonical :: trailing)
    | none =>
      let parent := dirname current
      if parent = current then current
      else canonicalizeFrom parent (basename current :: trailing) passes

/-- `src/src/git/worktrees.ts:37-55`. -/
def canonicalizeExistingPrefix (path : String) : String :=
  let current := machine.resolve path
  canonicalizeFrom machine current [] (current.length + 1)

end BuildConductor.Git
