import BuildConductor.Domain.Paths
import Mathlib.Data.List.DropRight

/-!
# File paths

The POSIX path functions of `node:path`, and whether a path lies inside a directory.
`src/src/git/worktrees.ts:18-35`.
-/

namespace BuildConductor.Git

open Domain

/-- The segments of an absolute path, without `.`, `..` and empty ones. -/
def absoluteSegments (path : String) : List (List Char) :=
  ((segments path.toList).foldl (normalizeSegment false) []).reverse

/-- An absolute path of some segments. -/
def absolutePath (parts : List (List Char)) : String :=
  "/" ++ String.intercalate "/" (parts.map String.ofList)

/-- `path.resolve(path)` in a working directory. -/
def resolvePath (workingDirectory path : String) : String :=
  absolutePath (absoluteSegments
    (if posixIsAbsolute path then path else workingDirectory ++ "/" ++ path))

/-- `path.join(...parts)`. -/
def joinPaths (parts : List String) : String :=
  posixNormalize (String.intercalate "/" (parts.filter (· ≠ "")))

/-- The segments left of two lists once their common part is dropped. -/
def dropCommon : List (List Char) → List (List Char) → List (List Char) × List (List Char)
  | x :: xs, y :: ys => if x = y then dropCommon xs ys else (x :: xs, y :: ys)
  | xs, ys => (xs, ys)

/-- `path.relative(from, to)` of absolute paths. -/
def relativePath (start target : String) : String :=
  let (up, down) := dropCommon (absoluteSegments start) (absoluteSegments target)
  String.intercalate "/" (up.map (fun _ => "..") ++ down.map String.ofList)

/-- A path without its last segment and the separators around it. -/
def withoutLastSegment (path : String) : List Char :=
  (path.toList.rdropWhile (· = '/')).rdropWhile (· ≠ '/')

/-- `path.dirname(path)`. -/
def dirname (path : String) : String :=
  match withoutLastSegment path with
  | [] => if posixIsAbsolute path then "/" else "."
  | ['/'] => "/"
  | directory => String.ofList directory.dropLast

/-- `path.basename(path)`. -/
def basename (path : String) : String :=
  String.ofList ((path.toList.rdropWhile (· = '/')).drop (withoutLastSegment path).length)

/-- `/^\.\.(?:[\\/]|$)/.test(path)`. -/
def leavesRoot (path : String) : Bool :=
  path = ".." || startsWith path "../" || startsWith path "..\\"

/-- `src/src/git/worktrees.ts:18-35`. -/
def isPathInside (workingDirectory root target : String) : Bool :=
  let pathFromRoot :=
    relativePath (resolvePath workingDirectory root) (resolvePath workingDirectory target)
  pathFromRoot ≠ "" && !leavesRoot pathFromRoot && !posixIsAbsolute pathFromRoot

example : resolvePath "/work" "a/../b/./c/" = "/work/b/c" := by decide +kernel

example : relativePath "/data/runs/one" "/data/two" = "../../two" := by decide +kernel

example : dirname "/data/runs/one/" = "/data/runs" := by decide +kernel

example : isPathInside "/" "/data/runs" "/data/runs/one" = true := by decide +kernel

end BuildConductor.Git
