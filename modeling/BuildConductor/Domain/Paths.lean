import BuildConductor.Domain.Json

/-!
# Repository-relative paths

The allowance test over path lists and the reader of safe repository paths, with the
POSIX normalisation it compares against. `src/src/domain/paths.ts`,
`src/src/domain/dag.ts:70-179`.
-/

namespace BuildConductor.Domain

/-- Whether a path falls inside an approved list: a trailing slash approves a subtree,
anything else exactly one file. `src/src/domain/paths.ts:6-13`. -/
def pathIsAllowed (path : String) (allowedPaths : List String) : Bool :=
  allowedPaths.any fun allowed =>
    if endsWith allowed "/" then startsWith path allowed else path = allowed

/-- The segments between slashes. -/
def segments : List Char → List (List Char)
  | [] => [[]]
  | c :: rest =>
    if c = '/' then [] :: segments rest
    else
      match segments rest with
      | [] => [[c]]
      | first :: others => (c :: first) :: others

/-- `posix.isAbsolute`. -/
def posixIsAbsolute (path : String) : Bool := startsWith path "/"

/-- One segment during normalisation, with the kept ones reversed; only a relative path may
climb above its start. -/
def normalizeSegment (allowAboveRoot : Bool) (kept : List (List Char)) (segment : List Char) :
    List (List Char) :=
  if segment = [] ∨ segment = ['.'] then kept
  else if segment = ['.', '.'] then
    match kept with
    | [] => if allowAboveRoot then [['.', '.']] else []
    | last :: rest => if last = ['.', '.'] then ['.', '.'] :: kept else rest
  else segment :: kept

/-- `posix.normalize`. -/
def posixNormalize (path : String) : String :=
  let absolute := posixIsAbsolute path
  let kept := ((segments path.toList).foldl (normalizeSegment !absolute) []).reverse
  let joined := String.intercalate "/" (kept.map String.ofList)
  let trailing := if endsWith path "/" then "/" else ""
  if path = "" then "."
  else if kept = [] then (if absolute then "/" else "." ++ trailing)
  else (if absolute then "/" else "") ++ joined ++ trailing

/-- `win32.isAbsolute`: a leading separator, or a drive letter followed by one. -/
def win32IsAbsolute (path : String) : Bool :=
  match path.toList with
  | c :: rest =>
    c = '/' || c = '\\' ||
      (c.isAlpha && match rest with
        | ':' :: sep :: _ => sep = '/' || sep = '\\'
        | _ => false)
  | [] => false

/-- `withoutSlash` and `directory` of one entry. -/
def splitDirectory (entry : String) : String × Bool :=
  if endsWith entry "/" then (String.ofList entry.toList.dropLast, true) else (entry, false)

/-- The characters no repository path may contain. -/
def isForbiddenPathChar (c : Char) : Bool :=
  c.toNat = 0 || c = '\\' || c = '?' || c = '*' || c = '[' || c = ']'

/-- The first test of `readSafeRepositoryPaths`. `src/src/domain/dag.ts:116-137`. -/
def isUnsafePath (entry : String) : Bool :=
  let withoutSlash := (splitDirectory entry).1
  entry.toList.any isForbiddenPathChar || posixIsAbsolute entry || win32IsAbsolute entry ||
    withoutSlash = "" || withoutSlash = "." || withoutSlash = ".." ||
    startsWith withoutSlash "../" || includes withoutSlash "/../"

/-- The second test of `readSafeRepositoryPaths`. `src/src/domain/dag.ts:138-151`. -/
def isNonCanonicalPath (entry : String) : Bool :=
  let (withoutSlash, directory) := splitDirectory entry
  let normalized := posixNormalize withoutSlash
  let canonical := if directory then normalized ++ "/" else normalized
  canonical ≠ entry || normalized = ".git" || startsWith normalized ".git/"

namespace Reading

/-- `src/src/domain/dag.ts:70-85`. -/
def readNonEmptyString (value : Option Json) (path : String) : Reading String :=
  match value with
  | some (.str s) =>
    if trim s = "" then do
      addIssue "non_empty_string" path s!"{path} must be a non-empty string"
      pure ""
    else pure (trim s)
  | _ => do
    addIssue "non_empty_string" path s!"{path} must be a non-empty string"
    pure ""

/-- `src/src/domain/dag.ts:87-106`. -/
def readStringArray (value : Option Json) (path : String) : Reading (List String) :=
  match value with
  | some (.arr items) =>
    readEach (fun index item => readNonEmptyString (some item) s!"{path}[{index}]") 0 items
  | _ => do
    addIssue "string_array" path s!"{path} must be an array of strings"
    pure []

/-- The checks on one entry; an unsafe entry is not also tested for canonicity. -/
def checkRepositoryPath (path : String) (index : Nat) (entry : String) : Reading Unit :=
  let itemPath := s!"{path}[{index}]"
  if isUnsafePath entry then
    addIssue "unsafe_path" itemPath
      s!"{itemPath} must be a safe repository-relative file or directory path"
  else
    issueIf (isNonCanonicalPath entry) "non_canonical_path" itemPath
      s!"{itemPath} must be normalized and cannot address Git metadata"

/-- `src/src/domain/dag.ts:108-162`. -/
def readSafeRepositoryPaths (value : Option Json) (path : String) : Reading (List String) := do
  let paths ← readStringArray value path
  checkEach (checkRepositoryPath path) 0 paths
  issueIf (¬ paths.Nodup) "duplicate_path" path s!"{path} must not contain duplicates"
  pure paths

/-- `src/src/domain/dag.ts:164-179`. -/
def readAllowedPaths (value : Option Json) (path : String) : Reading (List String) := do
  let paths ← readSafeRepositoryPaths value path
  issueIf (paths = []) "required_paths" path
    s!"{path} must contain at least one repository-relative path"
  pure paths

/-- A string read without issue reads back as itself. -/
theorem readNonEmptyString_again {value : Option Json} {path : String} {s : String}
    (h : readNonEmptyString value path = ⟨s, []⟩) (path' : String) :
    readNonEmptyString (some (.str s)) path' = ⟨s, []⟩ ∧ s ≠ "" := by
  unfold readNonEmptyString at h
  split at h
  · next t =>
    split at h
    · simp [bind_eq_clean_iff] at h
    · next hne =>
      rw [pure_eq_clean_iff] at h
      subst h
      simp [readNonEmptyString, hne]
  · simp [bind_eq_clean_iff] at h

/-- A string array read without issue reads back as itself. -/
theorem readStringArray_again {value : Option Json} {path : String} {xs : List String}
    (h : readStringArray value path = ⟨xs, []⟩) :
    readStringArray (some (Json.strings xs)) path = ⟨xs, []⟩ ∧ ∀ x ∈ xs, x ≠ "" := by
  unfold readStringArray at h
  split at h
  · next items =>
    constructor
    · exact readEach_again h fun _ _ _ hitem => (readNonEmptyString_again hitem _).1
    · intro x hx
      obtain ⟨i, item, -, hitem⟩ := readEach_mem h hx
      exact (readNonEmptyString_again hitem "").2
  · simp [bind_eq_clean_iff] at h

/-- Safe paths read without issue read back as themselves. -/
theorem readSafeRepositoryPaths_again {value : Option Json} {path : String} {xs : List String}
    (h : readSafeRepositoryPaths value path = ⟨xs, []⟩) :
    readSafeRepositoryPaths (some (Json.strings xs)) path = ⟨xs, []⟩ := by
  unfold readSafeRepositoryPaths at h ⊢
  simp only [bind_eq_clean_iff] at h ⊢
  obtain ⟨ys, hread, u, hcheck, u', hdup, hpure⟩ := h
  rw [pure_eq_clean_iff] at hpure
  subst hpure
  exact ⟨ys, (readStringArray_again hread).1, u, hcheck, u', hdup, by simp⟩

/-- Allowed paths read without issue read back as themselves. -/
theorem readAllowedPaths_again {value : Option Json} {path : String} {xs : List String}
    (h : readAllowedPaths value path = ⟨xs, []⟩) :
    readAllowedPaths (some (Json.strings xs)) path = ⟨xs, []⟩ := by
  unfold readAllowedPaths at h ⊢
  simp only [bind_eq_clean_iff] at h ⊢
  obtain ⟨ys, hread, u, hempty, hpure⟩ := h
  rw [pure_eq_clean_iff] at hpure
  subst hpure
  exact ⟨ys, readSafeRepositoryPaths_again hread, u, hempty, by simp⟩

end Reading
end BuildConductor.Domain
