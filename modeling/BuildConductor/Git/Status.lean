import BuildConductor.Base.Utf8
import BuildConductor.Domain.Text

/-!
# Working tree status

The records `git status --porcelain=v1` prints, one line each, and the text the git client hands on.
`src/src/git/git.ts:591-599`.
-/

namespace BuildConductor.Git

open Base Domain

/-- The state of a path in the index or the working tree. -/
inductive StatusLetter
  | unmodified | modified | typeChanged | added | deleted | renamed | copied | unmerged | untracked
  | ignored
deriving DecidableEq, Repr

/-- The letter a state is printed as. -/
def StatusLetter.char : StatusLetter → Char
  | .unmodified => ' '
  | .modified => 'M'
  | .typeChanged => 'T'
  | .added => 'A'
  | .deleted => 'D'
  | .renamed => 'R'
  | .copied => 'C'
  | .unmerged => 'U'
  | .untracked => '?'
  | .ignored => '!'

theorem StatusLetter.isWhiteSpace_char (letter : StatusLetter) :
    isWhiteSpace letter.char = true ↔ letter = .unmodified := by
  cases letter <;> decide

theorem StatusLetter.char_ne_lineBreak (letter : StatusLetter) : letter.char ≠ '\n' := by
  cases letter <;> decide

theorem StatusLetter.char_small (letter : StatusLetter) : letter.char.toNat < 0x10000 := by
  cases letter <;> decide

/-- One changed path. The path is the text that is printed for it, which quotes line breaks; two
names of a rename are printed with an arrow between them. -/
structure ChangeRecord where
  index : StatusLetter
  workTree : StatusLetter
  path : List Char
  changed : index ≠ .unmodified ∨ workTree ≠ .unmodified
  path_ne_nil : path ≠ []
  path_one_line : '\n' ∉ path

/-- The line of a record. -/
def ChangeRecord.line (record : ChangeRecord) : List Char :=
  record.index.char :: record.workTree.char :: ' ' :: record.path

theorem ChangeRecord.line_one_line (record : ChangeRecord) : '\n' ∉ record.line := by
  unfold ChangeRecord.line
  rw [List.mem_cons, List.mem_cons, List.mem_cons, not_or, not_or, not_or]
  exact ⟨(record.index.char_ne_lineBreak).symm, (record.workTree.char_ne_lineBreak).symm, by decide,
    record.path_one_line⟩

/-- What the command prints. -/
def porcelain (records : List ChangeRecord) : List Char :=
  terminated '\n' (records.map ChangeRecord.line)

/-- The trimmed output. `src/src/git/git.ts:591-599`. -/
def status (records : List ChangeRecord) : List Char := trimChars (porcelain records)

end BuildConductor.Git
