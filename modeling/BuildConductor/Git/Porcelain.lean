import BuildConductor.Base.Checks
import BuildConductor.Base.SelfDelimiting
import BuildConductor.Base.Utf8
import BuildConductor.Domain.Text

/-!
# NUL-delimited porcelain status

The parser of `git status --porcelain=v1 -z` output. A record is one field, or two when its status
says that the path has another one before it. `src/src/git/git.ts:158-218`.
-/

namespace BuildConductor.Git

open Base

/-! ## Text -/

/-- The UTF-16 code units of a string. -/
abbrev CodeUnits := List UInt16

/-- The code units of a text of the source, all of them ASCII. -/
def units (text : String) : CodeUnits := text.toList.map fun c => c.toNat.toUInt16

def nul : UInt16 := 0x00

def space : UInt16 := 0x20

/-- `text.includes(part)`. -/
def includesUnits (text part : CodeUnits) : Bool := text.tails.any part.isPrefixOf

/-- A code unit written on its own inside a JSON string literal. -/
def escapeUnit (unit : UInt16) : CodeUnits :=
  if 0xD800 ≤ unit ∧ unit < 0xE000 then
    units "\\u" ++ [unit.toNat / 4096, unit.toNat / 256, unit.toNat / 16, unit.toNat].map fun digit =>
      (Domain.hexDigit digit).toNat.toUInt16
  else (Domain.escapeChar (Char.ofNat unit.toNat)).map fun c => c.toNat.toUInt16

/-- The code units of a JSON string literal between its quotes: surrogates in a pair stay as they
are. -/
def escapeUnits : CodeUnits → CodeUnits
  | [] => []
  | [unit] => escapeUnit unit
  | first :: second :: rest =>
    if (0xD800 ≤ first ∧ first < 0xDC00) ∧ 0xDC00 ≤ second ∧ second < 0xE000 then
      first :: second :: escapeUnits rest
    else escapeUnit first ++ escapeUnits (second :: rest)

/-- `JSON.stringify` of a string. -/
def quoteUnits (text : CodeUnits) : CodeUnits := units "\"" ++ escapeUnits text ++ units "\""

/-! ## Parser -/

/-- A changed path with its status. `src/src/domain/types.ts:129-133`. -/
structure ChangedFile where
  path : CodeUnits
  status : CodeUnits
  previousPath : Option CodeUnits
deriving DecidableEq, Repr

/-- A path that could leave the repository or name its git directory. -/
def isUnsafeChangedPath (path : CodeUnits) : Bool :=
  path = [] || path.contains nul || (units "/").isPrefixOf path || path = units ".." ||
    (units "../").isPrefixOf path || includesUnits path (units "/../") || path = units ".git" ||
    (units ".git/").isPrefixOf path

/-- `src/src/git/git.ts:158-173`. -/
def validateChangedPath (path : CodeUnits) : Except CodeUnits Unit :=
  if isUnsafeChangedPath path then
    .error (units "Git reported an unsafe changed path: " ++ quoteUnits path)
  else .ok ()

/-- `src/src/git/git.ts:191-193`. -/
def isConflict (status : CodeUnits) : Bool :=
  includesUnits status (units "U") ||
    (["DD", "AU", "UD", "UA", "DU", "AA", "UU"].map units).contains status

/-- Whether a second field follows. `src/src/git/git.ts:200`. -/
def isRename (status : CodeUnits) : Bool :=
  includesUnits status (units "R") || includesUnits status (units "C")

/-- The status and path of a record that carries no conflict. `src/src/git/git.ts:184-199`. -/
def readRecord (record : CodeUnits) : Except CodeUnits ChangedFile :=
  if record.length < 4 ∨ record[2]? ≠ some space then
    .error (units "Git status returned a malformed record: " ++ quoteUnits record)
  else do
    validateChangedPath (record.drop 3)
    if isConflict (record.take 2) then
      .error (units "Task worktree contains an unresolved conflict at " ++ record.drop 3)
    else return { path := record.drop 3, status := record.take 2, previousPath := none }

/-- The record at the start of the output, and the output behind it. `src/src/git/git.ts:178-209`. -/
def readChange (output : CodeUnits) : Except CodeUnits (ChangedFile × CodeUnits) :=
  match readField nul output with
  | none => .error (units "Git status returned a malformed NUL-delimited record")
  | some (record, rest) => do
    let changed ← readRecord record
    if isRename changed.status then
      match readField nul rest with
      | none => .error (units "Git status returned a malformed rename record")
      | some (previousPath, behind) =>
        validateChangedPath previousPath
        return ({ changed with previousPath := some previousPath }, behind)
    else return (changed, rest)

theorem length_lt_of_readChange {output rest : CodeUnits} {changed : ChangedFile}
    (h : readChange output = .ok (changed, rest)) : rest.length < output.length := by
  unfold readChange at h
  split at h
  · next => cases h
  · next record behind hrecord =>
    have hbehind := length_lt_of_readField hrecord
    obtain ⟨read, -, h⟩ := bind_ok_iff.mp h
    split at h
    · next =>
      split at h
      · next => cases h
      · next previousPath last hprevious =>
        have hlast := length_lt_of_readField hprevious
        obtain ⟨-, h⟩ := seq_ok_iff.mp h
        cases h
        omega
    · next =>
      cases h
      exact hbehind

/-- The records of the output, read from the start of one. `src/src/git/git.ts:176-211`. -/
def parseRecords (output : CodeUnits) : Except CodeUnits (List ChangedFile) :=
  if output = [] then .ok []
  else
    match _hchange : readChange output with
    | .error message => .error message
    | .ok (changed, rest) => (parseRecords rest).map (changed :: ·)
termination_by output.length
decreasing_by exact length_lt_of_readChange _hchange

theorem parseRecords_ok_iff {output : CodeUnits} (h : output ≠ []) {files : List ChangedFile} :
    parseRecords output = .ok files ↔
      ∃ read, readChange output = .ok read ∧
        ∃ later, parseRecords read.2 = .ok later ∧ files = read.1 :: later := by
  rw [parseRecords, if_neg h]
  split
  · next message hread => simp [hread]
  · next changed rest hread =>
    constructor
    · intro h
      obtain ⟨later, hlater, rfl⟩ := map_ok_iff.mp h
      exact ⟨_, hread, later, hlater, rfl⟩
    · rintro ⟨read, hsame, later, hlater, rfl⟩
      rw [hread] at hsame
      cases hsame
      exact map_ok_iff.mpr ⟨later, hlater, rfl⟩

/-- What the records are sorted by. -/
def ChangedFile.key (file : ChangedFile) : CodeUnits := file.path ++ nul :: file.previousPath.getD []

/-- `src/src/git/git.ts:175-218`, over the order of `localeCompare`. -/
def parsePorcelainV1Z (localeCompare : CodeUnits → CodeUnits → Bool) (output : CodeUnits) :
    Except CodeUnits (List ChangedFile) := do
  let files ← parseRecords output
  return files.mergeSort fun left right => localeCompare left.key right.key

/-! ## Records -/

/-- A change of the working tree: two status characters, a path and, exactly for a rename or a copy,
the path before it. A field of NUL-delimited output holds no NUL. -/
structure PorcelainRecord where
  index : UInt16
  workTree : UInt16
  path : CodeUnits
  previousPath : Option CodeUnits
  status_no_nul : nul ∉ [index, workTree]
  path_no_nul : nul ∉ path
  previousPath_no_nul : ∀ previous ∈ previousPath, nul ∉ previous
  renamed : previousPath.isSome = isRename [index, workTree]

namespace PorcelainRecord

variable (record : PorcelainRecord)

def status : CodeUnits := [record.index, record.workTree]

/-- The first field: the status and the path. -/
def head : CodeUnits := record.status ++ space :: record.path

/-- What git prints for the record. -/
def encoding : CodeUnits := terminated nul (record.head :: record.previousPath.toList)

/-- The change the record stands for. -/
def file : ChangedFile := ⟨record.path, record.status, record.previousPath⟩

def HasConflict : Prop := isConflict record.status = true

/-- A path of the record is unsafe. -/
def HasUnsafePath : Prop :=
  isUnsafeChangedPath record.path = true ∨
    ∃ previous ∈ record.previousPath, isUnsafeChangedPath previous = true

theorem nul_not_mem_head : nul ∉ record.head := by
  have hstatus : nul ∉ record.status := record.status_no_nul
  have hspace : nul ≠ space := by decide
  rw [head, List.mem_append, List.mem_cons, not_or, not_or]
  exact ⟨hstatus, hspace, record.path_no_nul⟩

theorem encoding_eq :
    record.encoding = record.head ++ nul :: terminated nul record.previousPath.toList := by
  unfold encoding terminated
  rw [List.flatMap_cons, List.append_assoc]
  rfl

end PorcelainRecord

/-- What git prints for the records. -/
def porcelainV1Z (records : List PorcelainRecord) : CodeUnits :=
  records.flatMap PorcelainRecord.encoding

/-! ## Parsing a printed record -/

private theorem validateChangedPath_ok_iff {path : CodeUnits} :
    validateChangedPath path = .ok ⟨⟩ ↔ isUnsafeChangedPath path = false := by
  unfold validateChangedPath
  split
  · next h => simp [h]
  · next h => simp [h]

private theorem readRecord_ok_iff {index workTree : UInt16} {path : CodeUnits}
    {changed : ChangedFile} :
    readRecord ([index, workTree] ++ space :: path) = .ok changed ↔
      isUnsafeChangedPath path = false ∧ isConflict [index, workTree] = false ∧
        changed = ⟨path, [index, workTree], none⟩ := by
  have hstatus : ([index, workTree] ++ space :: path).take 2 = [index, workTree] := rfl
  have hpath : ([index, workTree] ++ space :: path).drop 3 = path := rfl
  have hspace : ([index, workTree] ++ space :: path)[2]? = some space := rfl
  have hlength : ([index, workTree] ++ space :: path).length = path.length + 3 := rfl
  unfold readRecord
  rw [hstatus, hpath, hspace, hlength]
  split
  · next hshape =>
    have hempty : path = [] := by
      apply List.length_eq_zero_iff.mp
      rcases hshape with hshort | hshape
      · omega
      · exact absurd rfl hshape
    rw [hempty]
    constructor
    · intro h
      cases h
    · intro h
      cases h.1
  · next =>
    rw [seq_ok_iff, validateChangedPath_ok_iff]
    split
    · next hconflict => simp [hconflict]
    · next hconflict =>
      rw [Bool.not_eq_true] at hconflict
      have hread : (pure ⟨path, [index, workTree], none⟩ : Except CodeUnits ChangedFile) = .ok changed ↔
          changed = ⟨path, [index, workTree], none⟩ := by
        constructor
        · intro h
          cases h
          rfl
        · intro h
          rw [h]
          rfl
      rw [hread]
      simp [hconflict]

namespace PorcelainRecord

/-- Nothing of the record stands against it. -/
def IsAccepted (record : PorcelainRecord) : Prop := ¬ record.HasConflict ∧ ¬ record.HasUnsafePath

private theorem isAccepted_iff (record : PorcelainRecord) : record.IsAccepted ↔
    isUnsafeChangedPath record.path = false ∧ isConflict record.status = false ∧
      ∀ previous ∈ record.previousPath, isUnsafeChangedPath previous = false := by
  unfold IsAccepted HasConflict HasUnsafePath
  rw [not_or, Bool.not_eq_true, Bool.not_eq_true, and_left_comm]
  simp only [not_exists, not_and, Bool.not_eq_true]

/-- A printed record is read whole, whatever follows it. -/
private theorem readChange_encoding (record : PorcelainRecord) {rest : CodeUnits}
    {read : ChangedFile × CodeUnits} :
    readChange (record.encoding ++ rest) = .ok read ↔
      record.IsAccepted ∧ read = (record.file, rest) := by
  have hhead : readField nul (record.encoding ++ rest) =
      some (record.head, terminated nul record.previousPath.toList ++ rest) := by
    rw [encoding_eq, List.append_assoc, List.cons_append]
    exact readField_append record.nul_not_mem_head _
  rw [isAccepted_iff]
  unfold readChange
  rw [hhead]
  dsimp only
  rw [bind_ok_iff]
  simp only [head, status, readRecord_ok_iff]
  cases hprevious : record.previousPath with
  | none =>
    have hrename : isRename [record.index, record.workTree] = false := by
      rw [← record.renamed, hprevious]
      rfl
    constructor
    · rintro ⟨changed, ⟨hpath, hconflict, rfl⟩, hread⟩
      rw [hrename] at hread
      cases hread
      exact ⟨⟨hpath, hconflict, by simp⟩, by rw [file, hprevious]; rfl⟩
    · rintro ⟨⟨hpath, hconflict, -⟩, rfl⟩
      refine ⟨_, ⟨hpath, hconflict, rfl⟩, ?_⟩
      rw [hrename, file, hprevious]
      rfl
  | some previous =>
    have hrename : isRename [record.index, record.workTree] = true := by
      rw [← record.renamed, hprevious]
      rfl
    have hfield : readField nul (terminated nul (some previous).toList ++ rest) =
        some (previous, rest) := by
      have h := readField_append (record.previousPath_no_nul previous hprevious) rest
      simpa [terminated] using h
    constructor
    · rintro ⟨changed, ⟨hpath, hconflict, rfl⟩, hread⟩
      dsimp only at hread
      rw [hrename, if_pos rfl, hfield] at hread
      obtain ⟨hsafe, hread⟩ := seq_ok_iff.mp hread
      cases hread
      rw [validateChangedPath_ok_iff] at hsafe
      exact ⟨⟨hpath, hconflict, by simpa using hsafe⟩, by rw [file, hprevious]; rfl⟩
    · rintro ⟨⟨hpath, hconflict, hsafe⟩, rfl⟩
      refine ⟨_, ⟨hpath, hconflict, rfl⟩, ?_⟩
      have hvalid := validateChangedPath_ok_iff.mpr (hsafe previous rfl)
      dsimp only
      rw [hrename, if_pos rfl, hfield, file, hprevious]
      exact seq_ok_iff.mpr ⟨hvalid, rfl⟩

/-- A record that is cut off is refused. -/
private theorem readChange_cut (record : PorcelainRecord) {cut : CodeUnits}
    (hcut : cut <+: record.encoding) (hshort : cut ≠ record.encoding) (read : ChangedFile × CodeUnits) :
    readChange cut ≠ .ok read := by
  rw [encoding_eq] at hcut hshort
  rcases prefix_append_cons_iff.mp hcut with hhead | ⟨behind, rfl, hbehind⟩
  · have hnone : readField nul cut = none :=
      readField_eq_none fun hmem => record.nul_not_mem_head (hhead.subset hmem)
    unfold readChange
    rw [hnone]
    nofun
  · unfold readChange
    rw [readField_append record.nul_not_mem_head]
    dsimp only
    intro hread
    obtain ⟨changed, hrecord, hread⟩ := bind_ok_iff.mp hread
    obtain ⟨-, -, rfl⟩ := readRecord_ok_iff.mp hrecord
    cases hprevious : record.previousPath with
    | none =>
      rw [hprevious] at hbehind hshort
      exact hshort (by rw [List.prefix_nil.mp hbehind]; rfl)
    | some previous =>
      have hrename : isRename [record.index, record.workTree] = true := by
        rw [← record.renamed, hprevious]
        rfl
      have hpart : behind <+: previous := by
        rw [hprevious] at hbehind hshort
        have hended : terminated nul (some previous).toList = previous ++ [nul] := by
          simp [terminated]
        rw [hended] at hbehind hshort
        rcases List.prefix_concat_iff.mp hbehind with heq | hpart
        · exact absurd (by rw [heq]) hshort
        · exact hpart
      have hnone : readField nul behind = none := readField_eq_none fun hmem =>
        record.previousPath_no_nul previous hprevious (hpart.subset hmem)
      dsimp only at hread
      rw [hrename, if_pos rfl, hnone] at hread
      cases hread

end PorcelainRecord

/-! ## Parsing the output -/

/-- Printed records in front of a text are read as those records, in order. -/
theorem parseRecords_porcelainV1Z (records : List PorcelainRecord) (rest : CodeUnits)
    {files : List ChangedFile} :
    parseRecords (porcelainV1Z records ++ rest) = .ok files ↔
      (∀ record ∈ records, record.IsAccepted) ∧
        ∃ more, parseRecords rest = .ok more ∧ files = records.map PorcelainRecord.file ++ more := by
  induction records generalizing files with
  | nil =>
    simp only [porcelainV1Z, List.flatMap_nil, List.nil_append, List.map_nil, List.not_mem_nil,
      false_implies, implies_true, true_and]
    exact ⟨fun h => ⟨files, h, rfl⟩, fun ⟨more, h, heq⟩ => heq ▸ h⟩
  | cons record records ih =>
    have houtput : porcelainV1Z (record :: records) ++ rest =
        record.encoding ++ (porcelainV1Z records ++ rest) := by
      unfold porcelainV1Z
      rw [List.flatMap_cons, List.append_assoc]
    have hne : record.encoding ++ (porcelainV1Z records ++ rest) ≠ [] := by
      rw [record.encoding_eq]
      simp
    rw [houtput, parseRecords_ok_iff hne, List.forall_mem_cons]
    constructor
    · rintro ⟨read, hread, later, hlater, rfl⟩
      obtain ⟨haccepted, rfl⟩ := record.readChange_encoding.mp hread
      obtain ⟨hall, more, hmore, rfl⟩ := ih.mp hlater
      exact ⟨⟨haccepted, hall⟩, more, hmore, rfl⟩
    · rintro ⟨⟨haccepted, hall⟩, more, hmore, rfl⟩
      have hread : readChange (record.encoding ++ (porcelainV1Z records ++ rest)) =
          .ok (record.file, porcelainV1Z records ++ rest) :=
        record.readChange_encoding.mpr ⟨haccepted, rfl⟩
      exact ⟨_, hread, _, ih.mpr ⟨hall, more, hmore, rfl⟩, rfl⟩

private theorem parsePorcelainV1Z_error_iff {localeCompare : CodeUnits → CodeUnits → Bool}
    {output : CodeUnits} : (∃ message, parsePorcelainV1Z localeCompare output = .error message) ↔
      ∀ files, parseRecords output ≠ .ok files := by
  unfold parsePorcelainV1Z
  cases parseRecords output with
  | error message =>
    constructor
    · intro _ files h
      cases h
    · intro _
      exact ⟨message, rfl⟩
  | ok files =>
    constructor
    · rintro ⟨message, h⟩
      cases h
    · intro h
      exact absurd rfl (h files)

/-- A record that is cut off is refused. -/
private theorem parseRecords_cut (record : PorcelainRecord) {cut : CodeUnits}
    (hcut : cut <+: record.encoding) (hstarted : cut ≠ []) (hshort : cut ≠ record.encoding)
    (files : List ChangedFile) : parseRecords cut ≠ .ok files := by
  rw [ne_eq, parseRecords_ok_iff hstarted]
  rintro ⟨read, hread, -⟩
  exact record.readChange_cut hcut hshort read hread

/-- Records that are free of conflicts and have safe paths are read back, up to their order; output
that contains a conflict or an unsafe path, or ends inside a record, is refused. -/
theorem parsePorcelainV1Z_exact (localeCompare : CodeUnits → CodeUnits → Bool) :
    (∀ records : List PorcelainRecord,
      (∀ record ∈ records, ¬ record.HasConflict ∧ ¬ record.HasUnsafePath) →
        ∃ files, parsePorcelainV1Z localeCompare (porcelainV1Z records) = .ok files ∧
          files.Perm (records.map PorcelainRecord.file)) ∧
    (∀ records : List PorcelainRecord,
      (∃ record ∈ records, record.HasConflict ∨ record.HasUnsafePath) →
        ∃ message, parsePorcelainV1Z localeCompare (porcelainV1Z records) = .error message) ∧
    ∀ (records : List PorcelainRecord) (record : PorcelainRecord) (cut : CodeUnits),
      cut <+: record.encoding → cut ≠ [] → cut ≠ record.encoding →
        ∃ message, parsePorcelainV1Z localeCompare (porcelainV1Z records ++ cut) = .error message := by
  refine ⟨fun records hall => ?_, fun records hbad => ?_, fun records record cut hcut hstarted hshort => ?_⟩
  · have hparse := (parseRecords_porcelainV1Z records []).mpr ⟨hall, [], by simp [parseRecords], rfl⟩
    rw [List.append_nil, List.append_nil] at hparse
    unfold parsePorcelainV1Z
    rw [hparse]
    exact ⟨_, rfl, List.mergeSort_perm _ _⟩
  · apply parsePorcelainV1Z_error_iff.mpr
    intro files hparse
    obtain ⟨record, hmem, hrecord⟩ := hbad
    rw [← List.append_nil (porcelainV1Z records), parseRecords_porcelainV1Z] at hparse
    have haccepted := hparse.1 record hmem
    exact hrecord.elim haccepted.1 haccepted.2
  · apply parsePorcelainV1Z_error_iff.mpr
    intro files hparse
    obtain ⟨-, more, hmore, -⟩ := (parseRecords_porcelainV1Z records cut).mp hparse
    exact parseRecords_cut record hcut hstarted hshort more hmore

end BuildConductor.Git
