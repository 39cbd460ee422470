import BuildConductor.Git.Status
import BuildConductor.Security.Capabilities
import Mathlib.Data.List.TakeWhile

/-!
# Step outputs

The read-only boundary of a step: the workspace of a step that may not change the repository must
come back unchanged. `src/src/engine/steps/outputs.ts:40-58`.
-/

namespace BuildConductor.Engine

open Base Domain Security Git

/-- `text.slice(n)`, which counts UTF-16 units: a character beyond the basic plane is two of them,
and what is left of one that is cut is no character of its own. -/
def dropUnits : Nat → List Char → List Char
  | 0, cs => cs
  | _ + 1, [] => []
  | 1, c :: cs => if c.toNat < 0x10000 then cs else '\uFFFD' :: cs
  | n + 2, c :: cs => if c.toNat < 0x10000 then dropUnits (n + 1) cs else dropUnits n cs

/-- The paths read from a status. `src/src/engine/steps/outputs.ts:53-56`. -/
def readChangedPaths (status : List Char) : List String :=
  ((status.splitOn '\n').map fun line => String.ofList (trimChars (dropUnits 3 line))).filter
    (· ≠ "")

/-- The check of one step, with what its workspace holds when it returns; a step without a
workspace changes nothing. `src/src/engine/steps/outputs.ts:44-58`. -/
def assertUnchangedWorkspace (profile : CapabilityProfile) (path : Option String)
    (records : List ChangeRecord) : Except String Unit :=
  if StepCapability.mutateRepository ∈ profile.capabilities ∨ path.getD "" = "" then .ok ()
  else assertCapabilityBoundary profile (readChangedPaths (status records))

/-- What the check of a workspace comes to: a status that cannot be read is no breach. -/
inductive WorkspaceCheck
  | unchanged
  | unreadable (message : String)
  | breached (message : String)
deriving DecidableEq

/-- The check of one step, with the answer of the status command. It is not run for a workspace that
may change. `src/src/engine/steps/outputs.ts:44-58`. -/
def checkWorkspace (profile : CapabilityProfile) (path : Option String)
    (status : Except String (List ChangeRecord)) : WorkspaceCheck :=
  if StepCapability.mutateRepository ∈ profile.capabilities ∨ path.getD "" = "" then .unchanged
  else
    match status with
    | .error message => .unreadable message
    | .ok records =>
      match assertUnchangedWorkspace profile path records with
      | .error message => .breached message
      | .ok () => .unchanged

/-! ## What a status shows -/

/-- A text with a character that trimming keeps. -/
def Visible (cs : List Char) : Prop := ∃ c ∈ cs, isWhiteSpace c = false

theorem trimChars_ne_nil_iff {cs : List Char} : trimChars cs ≠ [] ↔ Visible cs := by
  unfold trimChars Visible
  rw [Ne, List.reverse_eq_nil_iff, List.dropWhile_eq_nil_iff]
  constructor
  · intro h
    by_contra hnone
    apply h
    intro c hc
    by_contra hvisible
    have hmem : c ∈ cs := (List.dropWhile_suffix _).mem (List.mem_reverse.mp hc)
    exact hnone ⟨c, hmem, by simpa using hvisible⟩
  · rintro ⟨c, hc, hvisible⟩ hall
    have hkept : c ∈ cs.dropWhile isWhiteSpace := by
      rw [← List.takeWhile_append_dropWhile (p := isWhiteSpace) (l := cs), List.mem_append] at hc
      rcases hc with hc | hc
      · rw [List.mem_takeWhile_imp hc] at hvisible
        cases hvisible
      · exact hc
    have hwhite := hall c (List.mem_reverse.mpr hkept)
    rw [hwhite] at hvisible
    cases hvisible

private theorem isWhiteSpace_small {c : Char} (h : isWhiteSpace c = true) : c.toNat < 0x10000 := by
  unfold isWhiteSpace at h
  simp only [Bool.or_eq_true, Bool.and_eq_true, decide_eq_true_eq] at h
  omega

/-- White space stays white space when its front is cut. -/
private theorem not_visible_dropUnits {white : List Char} (n : Nat)
    (h : ∀ c ∈ white, isWhiteSpace c = true) : ¬ Visible (dropUnits n white) := by
  induction white generalizing n with
  | nil => cases n <;> simp [dropUnits, Visible]
  | cons c rest ih =>
    have hrest : ∀ d ∈ rest, isWhiteSpace d = true := fun d hd => h d (List.mem_cons_of_mem _ hd)
    have hsmall := isWhiteSpace_small (h c List.mem_cons_self)
    match n with
    | 0 =>
      rintro ⟨d, hd, hvisible⟩
      rw [h d hd] at hvisible
      cases hvisible
    | 1 =>
      rw [dropUnits, if_pos hsmall]
      exact ih 0 hrest
    | n + 2 =>
      rw [dropUnits, if_pos hsmall]
      exact ih (n + 1) hrest

/-- White space at the end of a line shows nothing. -/
private theorem visible_dropUnits_append {white : List Char}
    (h : ∀ c ∈ white, isWhiteSpace c = true) (n : Nat) (cs : List Char) :
    Visible (dropUnits n (cs ++ white)) ↔ Visible (dropUnits n cs) := by
  have hends : ∀ ds, Visible (ds ++ white) ↔ Visible ds := by
    intro ds
    unfold Visible
    constructor
    · rintro ⟨c, hc, hvisible⟩
      rcases List.mem_append.mp hc with hc | hc
      · exact ⟨c, hc, hvisible⟩
      · rw [h c hc] at hvisible
        cases hvisible
    · rintro ⟨c, hc, hvisible⟩
      exact ⟨c, List.mem_append_left _ hc, hvisible⟩
  induction cs using List.rec generalizing n with
  | nil =>
    rw [List.nil_append]
    have hempty : ¬ Visible (dropUnits n []) := not_visible_dropUnits n nofun
    exact iff_of_false (not_visible_dropUnits n h) hempty
  | cons c rest ih =>
    match n with
    | 0 => exact hends (c :: rest)
    | 1 =>
      rw [List.cons_append, dropUnits, dropUnits]
      by_cases hsmall : c.toNat < 0x10000
      · rw [if_pos hsmall, if_pos hsmall]
        exact hends rest
      · rw [if_neg hsmall, if_neg hsmall]
        exact hends ('\uFFFD' :: rest)
    | n + 2 =>
      rw [List.cons_append, dropUnits, dropUnits]
      by_cases hsmall : c.toNat < 0x10000
      · rw [if_pos hsmall, if_pos hsmall]
        exact ih (n + 1)
      · rw [if_neg hsmall, if_neg hsmall]
        exact ih n

/-- Some line of a text shows a path. -/
def Shows (text : List Char) : Prop := ∃ line ∈ text.splitOn '\n', Visible (dropUnits 3 line)

theorem readChangedPaths_ne_nil_iff {text : List Char} : readChangedPaths text ≠ [] ↔ Shows text := by
  unfold readChangedPaths Shows
  rw [Ne, List.filter_eq_nil_iff]
  simp only [List.mem_map, forall_exists_index, and_imp, forall_apply_eq_imp_iff₂, decide_eq_true_eq,
    Decidable.not_not, not_forall, ← trimChars_ne_nil_iff, String.ofList_eq_empty_iff, ne_eq,
    exists_prop]

/-- One white character more changes the last line only, by white space. -/
private theorem shows_concat (text : List Char) {c : Char} (hc : isWhiteSpace c = true) :
    Shows (text ++ [c]) ↔ Shows text := by
  unfold Shows
  by_cases hbreak : c = '\n'
  · rw [hbreak, List.splitOn_append_cons_self, List.splitOn_nil]
    constructor
    · rintro ⟨line, hline, hvisible⟩
      rw [List.mem_append, List.mem_singleton] at hline
      rcases hline with hline | rfl
      · exact ⟨line, hline, hvisible⟩
      · exact absurd hvisible (not_visible_dropUnits 3 nofun)
    · rintro ⟨line, hline, hvisible⟩
      exact ⟨line, List.mem_append_left _ hline, hvisible⟩
  · have hlast : ∃ front last, text.splitOn '\n' = front ++ [last] ∧
        (text ++ [c]).splitOn '\n' = front ++ [last ++ [c]] := by
      by_cases hmem : '\n' ∈ text
      · obtain ⟨after, before, hsplit, hfresh⟩ :=
          List.eq_append_cons_of_mem (List.mem_reverse.mpr hmem)
        have htext : text = before.reverse ++ '\n' :: after.reverse := by
          rw [← List.reverse_reverse text, hsplit]
          simp
        have hafter : '\n' ∉ after.reverse := fun h => hfresh (List.mem_reverse.mp h)
        have hafter' : '\n' ∉ after.reverse ++ [c] := by
          rw [List.mem_append, List.mem_singleton, not_or]
          exact ⟨hafter, Ne.symm hbreak⟩
        refine ⟨before.reverse.splitOn '\n', after.reverse, ?_, ?_⟩
        · rw [htext, List.splitOn_append_cons_self, List.splitOn_eq_singleton hafter]
        · rw [htext, List.append_assoc, List.cons_append, List.splitOn_append_cons_self,
            List.splitOn_eq_singleton hafter']
      · have hmem' : '\n' ∉ text ++ [c] := by
          rw [List.mem_append, List.mem_singleton, not_or]
          exact ⟨hmem, Ne.symm hbreak⟩
        exact ⟨[], text, List.splitOn_eq_singleton hmem, List.splitOn_eq_singleton hmem'⟩
    obtain ⟨front, last, hsplit, hsplit'⟩ := hlast
    have hwhite : ∀ d ∈ [c], isWhiteSpace d = true := by
      intro d hd
      rw [List.mem_singleton.mp hd]
      exact hc
    rw [hsplit, hsplit']
    simp only [List.mem_append, List.mem_singleton, or_and_right, exists_or, exists_eq_left,
      visible_dropUnits_append hwhite]

private theorem shows_append {white : List Char} (h : ∀ c ∈ white, isWhiteSpace c = true)
    (text : List Char) : Shows (text ++ white) ↔ Shows text := by
  induction white generalizing text with
  | nil => rw [List.append_nil]
  | cons c rest ih =>
    have hsplit : text ++ c :: rest = text ++ [c] ++ rest := by simp
    rw [hsplit, ih (fun d hd => h d (List.mem_cons_of_mem _ hd)),
      shows_concat text (h c List.mem_cons_self)]

/-- Trimming shows what is left when only the front is trimmed. -/
private theorem shows_trimChars (text : List Char) :
    Shows (trimChars text) ↔ Shows (text.dropWhile isWhiteSpace) := by
  have hsplit : text.dropWhile isWhiteSpace =
      trimChars text ++ ((text.dropWhile isWhiteSpace).reverse.takeWhile isWhiteSpace).reverse := by
    unfold trimChars
    rw [← List.reverse_append, List.takeWhile_append_dropWhile, List.reverse_reverse]
  rw [hsplit, shows_append]
  intro c hc
  exact List.mem_takeWhile_imp (List.mem_reverse.mp hc)

/-! ## Records -/

/-- What is read of the first record: the trimmed output lost the blank of an unmodified index, and
the path its first character. -/
def firstPath (record : ChangeRecord) : List Char :=
  if record.index = .unmodified then dropUnits 1 record.path else record.path

private theorem dropUnits_line (record : ChangeRecord) : dropUnits 3 record.line = record.path := by
  unfold ChangeRecord.line
  rw [dropUnits, if_pos record.index.char_small, dropUnits, if_pos record.workTree.char_small,
    dropUnits]
  rfl

/-- The line of the first record once the output is trimmed in front. -/
private theorem dropWhile_porcelain (first : ChangeRecord) (rest : List ChangeRecord) :
    ∃ line, (porcelain (first :: rest)).dropWhile isWhiteSpace =
        terminated '\n' (line :: rest.map ChangeRecord.line) ∧
      '\n' ∉ line ∧ dropUnits 3 line = firstPath first := by
  have hfresh := first.line_one_line
  unfold firstPath
  by_cases hindex : first.index = .unmodified
  · have hworkTree : isWhiteSpace first.workTree.char = false := by
      rw [← Bool.not_eq_true, first.workTree.isWhiteSpace_char]
      exact first.changed.resolve_left (not_not.mpr hindex)
    refine ⟨first.line.tail, ?_, fun h => hfresh (List.mem_of_mem_tail h), ?_⟩
    · have hblank : isWhiteSpace first.index.char = true := first.index.isWhiteSpace_char.mpr hindex
      unfold porcelain terminated ChangeRecord.line
      simp only [List.map_cons, List.flatMap_cons, List.cons_append, List.tail_cons]
      rw [List.dropWhile_cons_of_pos hblank, List.dropWhile_cons_of_neg (by simp [hworkTree])]
    · rw [if_pos hindex]
      unfold ChangeRecord.line
      rw [List.tail_cons, dropUnits, if_pos first.workTree.char_small, dropUnits]
      rfl
  · have hvisible : isWhiteSpace first.index.char = false := by
      rw [← Bool.not_eq_true, first.index.isWhiteSpace_char]
      exact hindex
    refine ⟨first.line, ?_, hfresh, ?_⟩
    · unfold porcelain terminated ChangeRecord.line
      simp only [List.map_cons, List.flatMap_cons, List.cons_append]
      rw [List.dropWhile_cons_of_neg (by simp [hvisible])]
    · rw [if_neg hindex, dropUnits_line]

/-- A status shows a path when a record after the first has one, or something is left of the path of
the first. -/
theorem shows_status_iff (first : ChangeRecord) (rest : List ChangeRecord) :
    Shows (status (first :: rest)) ↔
      Visible (firstPath first) ∨ ∃ record ∈ rest, Visible record.path := by
  obtain ⟨line, htext, hfresh, hpath⟩ := dropWhile_porcelain first rest
  unfold status
  rw [shows_trimChars, htext]
  unfold Shows
  rw [splitOn_terminated]
  · simp only [List.cons_append, List.mem_cons, List.mem_append, List.mem_map, List.not_mem_nil,
      or_false, or_and_right, exists_or, exists_eq_left, hpath]
    have hempty : ¬ Visible (dropUnits 3 []) := not_visible_dropUnits 3 nofun
    simp only [hempty, or_false]
    constructor
    · rintro (h | ⟨_, ⟨record, hrecord, rfl⟩, hvisible⟩)
      · exact Or.inl h
      · rw [dropUnits_line] at hvisible
        exact Or.inr ⟨record, hrecord, hvisible⟩
    · rintro (h | ⟨record, hrecord, hvisible⟩)
      · exact Or.inl h
      · refine Or.inr ⟨_, ⟨record, hrecord, rfl⟩, ?_⟩
        rwa [dropUnits_line]
  · intro other hother
    rcases List.mem_cons.mp hother with rfl | hother
    · exact hfresh
    · obtain ⟨record, -, rfl⟩ := List.mem_map.mp hother
      exact record.line_one_line

/-- A step that may not change the repository is rejected for its changes exactly when a path can be
read from the status: not when the only path is a single character, of a file that is changed in the
working tree alone. -/
theorem unchanged_workspace_rejected_iff {profile : CapabilityProfile}
    (hprofile : StepCapability.mutateRepository ∉ profile.capabilities) {path : String}
    (hpath : path ≠ "") (first : ChangeRecord) (rest : List ChangeRecord) :
    (∃ message, assertUnchangedWorkspace profile (some path) (first :: rest) = .error message) ↔
      trimChars (firstPath first) ≠ [] ∨ ∃ record ∈ rest, trimChars record.path ≠ [] := by
  have hchecked : ¬ (StepCapability.mutateRepository ∈ profile.capabilities ∨
      (some path).getD "" = "") := by
    rw [not_or]
    exact ⟨hprofile, hpath⟩
  simp only [trimChars_ne_nil_iff, ← shows_status_iff]
  unfold assertUnchangedWorkspace assertCapabilityBoundary
  rw [if_neg hchecked, ← readChangedPaths_ne_nil_iff]
  unfold ensure
  by_cases hread : readChangedPaths (status (first :: rest)) = []
  · simp [hread]
  · simp [hread, hprofile]

/-- A change of the file `src` alone is noticed. -/
theorem unchanged_workspace_rejected_source :
    ∃ message, assertUnchangedWorkspace ⟨[.readRepository], ["read"]⟩ (some "/work/step-1")
      [⟨.unmodified, .modified, "src".toList, by decide, by decide, by decide⟩] = .error message :=
  (unchanged_workspace_rejected_iff (by decide) (by decide) _ _).mpr (by decide +kernel)

/-- A change of the file `a` alone is not noticed. -/
theorem changed_file_unnoticed :
    assertUnchangedWorkspace ⟨[.readRepository], ["read"]⟩ (some "/work/step-1")
      [⟨.unmodified, .modified, "a".toList, by decide, by decide, by decide⟩] = .ok () := by
  decide +kernel

end BuildConductor.Engine
