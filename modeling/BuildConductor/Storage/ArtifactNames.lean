import BuildConductor.Storage.ArtifactStore

/-!
# Names of artifact files

The id of an artifact spells its identity and the name of its file spells the id. Every id the store
writes reads back; an id that is read need not be the one the store writes, because the attempt
number may start with zeros. `src/src/domain/artifacts.ts:110-143`,
`src/src/storage/artifact-store.ts:306-330`, `src/src/storage/artifact-store.ts:431-454`.
-/

namespace BuildConductor.Storage

open Base Domain

/-! ## Decimal numbers -/

private theorem digitChar_of_isDigit {c : Char} (h : c.isDigit = true) :
    Nat.digitChar (c.toNat - '0'.toNat) = c ∧ c.toNat - '0'.toNat < 10 := by
  have hrange : 48 ≤ c.toNat ∧ c.toNat ≤ 57 := by
    simp only [Char.isDigit, ge_iff_le, Bool.and_eq_true, decide_eq_true_eq] at h
    have hlow : (48 : UInt32).toNat ≤ c.val.toNat := UInt32.le_iff_toNat_le.mp h.1
    have hhigh : c.val.toNat ≤ (57 : UInt32).toNat := UInt32.le_iff_toNat_le.mp h.2
    exact ⟨hlow, hhigh⟩
  have hcode : c = Char.ofNat c.toNat := (Char.ofNat_toNat c).symm
  have hdigits : ∀ n < 10, Nat.digitChar n = Char.ofNat (n + 48) := by decide
  have hzero : '0'.toNat = 48 := rfl
  have hlt : c.toNat - '0'.toNat < 10 := by omega
  refine ⟨?_, hlt⟩
  rw [hdigits _ hlt, hzero, Nat.sub_add_cancel hrange.1]
  exact hcode.symm

/-- Digits that do not start with a zero are the digits of their number. -/
theorem toDigits_ofDigitChars {cs : List Char} (hne : cs ≠ [])
    (hdigits : ∀ c ∈ cs, c.isDigit = true) (hzero : cs.head? ≠ some '0') :
    Nat.toDigits 10 (Nat.ofDigitChars 10 cs 0) = cs := by
  induction cs using List.reverseRecOn with
  | nil => exact absurd rfl hne
  | append_singleton front c ih =>
    obtain ⟨hchar, hlt⟩ := digitChar_of_isDigit (hdigits c (by simp))
    have hlast : ∀ n, Nat.ofDigitChars 10 [c] n = 10 * n + (c.toNat - '0'.toNat) := by
      intro n
      rw [Nat.ofDigitChars_cons, Nat.ofDigitChars_nil]
    rw [Nat.ofDigitChars_append, hlast]
    by_cases hfront : front = []
    · subst hfront
      rw [Nat.ofDigitChars_nil, Nat.mul_zero, Nat.zero_add, Nat.toDigits_of_lt_base hlt, hchar]
      rfl
    · have hhead : (front ++ [c]).head? = front.head? := List.head?_append_of_ne_nil _ hfront
      rw [hhead] at hzero
      have hrec := ih hfront (fun d hd => hdigits d (List.mem_append_left _ hd)) hzero
      have hpos : 0 < Nat.ofDigitChars 10 front 0 := by
        rw [Nat.pos_iff_ne_zero]
        intro hnone
        rw [hnone, Nat.toDigits_zero] at hrec
        rw [← hrec] at hzero
        exact hzero rfl
      rw [← Nat.toDigits_append_toDigits (by omega) hpos hlt, hrec, Nat.toDigits_of_lt_base hlt,
        hchar]

/-- The digits of a positive number do not start with a zero. -/
theorem toDigits_head_ne_zero {n : Nat} (h : 1 ≤ n) : (Nat.toDigits 10 n).head? ≠ some '0' := by
  intro hzero
  have hliteral := natLiteral_toDigits n
  unfold natLiteral at hliteral
  split at hliteral
  · next hshape =>
    have hdigits := hshape.2.2 hzero
    rw [hdigits, Option.some.injEq] at hliteral
    have hnil : Nat.ofDigitChars 10 ['0'] 0 = 0 := rfl
    omega
  · cases hliteral

/-! ## Ids -/

/-- An id whose attempt number starts with a zero: its names start with letters. -/
def leadingZero (id : String) : Bool := includes id ".0"

/-- The parts of an id that is read. -/
private theorem parseArtifactId_parts {id : String} {identity : ArtifactIdentity}
    (h : parseArtifactId id = .ok identity) : ∃ attemptText : List Char,
      id.toList = ['.'].intercalate [identity.stepId.toList, identity.output.toList, attemptText] ∧
      attemptText ≠ [] ∧ (∀ c ∈ attemptText, c.isDigit = true) ∧
      identity.attempt = Nat.ofDigitChars 10 attemptText 0 ∧
      ∃ canonical, artifactIdFor identity = .ok canonical := by
  unfold parseArtifactId at h
  split at h
  · next stepId output attemptText hsplit =>
    split at h
    · next hshape =>
      dsimp only at h
      obtain ⟨canonical, hcanonical, hpure⟩ := bind_ok_iff.mp h
      cases hpure
      refine ⟨attemptText, ?_, hshape.1, List.all_eq_true.mp hshape.2, rfl, canonical, hcanonical⟩
      rw [String.toList_ofList, String.toList_ofList, ← hsplit, List.intercalate_splitOn]
    · cases h
  · cases h

/-- A text includes another when it stands somewhere in it. -/
theorem includes_iff {s part : String} :
    includes s part = true ↔ ∃ before after, s.toList = before ++ part.toList ++ after := by
  unfold includes
  rw [List.any_eq_true]
  constructor
  · rintro ⟨tail, htail, hprefix⟩
    obtain ⟨before, hbefore⟩ := (List.mem_tails _ _).mp htail
    obtain ⟨after, hafter⟩ := List.isPrefixOf_iff_prefix.mp hprefix
    exact ⟨before, after, by rw [List.append_assoc, hafter, hbefore]⟩
  · rintro ⟨before, after, hsplit⟩
    refine ⟨part.toList ++ after, ?_, List.isPrefixOf_iff_prefix.mpr (List.prefix_append _ _)⟩
    rw [List.mem_tails]
    exact ⟨before, by rw [hsplit, List.append_assoc]⟩

/-- Where a separator stands in a list that is split at its first one. -/
private theorem append_cons_cases {α : Type} {separator : α} {first rest before tail : List α}
    (hfresh : separator ∉ first) (h : first ++ separator :: rest = before ++ separator :: tail) :
    (before = first ∧ rest = tail) ∨
      ∃ between, before = first ++ separator :: between ∧ rest = between ++ separator :: tail := by
  induction first generalizing before with
  | nil =>
    cases before with
    | nil =>
      rw [List.nil_append, List.nil_append, List.cons.injEq] at h
      exact Or.inl ⟨rfl, h.2⟩
    | cons x before =>
      rw [List.nil_append, List.cons_append, List.cons.injEq] at h
      rw [← h.1]
      exact Or.inr ⟨before, rfl, h.2⟩
  | cons y first ih =>
    rw [List.mem_cons, not_or] at hfresh
    cases before with
    | nil =>
      rw [List.cons_append, List.nil_append, List.cons.injEq] at h
      exact absurd h.1.symm hfresh.1
    | cons x before =>
      rw [List.cons_append, List.cons_append, List.cons.injEq] at h
      rcases ih hfresh.2 h.2 with ⟨hbefore, hrest⟩ | ⟨between, hbefore, hrest⟩
      · exact Or.inl ⟨by rw [hbefore, h.1], hrest⟩
      · exact Or.inr ⟨between, by rw [hbefore, h.1, List.cons_append], hrest⟩

/-- A name starts with a letter. -/
private theorem head_ne_zero_of_matchesIdPattern {s : String} (h : matchesIdPattern s = true) :
    ∃ c rest, s.toList = c :: rest ∧ c ≠ '0' := by
  unfold matchesIdPattern at h
  split at h
  · cases h
  · next c rest hcons =>
    rw [Bool.and_eq_true] at h
    refine ⟨c, rest, hcons, ?_⟩
    rintro rfl
    exact absurd h.1 (by decide)

/-- Only the attempt number of an id can start with a zero. -/
private theorem leadingZero_iff {id stepId output : String} {attemptText : List Char}
    (hid : id.toList = ['.'].intercalate [stepId.toList, output.toList, attemptText])
    (hstep : matchesIdPattern stepId = true) (houtput : matchesIdPattern output = true)
    (hdigits : ∀ c ∈ attemptText, c.isDigit = true) :
    leadingZero id = true ↔ attemptText.head? = some '0' := by
  have hparts : id.toList =
      stepId.toList ++ '.' :: (output.toList ++ '.' :: attemptText) := by
    rw [hid]
    simp [List.intercalate]
  have hpart : ".0".toList = ['.', '0'] := rfl
  unfold leadingZero
  rw [includes_iff, hparts, hpart]
  constructor
  · rintro ⟨before, after, hsplit⟩
    rw [List.append_assoc] at hsplit
    rcases append_cons_cases (ne_dot_of_matchesIdPattern hstep) hsplit with ⟨-, hrest⟩ | hlater
    · obtain ⟨c, rest, hcons, hne⟩ := head_ne_zero_of_matchesIdPattern houtput
      rw [hcons] at hrest
      injection hrest with hzero _
      exact absurd hzero hne
    · obtain ⟨between, -, hrest⟩ := hlater
      rcases append_cons_cases (ne_dot_of_matchesIdPattern houtput) hrest with ⟨-, htext⟩ | hlater
      · rw [htext]
        rfl
      · obtain ⟨inside, -, htext⟩ := hlater
        have hdot : '.' ∈ attemptText := by
          rw [htext]
          simp
        exact absurd (hdigits '.' hdot) (by decide)
  · intro hzero
    cases attemptText with
    | nil => cases hzero
    | cons c rest =>
      cases hzero
      exact ⟨stepId.toList ++ '.' :: output.toList, rest, by simp⟩

/-- The id that is read is the one its identity is written with, unless its attempt number starts
with a zero. -/
theorem artifactIdFor_of_parseArtifactId_iff {id : String} {identity : ArtifactIdentity}
    (h : parseArtifactId id = .ok identity) :
    artifactIdFor identity = .ok id ↔ leadingZero id = false := by
  obtain ⟨attemptText, hid, hne, hdigits, hattempt, canonical, hcanonical⟩ := parseArtifactId_parts h
  obtain ⟨hstep, houtput, hrange, -, hname⟩ := artifactIdFor_ok_iff.mp hcanonical
  rw [← Bool.not_eq_true, leadingZero_iff hid hstep houtput hdigits, hcanonical, Except.ok.injEq]
  have hcanonicalList : canonical.toList = ['.'].intercalate [identity.stepId.toList,
      identity.output.toList, Nat.toDigits 10 identity.attempt] := by
    rw [hname]
    exact toList_artifactId identity
  constructor
  · intro heq
    rw [heq, hid] at hcanonicalList
    have htext : attemptText = Nat.toDigits 10 identity.attempt := by
      simpa [List.intercalate] using hcanonicalList
    rw [htext]
    exact toDigits_head_ne_zero hrange.1
  · intro hzero
    have htext : Nat.toDigits 10 identity.attempt = attemptText := by
      rw [hattempt]
      exact toDigits_ofDigitChars hne hdigits hzero
    rw [htext, ← hid] at hcanonicalList
    exact String.toList_injective hcanonicalList

/-! ## File names -/

namespace ArtifactStore

/-- A listed name is the name of the file of its part before the extension. -/
theorem fileNameFor_withoutExtension {platform : Platform} {files : RunDirectory} {fileName : String}
    (h : fileName ∈ listFileNames platform files) :
    fileNameFor (withoutExtension fileName) = fileName := by
  unfold listFileNames at h
  rw [List.mem_mergeSort, List.mem_filter] at h
  obtain ⟨front, hfront⟩ := List.isSuffixOf_iff_suffix.mp h.2
  have hextension : ".json".toList.length = 5 := rfl
  apply String.toList_injective
  unfold fileNameFor withoutExtension
  rw [String.toList_append, String.toList_ofList, ← hfront, List.length_append, hextension,
    Nat.add_sub_cancel, List.take_left]

theorem fileNameFor_inj {id other : String} (h : fileNameFor id = fileNameFor other) :
    id = other := by
  have hlists := congrArg String.toList h
  unfold fileNameFor at hlists
  rw [String.toList_append, String.toList_append, List.append_cancel_right_eq] at hlists
  exact String.toList_injective hlists

/-- Ids encode identities one to one, up to zeros in front of the attempt number: what is written
reads back, and what reads back is what was written exactly when there are none. So the file a
listed name spells is the one its identity names exactly then. -/
theorem artifact_ids_bijective_iff (platform : Platform) :
    (∀ identity id, artifactIdFor identity = .ok id → parseArtifactId id = .ok identity) ∧
      (∀ id identity, parseArtifactId id = .ok identity →
        (artifactIdFor identity = .ok id ↔ leadingZero id = false)) ∧
      ∀ files, ∀ fileName ∈ listFileNames platform files, ∀ identity,
        parseArtifactId (withoutExtension fileName) = .ok identity →
        ((∃ id, artifactIdFor identity = .ok id ∧ fileNameFor id = fileName) ↔
          leadingZero (withoutExtension fileName) = false) := by
  refine ⟨fun identity id h => parseArtifactId_of_artifactIdFor h,
    fun id identity h => artifactIdFor_of_parseArtifactId_iff h, ?_⟩
  intro files fileName hlisted identity hparsed
  have hname := fileNameFor_withoutExtension hlisted
  rw [← artifactIdFor_of_parseArtifactId_iff hparsed]
  constructor
  · rintro ⟨id, hid, hfile⟩
    rw [← hname] at hfile
    rwa [← fileNameFor_inj hfile]
  · exact fun hid => ⟨withoutExtension fileName, hid, hname⟩

/-- A platform whose listing keeps the order of the directory. -/
private def listedPlatform : Platform := ⟨fun _ => "", fun _ _ => true, fun _ => "unexpected token"⟩

theorem artifact_ids_bijective_first :
    parseArtifactId "plan.report.10" = .ok ⟨"plan", "report", 10⟩ ∧
      artifactIdFor ⟨"plan", "report", 10⟩ = .ok "plan.report.10" := by
  have hparsed : parseArtifactId "plan.report.10" = .ok ⟨"plan", "report", 10⟩ := by
    decide +kernel
  exact ⟨hparsed, ((artifact_ids_bijective_iff listedPlatform).2.1 _ _ hparsed).mpr
    (by decide +kernel)⟩

/-- An attempt number with zeros in front is read as the number, and the newest attempt is then
looked for in a file that does not exist. -/
theorem padded_attempt_not_found :
    parseArtifactId "plan.report.007" = .ok ⟨"plan", "report", 7⟩ ∧
      artifactIdFor ⟨"plan", "report", 7⟩ = .ok "plan.report.7" ∧
      (match latest ⟨"artifacts", ⟨1, by decide⟩, ⟨1, by decide⟩, ⟨1, by decide⟩, none⟩
          listedPlatform [("plan.report.007.json", "")] "run-1" "plan" "report" with
        | .ok _ => none
        | .error error => some error.code) = some .artifactNotFound := by
  decide +kernel

end ArtifactStore

end BuildConductor.Storage
