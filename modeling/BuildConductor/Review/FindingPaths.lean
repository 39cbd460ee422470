import BuildConductor.Domain.Canonical
import BuildConductor.Domain.CanonicalPaths
import BuildConductor.Review.ReviewReport

/-!
# The paths of findings

Which spellings of a path a report may use. A finding is compared with scopes and with other
findings by the text of its paths, so a file should have one text only. The check on a path leaves
one other text to it: a leading `./`. `src/src/review/review-report.ts:56-75`,
`src/src/engine/steps/repair.ts:128-153`.
-/

namespace BuildConductor.Review

open Base Domain

/-! ## Accepted spellings -/

/-- The spellings that are refused, by the texts they are made of. -/
private structure SafeSpelling (candidate : String) : Prop where
  not_slash : ¬ startsWith candidate "/" = true
  not_drive : startsWithDrive candidate = false
  not_slashes : ¬ includes candidate "//" = true
  not_dot : candidate ≠ "."
  not_dots : candidate ≠ ".."
  not_climbing : ¬ startsWith candidate "../" = true
  not_inside : ¬ includes candidate "/../" = true
  not_ending : ¬ endsWith candidate "/.." = true
  not_inside_dot : ¬ includes candidate "/./" = true
  not_ending_dot : ¬ endsWith candidate "/." = true
  not_git : candidate ≠ ".git"
  not_below_git : ¬ startsWith candidate ".git/" = true
  no_nul : ∀ c ∈ candidate.toList, c.toNat ≠ 0

private theorem safeSpelling_of_safe {candidate : String} (h : isUnsafeFindingPath candidate = false) :
    SafeSpelling candidate := by
  unfold isUnsafeFindingPath at h
  simp only [Bool.or_eq_false_iff, decide_eq_false_iff_not, List.any_eq_false, decide_eq_true_eq] at h
  obtain ⟨⟨⟨⟨⟨⟨⟨⟨⟨⟨⟨⟨h1, h2⟩, h3⟩, h4⟩, h5⟩, h6⟩, h7⟩, h8⟩, h9⟩, h10⟩, h11⟩, h12⟩, h13⟩ := h
  exact ⟨by simp [h1], h2, by simp [h3], h4, h5, by simp [h6], by simp [h7], by simp [h8],
    by simp [h9], by simp [h10], h11, by simp [h12], h13⟩

/-- No segment of a path is `..`. -/
private theorem SafeSpelling.dots_not_mem {candidate : String} (h : SafeSpelling candidate) :
    ['.', '.'] ∉ segments candidate.toList := by
  intro hmem
  rcases mem_segments_cases hmem with htext | ⟨rest, htext⟩ | ⟨front, htext⟩ | ⟨front, rest, htext⟩
  · exact h.not_dots (String.toList_injective htext)
  · exact h.not_climbing (startsWith_iff.mpr ⟨rest, htext⟩)
  · exact h.not_ending (endsWith_iff.mpr ⟨front, htext⟩)
  · exact h.not_inside (includes_of_append htext)

/-- A segment `.` stands at the start only. -/
private theorem SafeSpelling.dot_not_mem {candidate : String} (h : SafeSpelling candidate)
    (hstart : startsWith candidate "./" = false) : ['.'] ∉ segments candidate.toList := by
  intro hmem
  rcases mem_segments_cases hmem with htext | ⟨rest, htext⟩ | ⟨front, htext⟩ | ⟨front, rest, htext⟩
  · exact h.not_dot (String.toList_injective htext)
  · rw [startsWith_iff.mpr ⟨rest, htext⟩] at hstart
    cases hstart
  · exact h.not_ending_dot (endsWith_iff.mpr ⟨front, htext⟩)
  · exact h.not_inside_dot (includes_of_append htext)

/-- An empty segment stands at the end only. -/
private theorem SafeSpelling.empty_segments {candidate : String} (h : SafeSpelling candidate)
    (hne : candidate ≠ "") :
    ∃ names slashes, slashes ≤ 1 ∧ segments candidate.toList = names ++ List.replicate slashes [] ∧
      [] ∉ names := by
  by_cases hslash : endsWith candidate "/" = true
  · obtain ⟨front, hfront⟩ := endsWith_slash_iff.mp hslash
    refine ⟨segments front, 1, le_refl 1, by rw [hfront, segments_append_trailing]; rfl, ?_⟩
    intro hmem
    rcases mem_segments_cases hmem with htext | ⟨rest, htext⟩ | ⟨before, htext⟩ | ⟨before, rest, htext⟩
    · exact h.not_slash (startsWith_iff.mpr ⟨[], by rw [hfront, htext]; rfl⟩)
    · exact h.not_slash (startsWith_iff.mpr ⟨rest ++ ['/'], by rw [hfront, htext]; rfl⟩)
    · refine h.not_slashes (@includes_of_append candidate "//" before [] ?_)
      rw [hfront, htext, List.append_assoc]
      rfl
    · refine h.not_slashes (@includes_of_append candidate "//" before (rest ++ ['/']) ?_)
      rw [hfront, htext, List.append_assoc]
      rfl
  · refine ⟨segments candidate.toList, 0, Nat.zero_le 1, by simp, ?_⟩
    intro hmem
    rcases mem_segments_cases hmem with htext | ⟨rest, htext⟩ | ⟨before, htext⟩ | ⟨before, rest, htext⟩
    · exact hne (String.toList_injective htext)
    · exact h.not_slash (startsWith_iff.mpr ⟨rest, htext⟩)
    · exact hslash (endsWith_iff.mpr ⟨before, htext⟩)
    · exact h.not_slashes (@includes_of_append candidate "//" before rest htext)

/-- What a path of a finding is like: it passes the check, and has neither been empty nor kept a
backslash. -/
structure AcceptedSpelling (candidate : String) : Prop where
  safe : isUnsafeFindingPath candidate = false
  nonempty : candidate ≠ ""
  no_backslash : '\\' ∉ candidate.toList

private theorem AcceptedSpelling.relative {candidate : String} (h : AcceptedSpelling candidate) :
    posixIsAbsolute candidate = false ∧ win32IsAbsolute candidate = false := by
  have hsafe := safeSpelling_of_safe h.safe
  have hslash : posixIsAbsolute candidate = false := by
    rw [← Bool.not_eq_true]
    exact hsafe.not_slash
  refine ⟨hslash, ?_⟩
  have hdrive := hsafe.not_drive
  have hbackslash := h.no_backslash
  unfold posixIsAbsolute startsWith at hslash
  unfold startsWithDrive at hdrive
  unfold win32IsAbsolute
  cases htext : candidate.toList with
  | nil => rfl
  | cons first rest =>
    rw [htext] at hslash hdrive hbackslash
    have hfirst : first ≠ '/' := by
      rintro rfl
      cases hslash
    have hmark : first ≠ '\\' := by
      rintro rfl
      exact hbackslash List.mem_cons_self
    dsimp only
    rw [decide_eq_false hfirst, decide_eq_false hmark, Bool.false_or, Bool.false_or,
      Bool.and_eq_false_iff]
    split
    · next sep more =>
      have hsep : sep ≠ '\\' := by
        rintro rfl
        simp at hbackslash
      by_cases hseparator : sep = '/'
      · subst hseparator
        exact Or.inl hdrive
      · exact Or.inr (by rw [decide_eq_false hseparator, decide_eq_false hsep]; rfl)
    · next => exact Or.inr rfl

/-- An accepted path is normal unless it starts at the current directory. -/
theorem AcceptedSpelling.isNormalPath_iff {candidate : String} (h : AcceptedSpelling candidate) :
    IsNormalPath candidate ↔ startsWith candidate "./" = false := by
  constructor
  · exact IsNormalPath.not_dot
  · intro hstart
    have hsafe := safeSpelling_of_safe h.safe
    obtain ⟨names, slashes, hslashes, hsegments, hfull⟩ := hsafe.empty_segments h.nonempty
    have hmem : ∀ name ∈ names, name ∈ segments candidate.toList := by
      intro name hname
      rw [hsegments]
      exact List.mem_append_left _ hname
    have hne : names ≠ [] := by
      rintro rfl
      rw [List.nil_append] at hsegments
      by_cases hzero : slashes = 0
      · rw [hzero] at hsegments
        exact segments_ne_nil _ hsegments
      · have hone : slashes = 1 := by omega
        rw [hone] at hsegments
        exact h.nonempty (String.toList_injective (segments_inj hsegments))
    refine ⟨names, slashes, hslashes, hsegments, hne, ?_, h.relative, ?_⟩
    · intro name hname
      refine ⟨?_, ?_, ?_⟩
      · rintro rfl
        exact hfull hname
      · rintro rfl
        exact hsafe.dot_not_mem hstart (hmem _ hname)
      · rintro rfl
        exact hsafe.dots_not_mem (hmem _ hname)
    · intro hhead
      have hgit : (segments candidate.toList).head? = some ".git".toList := by
        rw [hsegments, List.head?_append, hhead]
        rfl
      rcases (head_segments_iff (by decide)).mpr hgit with hsame | hbelow
      · exact hsafe.not_git hsame
      · exact hsafe.not_below_git hbelow

/-! ## The paths a report names -/

/-- A path as it is compared: trimmed, with slashes for backslashes. -/
def spelling (text : String) : String := withSlashes (trim text)

/-- The text of a string. -/
def textOf? : Json → Option String
  | .str text => some text
  | _ => none

/-- The texts of the paths a finding of the document lists. -/
def findingPaths : Json → List String
  | .obj fields =>
    match Json.field fields "paths" with
    | some (.arr items) => items.filterMap textOf?
    | _ => []
  | _ => []

/-- The texts of the paths the findings of the document list. -/
def documentPaths : Json → List String
  | .obj fields =>
    match Json.field fields "findings" with
    | some (.arr candidates) => candidates.flatMap findingPaths
    | _ => []
  | _ => []

/-- The texts of the paths the document between the markers lists. -/
def reportPaths (output : String) : List String :=
  match extractPayload output with
  | .ok payload => ((parseJson payload).map documentPaths).getD []
  | .error _ => []

private theorem requiredString_ok {value : Option Json} {path text : String} {maximum : Nat}
    (h : requiredString value path maximum = .ok text) :
    ∃ raw, value = some (.str raw) ∧ trim raw ≠ "" ∧ text = trim raw := by
  unfold requiredString at h
  split at h
  · next raw =>
    split at h
    · next => cases h
    · next hne =>
      split at h
      · next => cases h
      · next =>
        cases h
        exact ⟨raw, rfl, hne, rfl⟩
  · next => cases h

private theorem safePath_ok {value : Option Json} {path candidate : String}
    (h : safePath value path = .ok candidate) :
    ∃ text, value = some (.str text) ∧ candidate = spelling text ∧ AcceptedSpelling candidate := by
  obtain ⟨required, hrequired, h⟩ := bind_ok_iff.mp h
  obtain ⟨text, rfl, hne, rfl⟩ := requiredString_ok hrequired
  dsimp only at h
  split at h
  · next => cases h
  · next hsafe =>
    have hsame : spelling text = candidate := Except.ok.inj h
    subst hsame
    rw [Bool.not_eq_true] at hsafe
    have hchars : (spelling text).toList = (trim text).toList.map fun c => if c = '\\' then '/' else c :=
      String.toList_ofList
    refine ⟨text, rfl, rfl, hsafe, ?_, ?_⟩
    · intro hempty
      have hnil : (spelling text).toList = [] := by
        rw [hempty]
        rfl
      rw [hchars, List.map_eq_nil_iff] at hnil
      exact hne (String.toList_eq_nil_iff.mp hnil)
    · intro hmem
      change '\\' ∈ (spelling text).toList at hmem
      rw [hchars, List.mem_map] at hmem
      obtain ⟨c, -, hc⟩ := hmem
      split at hc
      · next => cases hc
      · next hother => exact hother hc

private theorem mapM_safePath_ok {items : List Json} {path : String} {start : Nat} {paths : List String}
    (h : (items.zipIdx start).mapM (fun entry => safePath (some entry.1) s!"{path}[{entry.2}]") =
      .ok paths) :
    paths = (items.filterMap textOf?).map spelling ∧
      ∀ candidate ∈ paths, AcceptedSpelling candidate := by
  induction items generalizing start paths with
  | nil =>
    cases h
    exact ⟨rfl, by simp⟩
  | cons item items ih =>
    rw [List.zipIdx_cons, List.mapM_cons] at h
    obtain ⟨candidate, hcandidate, h⟩ := bind_ok_iff.mp h
    obtain ⟨rest, hrest, h⟩ := bind_ok_iff.mp h
    cases h
    obtain ⟨text, hitem, rfl, haccepted⟩ := safePath_ok hcandidate
    cases hitem
    obtain ⟨hpaths, hall⟩ := ih hrest
    have htext : textOf? (.str text) = some text := rfl
    rw [List.forall_mem_cons, List.filterMap_cons_some htext, List.map_cons, ← hpaths]
    exact ⟨rfl, haccepted, hall⟩

variable {platform : ReportPlatform}

/-- The paths of a finding are the spellings of the texts it lists, each once. -/
private theorem readFinding_paths {path : String} {candidate : Json} {finding : ReviewReportFinding}
    (h : readFinding platform path candidate = .ok finding) :
    (∀ spelled, spelled ∈ finding.paths ↔ ∃ text ∈ findingPaths candidate, spelling text = spelled) ∧
      finding.paths.Nodup ∧ ∀ spelled ∈ finding.paths, AcceptedSpelling spelled := by
  unfold readFinding at h
  split at h
  · next fields =>
    obtain ⟨severity, -, h⟩ := bind_ok_iff.mp h
    obtain ⟨confidence, -, h⟩ := bind_ok_iff.mp h
    obtain ⟨paths, hpaths, h⟩ := bind_ok_iff.mp h
    obtain ⟨title, -, h⟩ := bind_ok_iff.mp h
    obtain ⟨description, -, h⟩ := bind_ok_iff.mp h
    obtain ⟨recommendation, -, h⟩ := bind_ok_iff.mp h
    cases h
    unfold readPaths at hpaths
    split at hpaths
    · next item items hfield =>
      obtain ⟨listed, hlisted, hsorted⟩ := bind_ok_iff.mp hpaths
      cases hsorted
      obtain ⟨htexts, hall⟩ := mapM_safePath_ok hlisted
      have hmem : ∀ spelled,
          spelled ∈ listed.eraseDups.mergeSort platform.localeCompare ↔ spelled ∈ listed := by
        intro spelled
        rw [List.mem_mergeSort, List.mem_eraseDups]
      refine ⟨fun spelled => ?_, ?_, fun spelled hspelled => hall spelled ((hmem spelled).mp hspelled)⟩
      · rw [hmem, htexts, List.mem_map, findingPaths, hfield]
      · exact (List.mergeSort_perm _ _).nodup_iff.mpr (nodup_eraseDups _)
    · next => cases hpaths
  · next => cases h

/-- The findings of a report: their paths are those the document lists, and no two are the same. -/
private theorem readFindings_paths {fingerprints : List String} {index : Nat} {candidates : List Json}
    {findings : List ReviewReportFinding}
    (h : readFindings platform fingerprints index candidates = .ok findings) :
    (∀ spelled, (∃ finding ∈ findings, spelled ∈ finding.paths) ↔
        ∃ text ∈ candidates.flatMap findingPaths, spelling text = spelled) ∧
      (∀ finding ∈ findings, finding.paths.Nodup ∧ ∀ spelled ∈ finding.paths, AcceptedSpelling spelled) ∧
      (∀ finding ∈ findings, fingerprint platform finding ∉ fingerprints) ∧
      findings.Pairwise fun left right => fingerprint platform left ≠ fingerprint platform right := by
  induction candidates generalizing fingerprints index findings with
  | nil =>
    cases h
    simp
  | cons candidate candidates ih =>
    obtain ⟨finding, hfinding, h⟩ := bind_ok_iff.mp h
    obtain ⟨hnew, h⟩ := seq_ok_iff.mp h
    obtain ⟨rest, hrest, h⟩ := bind_ok_iff.mp h
    cases h
    rw [ensure_ok_iff] at hnew
    obtain ⟨hpaths, hnodup, haccepted⟩ := readFinding_paths hfinding
    obtain ⟨hmem, hall, hfresh, hpairwise⟩ := ih hrest
    refine ⟨fun spelled => ?_, ?_, ?_, ?_⟩
    · rw [List.flatMap_cons]
      simp only [List.exists_mem_cons_iff, List.mem_append, or_and_right, exists_or, hmem, hpaths]
    · rw [List.forall_mem_cons]
      exact ⟨⟨hnodup, haccepted⟩, hall⟩
    · rw [List.forall_mem_cons]
      refine ⟨hnew, fun other hother hold => hfresh other hother ?_⟩
      exact List.mem_append_left _ hold
    · rw [List.pairwise_cons]
      refine ⟨fun other hother heq => hfresh other hother ?_, hpairwise⟩
      rw [← heq]
      exact List.mem_append_right _ (List.mem_singleton_self _)

/-- What an accepted output gives. -/
private theorem parseReviewReport_ok {output : String} {category : ReviewCategory} {baseCommit : String}
    {report : ParsedReviewReport}
    (h : parseReviewReport platform (some output) category baseCommit = .ok report) :
    (∀ spelled, (∃ finding ∈ report.findings, spelled ∈ finding.paths) ↔
        ∃ text ∈ reportPaths output, spelling text = spelled) ∧
      (∀ finding ∈ report.findings,
        finding.paths.Nodup ∧ ∀ spelled ∈ finding.paths, AcceptedSpelling spelled) ∧
      report.findings.Pairwise fun left right =>
        fingerprint platform left ≠ fingerprint platform right := by
  obtain ⟨text, htext, h⟩ := bind_ok_iff.mp h
  cases require_ok_iff.mp htext
  obtain ⟨payload, hpayload, h⟩ := bind_ok_iff.mp h
  split at h
  · next => cases h
  · next value hvalue =>
    have hlisted : reportPaths output = documentPaths value := by
      rw [reportPaths, hpayload]
      dsimp only
      rw [hvalue]
      rfl
    rw [hlisted]
    unfold readReport at h
    split at h
    · next fields =>
      dsimp only at h
      obtain ⟨-, h⟩ := seq_ok_iff.mp h
      obtain ⟨-, h⟩ := seq_ok_iff.mp h
      obtain ⟨-, h⟩ := seq_ok_iff.mp h
      obtain ⟨summary, -, h⟩ := bind_ok_iff.mp h
      split at h
      · next candidates hfield =>
        obtain ⟨-, h⟩ := seq_ok_iff.mp h
        obtain ⟨findings, hfindings, h⟩ := bind_ok_iff.mp h
        cases h
        obtain ⟨hmem, hall, -, hpairwise⟩ := readFindings_paths hfindings
        rw [documentPaths, hfield]
        exact ⟨hmem, hall, hpairwise⟩
      · next => cases h
    · next => cases h

/-! ## What the paths of a report stand for -/

/-- A finding whose paths are replaced by their normal forms. -/
def normalizedFinding (finding : ReviewFinding) : ReviewFinding :=
  { finding with paths := finding.paths.map posixNormalize }

/-- Every path of a report is in its only spelling, so a scope decides a finding as it decides what
the finding denotes, and no two findings differ in the spelling of their paths only. -/
structure NamesNormalPaths (platform : ReportPlatform) (report : ParsedReviewReport) : Prop where
  normal : ∀ finding ∈ report.findings, ∀ path ∈ finding.paths, IsNormalPath path
  decided : ∀ (category : ReviewCategory) (round : Nat) (allowedPaths withheldPaths : List String),
    (∀ entry ∈ allowedPaths ++ withheldPaths, IsCanonicalPath entry) →
      repairScopeError allowedPaths withheldPaths (materializeReviewFindings report category round) =
        repairScopeError allowedPaths withheldPaths
          ((materializeReviewFindings report category round).map normalizedFinding)
  distinct : ∀ finding ∈ report.findings, (finding.paths.map posixNormalize).Nodup
  one_finding : report.findings.Pairwise fun left right =>
    platform.toLowerCase left.title = platform.toLowerCase right.title →
      left.paths.map posixNormalize ≠ right.paths.map posixNormalize

private theorem map_posixNormalize {paths : List String} (h : ∀ path ∈ paths, IsNormalPath path) :
    paths.map posixNormalize = paths := by
  conv_rhs => rw [← List.map_id paths]
  exact List.map_congr_left fun path hpath => (h path hpath).normalize

/-- Findings whose paths are normal denote what they name. -/
private theorem map_normalizedFinding {report : ParsedReviewReport}
    (h : ∀ finding ∈ report.findings, ∀ path ∈ finding.paths, IsNormalPath path)
    (category : ReviewCategory) (round : Nat) :
    (materializeReviewFindings report category round).map normalizedFinding =
      materializeReviewFindings report category round := by
  conv_rhs => rw [← List.map_id (materializeReviewFindings report category round)]
  apply List.map_congr_left
  intro finding hfinding
  unfold materializeReviewFindings at hfinding
  obtain ⟨⟨reported, index⟩, hreported, rfl⟩ := List.mem_map.mp hfinding
  have hmem : reported ∈ report.findings := List.fst_mem_of_mem_zipIdx hreported
  have hpaths := map_posixNormalize (h reported hmem)
  rw [normalizedFinding, id_eq, hpaths]

/-- The paths of an accepted report are in their only spelling when none is written with a leading
`./`. For them to be entries that scopes may have, they may have no wildcard either. -/
theorem report_names_normal_paths_iff {output : String} {category : ReviewCategory}
    {baseCommit : String} {report : ParsedReviewReport}
    (h : parseReviewReport platform (some output) category baseCommit = .ok report) :
    (NamesNormalPaths platform report ↔
      ∀ text ∈ reportPaths output, startsWith (spelling text) "./" = false) ∧
    ((∀ finding ∈ report.findings, ∀ path ∈ finding.paths, IsCanonicalPath path) ↔
      ∀ text ∈ reportPaths output, startsWith (spelling text) "./" = false ∧
        ∀ c ∈ (spelling text).toList, isForbiddenPathChar c = false) := by
  obtain ⟨hmem, hall, hpairwise⟩ := parseReviewReport_ok h
  -- A property of every path of the report is one of every text the document lists.
  have hevery : ∀ p : String → Prop,
      (∀ finding ∈ report.findings, ∀ path ∈ finding.paths, p path) ↔
        ∀ text ∈ reportPaths output, p (spelling text) := by
    intro p
    constructor
    · intro hp text htext
      obtain ⟨finding, hfinding, hpath⟩ := (hmem (spelling text)).mpr ⟨text, htext, rfl⟩
      exact hp finding hfinding _ hpath
    · intro hp finding hfinding path hpath
      obtain ⟨text, htext, rfl⟩ := (hmem path).mp ⟨finding, hfinding, hpath⟩
      exact hp text htext
  have haccepted : ∀ text ∈ reportPaths output, AcceptedSpelling (spelling text) :=
    (hevery _).mp fun finding hfinding => (hall finding hfinding).2
  have hnormal : (∀ finding ∈ report.findings, ∀ path ∈ finding.paths, IsNormalPath path) ↔
      ∀ text ∈ reportPaths output, startsWith (spelling text) "./" = false := by
    rw [hevery]
    exact forall₂_congr fun text htext => (haccepted text htext).isNormalPath_iff
  constructor
  · rw [← hnormal]
    constructor
    · exact NamesNormalPaths.normal
    · intro hpaths
      refine ⟨hpaths, ?_, ?_, ?_⟩
      · intro category round allowedPaths withheldPaths _
        rw [map_normalizedFinding hpaths]
      · intro finding hfinding
        rw [map_posixNormalize (hpaths finding hfinding)]
        exact (hall finding hfinding).1
      · refine hpairwise.imp_of_mem fun {left right} hleft hright hne htitle hsame => hne ?_
        rw [map_posixNormalize (hpaths left hleft), map_posixNormalize (hpaths right hright)] at hsame
        rw [fingerprint, fingerprint, htitle, hsame]
  · rw [hevery]
    refine forall₂_congr fun text htext => ?_
    rw [isCanonicalPath_iff_normal, (haccepted text htext).isNormalPath_iff]

/-- A runtime that orders texts by their characters. -/
def plainPlatform : ReportPlatform where
  localeCompare left right := left ≤ right
  toLowerCase := String.toLower
  syntaxMessage _ := "Unexpected end of JSON input"

/-- A report with one finding about one path. -/
def sampleDocument (path : String) : Json :=
  .obj [("version", .number 1), ("category", .str "tests"), ("baseCommit", .str "abc123"),
    ("summary", .str "Found one issue"),
    ("findings", .arr [.obj [("severity", .str "high"), ("confidence", .str "high"),
      ("title", .str "Unsafe input"), ("description", .str "Input is not checked."),
      ("paths", .arr [.str path]), ("recommendation", .str "Check it.")]])]

/-- The output of a reviewer that prints the report. -/
def sampleOutput (path : String) : String :=
  reviewReportStart ++ jsonText .compact (sampleDocument path) ++ reviewReportEnd

/-- The report as it is read. -/
def sampleReport (path : String) : ParsedReviewReport where
  summary := "Found one issue"
  findings := [{
    severity := .high
    confidence := .high
    title := "Unsafe input"
    description := "Input is not checked."
    paths := [path]
    recommendation := "Check it." }]

private theorem parse_sampleOutput {path : String}
    (hsize : (sampleOutput path).utf8ByteSize ≤ maxReportBytes)
    (hmarked : markedPayload (reviewReportStart.toList ++ render .compact 0 (sampleDocument path) ++
      reviewReportEnd.toList) = .ok (render .compact 0 (sampleDocument path)))
    (hread : readReport plainPlatform .tests "abc123" (sampleDocument path) = .ok (sampleReport path)) :
    parseReviewReport plainPlatform (some (sampleOutput path)) .tests "abc123" =
      .ok (sampleReport path) := by
  have hchars : (sampleOutput path).toList =
      reviewReportStart.toList ++ render .compact 0 (sampleDocument path) ++ reviewReportEnd.toList := by
    rw [sampleOutput, String.toList_append, String.toList_append, jsonText, String.toList_ofList]
  have hpayload : extractPayload (sampleOutput path) = .ok (jsonText .compact (sampleDocument path)) := by
    rw [extractPayload, if_neg (Nat.not_lt.mpr hsize), hchars, hmarked]
    rfl
  have hwritable : (sampleDocument path).Writable := by
    simp only [sampleDocument, Json.Writable, Json.WritableFields, Json.WritableItems, and_true,
      List.map_cons, List.map_nil, and_self, true_and]
    decide
  have hjson := parseJson_jsonText .compact hwritable [] (by simp)
  rw [String.ofList_nil, String.append_empty] at hjson
  refine bind_ok_iff.mpr ⟨sampleOutput path, rfl, bind_ok_iff.mpr ⟨_, hpayload, ?_⟩⟩
  rw [hjson]
  exact hread

private theorem parse_normalSample :
    parseReviewReport plainPlatform (some (sampleOutput "src/a.ts")) .tests "abc123" =
      .ok (sampleReport "src/a.ts") :=
  parse_sampleOutput (by decide +kernel) (by decide +kernel) (by decide +kernel)

theorem report_names_normal_paths_sample :
    NamesNormalPaths plainPlatform (sampleReport "src/a.ts") ↔
      ∀ text ∈ reportPaths (sampleOutput "src/a.ts"), startsWith (spelling text) "./" = false :=
  (report_names_normal_paths_iff parse_normalSample).1

/-- A finding about `src/a.ts` that is spelled `./src/a.ts` is accepted, and then refused as outside
of `src/`. -/
theorem dotted_path_accepted :
    parseReviewReport plainPlatform (some (sampleOutput "./src/a.ts")) .tests "abc123" =
        .ok (sampleReport "./src/a.ts") ∧
      ¬ NamesNormalPaths plainPlatform (sampleReport "./src/a.ts") ∧
      repairScopeError ["src/"] [] (materializeReviewFindings (sampleReport "./src/a.ts") .tests 1) =
        some "Important findings require changes outside approved paths: review-1-tests-001" ∧
      repairScopeError ["src/"] [] ((materializeReviewFindings (sampleReport "./src/a.ts") .tests 1).map
        normalizedFinding) = none := by
  refine ⟨parse_sampleOutput (by decide +kernel) (by decide +kernel) (by decide +kernel), ?_,
    by decide +kernel, by decide +kernel⟩
  intro h
  have hdot := (h.normal _ (List.mem_singleton_self _) "./src/a.ts" (List.mem_singleton_self _)).not_dot
  revert hdot
  decide +kernel

end BuildConductor.Review
