import BuildConductor.Domain.Paths
import Mathlib.Data.List.Basic

/-!
# Canonical repository paths

What the reader of repository paths accepts: names joined by single slashes, which normalisation
leaves as they are. The reader compares the normal form of an entry without its last slash, and
normalisation keeps one trailing slash, so one slash too many passes.
`src/src/domain/dag.ts:108-162`, `src/src/domain/paths.ts:6-13`.
-/

namespace BuildConductor.Domain

/-! ## Parts of a text -/

theorem startsWith_iff {s pre : String} :
    startsWith s pre = true ↔ ∃ rest, s.toList = pre.toList ++ rest := by
  unfold startsWith
  rw [List.isPrefixOf_iff_prefix]
  exact ⟨fun ⟨rest, h⟩ => ⟨rest, h.symm⟩, fun ⟨rest, h⟩ => ⟨rest, h.symm⟩⟩

theorem endsWith_iff {s suf : String} :
    endsWith s suf = true ↔ ∃ front, s.toList = front ++ suf.toList := by
  unfold endsWith
  rw [List.isSuffixOf_iff_suffix]
  exact ⟨fun ⟨front, h⟩ => ⟨front, h.symm⟩, fun ⟨front, h⟩ => ⟨front, h.symm⟩⟩

theorem includes_of_append {s part : String} {front rest : List Char}
    (h : s.toList = front ++ (part.toList ++ rest)) : includes s part = true := by
  unfold includes
  rw [List.any_eq_true]
  refine ⟨part.toList ++ rest, ?_, List.isPrefixOf_iff_prefix.mpr (List.prefix_append _ _)⟩
  rw [List.mem_tails, h]
  exact List.suffix_append _ _

/-! ## Segments -/

theorem segments_eq_splitOn (cs : List Char) : segments cs = cs.splitOn '/' := by
  induction cs with
  | nil => rfl
  | cons c rest ih =>
    rw [segments, List.splitOn_cons_eq_if_modifyHead, ih]
    by_cases hc : c = '/'
    · subst hc
      rfl
    · rw [if_neg hc, if_neg (by simpa using hc)]
      cases hrest : rest.splitOn '/' with
      | nil => exact absurd hrest (List.splitOn_ne_nil _ _)
      | cons first others => rfl

theorem intercalate_segments (cs : List Char) : ['/'].intercalate (segments cs) = cs := by
  rw [segments_eq_splitOn, List.intercalate_splitOn]

theorem segments_intercalate {parts : List (List Char)} (h : ∀ part ∈ parts, '/' ∉ part)
    (hne : parts ≠ []) : segments (['/'].intercalate parts) = parts := by
  rw [segments_eq_splitOn, List.splitOn_intercalate _ h hne]

/-- A text is split where a slash stands. -/
theorem segments_append_slash (xs ys : List Char) :
    segments (xs ++ '/' :: ys) = segments xs ++ segments ys := by
  rw [segments_eq_splitOn, segments_eq_splitOn, segments_eq_splitOn,
    List.splitOn_append_cons_self]

theorem segments_inj {cs ds : List Char} (h : segments cs = segments ds) : cs = ds := by
  rw [← intercalate_segments cs, h, intercalate_segments]

/-- The characters of a segment are characters of the text other than slashes. -/
theorem mem_of_mem_segments {cs segment : List Char} (h : segment ∈ segments cs) {c : Char}
    (hc : c ∈ segment) : c ∈ cs ∧ c ≠ '/' := by
  induction cs generalizing segment with
  | nil =>
    rw [segments, List.mem_singleton] at h
    subst h
    cases hc
  | cons d rest ih =>
    rw [segments] at h
    by_cases hd : d = '/'
    · rw [if_pos hd, List.mem_cons] at h
      rcases h with rfl | h
      · cases hc
      · exact ⟨List.mem_cons_of_mem _ (ih h hc).1, (ih h hc).2⟩
    · rw [if_neg hd] at h
      cases hrest : segments rest with
      | nil =>
        rw [hrest, List.mem_singleton] at h
        subst h
        rw [List.mem_singleton] at hc
        subst hc
        exact ⟨List.mem_cons_self, hd⟩
      | cons first others =>
        rw [hrest, List.mem_cons] at h
        rcases h with rfl | h
        · rcases List.mem_cons.mp hc with rfl | hc
          · exact ⟨List.mem_cons_self, hd⟩
          · have hfirst := ih (by rw [hrest]; exact List.mem_cons_self) hc
            exact ⟨List.mem_cons_of_mem _ hfirst.1, hfirst.2⟩
        · have hother := ih (by rw [hrest]; exact List.mem_cons_of_mem _ h) hc
          exact ⟨List.mem_cons_of_mem _ hother.1, hother.2⟩

/-- A character of a text is a slash or a character of some segment. -/
theorem exists_segment_of_mem {cs : List Char} {c : Char} (h : c ∈ cs) (hc : c ≠ '/') :
    ∃ segment ∈ segments cs, c ∈ segment := by
  have hjoined : c ∈ ['/'].intercalate (segments cs) := by rwa [intercalate_segments]
  generalize segments cs = parts at hjoined
  induction parts with
  | nil => cases hjoined
  | cons first others ih =>
    by_cases hothers : others = []
    · subst hothers
      rw [List.intercalate_singleton] at hjoined
      exact ⟨first, List.mem_cons_self, hjoined⟩
    · rw [List.intercalate_cons_of_ne_nil hothers, List.mem_append, List.mem_append,
        List.mem_singleton] at hjoined
      rcases hjoined with (hfirst | hslash) | hrest
      · exact ⟨first, List.mem_cons_self, hfirst⟩
      · exact absurd hslash hc
      · obtain ⟨segment, hsegment, hmem⟩ := ih hrest
        exact ⟨segment, List.mem_cons_of_mem _ hsegment, hmem⟩

/-- A text with segments in two groups has a slash between them. -/
theorem segments_split {cs : List Char} {xs ys : List (List Char)} (hx : xs ≠ []) (hy : ys ≠ [])
    (h : segments cs = xs ++ ys) :
    cs = ['/'].intercalate xs ++ '/' :: ['/'].intercalate ys := by
  have hfree : ∀ part ∈ xs ++ ys, '/' ∉ part := by
    rw [← h]
    intro part hpart hslash
    exact (mem_of_mem_segments hpart hslash).2 rfl
  apply segments_inj
  rw [segments_append_slash, segments_intercalate _ hx, segments_intercalate _ hy, h]
  · intro part hpart
    exact hfree part (List.mem_append_right _ hpart)
  · intro part hpart
    exact hfree part (List.mem_append_left _ hpart)

/-- Where a segment stands in a text: alone, at the start, at the end or between two slashes. -/
theorem mem_segments_cases {cs name : List Char} (h : name ∈ segments cs) :
    cs = name ∨ (∃ rest, cs = name ++ '/' :: rest) ∨ (∃ front, cs = front ++ '/' :: name) ∨
      ∃ front rest, cs = front ++ '/' :: (name ++ '/' :: rest) := by
  obtain ⟨before, after, hparts⟩ := List.append_of_mem h
  have hsingle : ['/'].intercalate [name] = name := List.intercalate_singleton
  have hname : ∀ rest, ['/'].intercalate (name :: rest) =
      if rest = [] then name else name ++ '/' :: ['/'].intercalate rest := by
    intro rest
    split
    · next hrest => rw [hrest, hsingle]
    · next hrest => rw [List.intercalate_cons_of_ne_nil hrest, List.append_assoc]; rfl
  by_cases hbefore : before = []
  · rw [hbefore, List.nil_append] at hparts
    have htext : cs = ['/'].intercalate (name :: after) := by rw [← hparts, intercalate_segments]
    rw [hname] at htext
    split at htext
    · next => exact Or.inl htext
    · next => exact Or.inr (Or.inl ⟨_, htext⟩)
  · have htext := segments_split hbefore (List.cons_ne_nil name after) hparts
    rw [hname] at htext
    split at htext
    · next => exact Or.inr (Or.inr (Or.inl ⟨_, htext⟩))
    · next => exact Or.inr (Or.inr (Or.inr ⟨_, _, htext⟩))

/-- A text starts with a name and a slash, or is that name, when the name is its first segment. -/
theorem head_segments_iff {s name : String} (hname : '/' ∉ name.toList) :
    (s = name ∨ startsWith s (name ++ "/") = true) ↔
      (segments s.toList).head? = some name.toList := by
  have hsingle : segments name.toList = [name.toList] := by
    rw [segments_eq_splitOn, List.splitOn_eq_singleton hname]
  have hslash : (name ++ "/").toList = name.toList ++ ['/'] := String.toList_append
  constructor
  · rintro (rfl | hstart)
    · rw [hsingle]
      rfl
    · unfold startsWith at hstart
      rw [List.isPrefixOf_iff_prefix, hslash] at hstart
      obtain ⟨rest, hrest⟩ := hstart
      rw [← hrest, List.append_assoc, List.singleton_append, segments_append_slash, hsingle]
      rfl
  · intro hhead
    cases hparts : segments s.toList with
    | nil =>
      rw [hparts] at hhead
      cases hhead
    | cons first others =>
      rw [hparts, List.head?_cons, Option.some.injEq] at hhead
      subst hhead
      have htext := intercalate_segments s.toList
      rw [hparts] at htext
      by_cases hothers : others = []
      · subst hothers
        rw [List.intercalate_singleton] at htext
        exact Or.inl (String.toList_injective htext.symm)
      · rw [List.intercalate_cons_of_ne_nil hothers] at htext
        refine Or.inr ?_
        unfold startsWith
        rw [List.isPrefixOf_iff_prefix, hslash, ← htext]
        exact List.prefix_append _ _

/-- A text ends with a slash when something before it is followed by an empty last segment. -/
theorem endsWith_slash_iff {s : String} :
    endsWith s "/" = true ↔ ∃ front, s.toList = front ++ ['/'] := by
  have hslash : "/".toList = ['/'] := rfl
  unfold endsWith
  rw [List.isSuffixOf_iff_suffix, hslash]
  constructor
  · rintro ⟨front, hfront⟩
    exact ⟨front, hfront.symm⟩
  · rintro ⟨front, hfront⟩
    exact ⟨front, hfront.symm⟩

/-! ## Normalisation -/

/-- A segment that normalisation keeps in its place. -/
structure NameSegment (segment : List Char) : Prop where
  ne_nil : segment ≠ []
  ne_dot : segment ≠ ['.']
  ne_dots : segment ≠ ['.', '.']

theorem normalizeSegment_name {segment : List Char} (h : NameSegment segment)
    (kept : List (List Char)) : normalizeSegment true kept segment = segment :: kept := by
  unfold normalizeSegment
  rw [if_neg (by simp [h.ne_nil, h.ne_dot]), if_neg h.ne_dots]

theorem foldl_normalizeSegment_names {names : List (List Char)} (h : ∀ name ∈ names, NameSegment name)
    (kept : List (List Char)) :
    names.foldl (normalizeSegment true) kept = names.reverse ++ kept := by
  induction names generalizing kept with
  | nil => rfl
  | cons name rest ih =>
    rw [List.foldl_cons, normalizeSegment_name (h name List.mem_cons_self),
      ih fun other hother => h other (List.mem_cons_of_mem _ hother)]
    simp

/-- What normalisation keeps of a relative path: steps upwards, and then names. -/
theorem foldl_normalizeSegment_cases (parts : List (List Char)) :
    ∃ names climbs, parts.foldl (normalizeSegment true) [] =
        names ++ List.replicate climbs ['.', '.'] ∧ (∀ name ∈ names, NameSegment name) ∧
      ∀ name ∈ names, name ∈ parts := by
  induction parts using List.reverseRecOn with
  | nil => exact ⟨[], 0, rfl, by simp, by simp⟩
  | append_singleton parts part ih =>
    obtain ⟨names, climbs, hkept, hnames, hmem⟩ := ih
    have hmem' : ∀ name ∈ names, name ∈ parts ++ [part] := fun name hname =>
      List.mem_append_left _ (hmem name hname)
    rw [List.foldl_append, List.foldl_cons, List.foldl_nil, hkept]
    by_cases hskip : part = [] ∨ part = ['.']
    · refine ⟨names, climbs, ?_, hnames, hmem'⟩
      unfold normalizeSegment
      rw [if_pos hskip]
    · by_cases hdots : part = ['.', '.']
      · cases names with
        | nil =>
          refine ⟨[], climbs + 1, ?_, by simp, by simp⟩
          unfold normalizeSegment
          rw [if_neg hskip, if_pos hdots]
          cases climbs with
          | zero => rfl
          | succ climbs => rfl
        | cons name rest =>
          refine ⟨rest, climbs, ?_, fun other hother => hnames other (List.mem_cons_of_mem _ hother),
            fun other hother => hmem' other (List.mem_cons_of_mem _ hother)⟩
          unfold normalizeSegment
          rw [if_neg hskip, if_pos hdots]
          exact if_neg (hnames name List.mem_cons_self).ne_dots
      · rw [not_or] at hskip
        have hname : NameSegment part := ⟨hskip.1, hskip.2, hdots⟩
        refine ⟨part :: names, climbs, normalizeSegment_name hname _, ?_, ?_⟩
        · intro other hother
          rcases List.mem_cons.mp hother with rfl | hother
          · exact hname
          · exact hnames other hother
        · intro other hother
          rcases List.mem_cons.mp hother with rfl | hother
          · simp
          · exact hmem' other hother

/-- The normal form of a relative path. -/
theorem posixNormalize_relative {s : String} (hne : s ≠ "") (hrelative : posixIsAbsolute s = false)
    {parts : List (List Char)}
    (hparts : ((segments s.toList).foldl (normalizeSegment true) []).reverse = parts) :
    posixNormalize s =
      (if parts = [] then "." else String.intercalate "/" (parts.map String.ofList)) ++
        if endsWith s "/" then "/" else "" := by
  unfold posixNormalize
  simp only [hrelative, Bool.not_false, hparts, if_neg hne, Bool.false_eq_true, if_false,
    String.empty_append]
  split
  · rfl
  · rfl

/-- A relative path that normalisation leaves as it is: the current directory, or steps upwards
followed by names, with one trailing slash at most. -/
theorem segments_of_posixNormalize {s : String} (hne : s ≠ "") (hrelative : posixIsAbsolute s = false)
    (h : posixNormalize s = s) :
    s = "." ∨ s = "./" ∨ ∃ names climbs slashes, (∀ name ∈ names, NameSegment name) ∧ slashes ≤ 1 ∧
      segments s.toList =
        List.replicate climbs ['.', '.'] ++ names ++ List.replicate slashes [] := by
  obtain ⟨names, climbs, hkept, hnames, hmem⟩ := foldl_normalizeSegment_cases (segments s.toList)
  rw [posixNormalize_relative hne hrelative (by rw [hkept, List.reverse_append,
    List.reverse_replicate])] at h
  generalize hparts : List.replicate climbs ['.', '.'] ++ names.reverse = parts at h
  by_cases hempty : parts = []
  · rw [if_pos hempty] at h
    by_cases hslash : endsWith s "/" = true
    · rw [if_pos hslash] at h
      exact Or.inr (Or.inl h.symm)
    · rw [if_neg hslash] at h
      exact Or.inl h.symm
  · rw [if_neg hempty] at h
    have hfree : ∀ part ∈ parts, '/' ∉ part := by
      intro part hpart hslash
      rw [← hparts, List.mem_append, List.mem_replicate, List.mem_reverse] at hpart
      rcases hpart with ⟨-, rfl⟩ | hpart
      · revert hslash
        decide
      · exact (mem_of_mem_segments (hmem part hpart) hslash).2 rfl
    have hjoined : segments (String.intercalate "/" (parts.map String.ofList)).toList = parts := by
      rw [String.toList_intercalate, List.map_map]
      have hid : String.toList ∘ String.ofList = id := funext fun cs => String.toList_ofList
      rw [hid, List.map_id]
      exact segments_intercalate hfree hempty
    refine Or.inr (Or.inr ⟨names.reverse, climbs, if endsWith s "/" then 1 else 0, ?_, ?_, ?_⟩)
    · exact fun name hname => hnames name (List.mem_reverse.mp hname)
    · split <;> omega
    · rw [hparts]
      have htext := congrArg (fun t => segments t.toList) h
      rw [← htext, String.toList_append]
      by_cases hslash : endsWith s "/" = true
      · rw [if_pos hslash, if_pos hslash]
        have hend : "/".toList = '/' :: [] := rfl
        rw [hend, segments_append_slash, hjoined]
        rfl
      · rw [if_neg hslash, if_neg hslash, String.toList_empty, List.append_nil, hjoined,
          List.replicate_zero, List.append_nil]

/-- The segments of a text with a trailing slash more. -/
theorem segments_append_trailing (cs : List Char) : segments (cs ++ ['/']) = segments cs ++ [[]] :=
  segments_append_slash cs []

theorem not_slash_mem_segments {cs segment : List Char} (h : segment ∈ segments cs) :
    '/' ∉ segment :=
  fun hslash => (mem_of_mem_segments h hslash).2 rfl

/-- Names joined by single slashes, with one trailing slash at most, are their own normal form. -/
theorem posixNormalize_names {s : String} {names : List (List Char)} {slashes : Nat}
    (hrelative : posixIsAbsolute s = false) (hne : names ≠ [])
    (hnames : ∀ name ∈ names, NameSegment name) (hslashes : slashes ≤ 1)
    (h : segments s.toList = names ++ List.replicate slashes []) : posixNormalize s = s := by
  have hnonempty : s ≠ "" := by
    rintro rfl
    cases names with
    | nil => exact hne rfl
    | cons name rest =>
      rw [List.cons_append] at h
      injection h with hname _
      exact (hnames name List.mem_cons_self).ne_nil hname.symm
  have hkept : ((segments s.toList).foldl (normalizeSegment true) []).reverse = names := by
    rw [h, List.foldl_append, foldl_normalizeSegment_names hnames, List.append_nil]
    have hempty : ∀ kept, (List.replicate slashes []).foldl (normalizeSegment true) kept = kept := by
      intro kept
      induction slashes with
      | zero => rfl
      | succ slashes ih =>
        rw [List.replicate_succ, List.foldl_cons]
        cases slashes with
        | zero => rfl
        | succ slashes => omega
    rw [hempty, List.reverse_reverse]
  have hfree : ∀ name ∈ names, '/' ∉ name := by
    intro name hname
    refine @not_slash_mem_segments s.toList _ ?_
    rw [h]
    exact List.mem_append_left _ hname
  rw [posixNormalize_relative hnonempty hrelative hkept, if_neg hne]
  have hjoined : (String.intercalate "/" (names.map String.ofList)).toList =
      ['/'].intercalate names := by
    rw [String.toList_intercalate, List.map_map]
    have hid : String.toList ∘ String.ofList = id := funext fun cs => String.toList_ofList
    rw [hid, List.map_id]
    rfl
  have hsegments : segments (['/'].intercalate names) = names := segments_intercalate hfree hne
  apply String.toList_injective
  apply segments_inj
  rw [String.toList_append, hjoined, h]
  by_cases hslash : endsWith s "/" = true
  · rw [if_pos hslash]
    show segments (['/'].intercalate names ++ ['/']) = _
    rw [segments_append_trailing, hsegments]
    have hone : slashes = 1 := by
      by_contra hzero
      have hnone : slashes = 0 := by omega
      obtain ⟨front, hfront⟩ := endsWith_slash_iff.mp hslash
      rw [hnone, List.replicate_zero, List.append_nil, hfront, segments_append_trailing] at h
      have hlast : [] ∈ names := by
        rw [← h]
        exact List.mem_append_right _ (List.mem_singleton_self _)
      exact (hnames [] hlast).ne_nil rfl
    rw [hone]
    rfl
  · rw [if_neg hslash, String.toList_empty, List.append_nil, hsegments]
    have hzero : slashes = 0 := by
      by_contra hone
      have hsome : slashes = 1 := by omega
      apply hslash
      rw [endsWith_slash_iff]
      refine ⟨['/'].intercalate names, segments_inj ?_⟩
      rw [h, hsome, segments_append_trailing, hsegments]
      rfl
    rw [hzero, List.replicate_zero, List.append_nil]

/-! ## Canonical entries -/

/-- A segment a canonical path may have: a name without characters no path may contain. -/
structure PlainSegment (segment : List Char) : Prop extends NameSegment segment where
  allowed : ∀ c ∈ segment, isForbiddenPathChar c = false

/-- An entry that spells some names, joined by single slashes and followed by a number of slashes:
relative, and outside of Git metadata. -/
structure Spells (entry : String) (names : List (List Char)) (slashes : Nat) : Prop where
  segments : segments entry.toList = names ++ List.replicate slashes []
  nonempty : names ≠ []
  plain : ∀ name ∈ names, PlainSegment name
  relative : posixIsAbsolute entry = false ∧ win32IsAbsolute entry = false
  outside : names.head? ≠ some ".git".toList

/-- A canonical repository-relative path, with an optional single trailing slash. -/
def IsCanonicalPath (entry : String) : Prop := ∃ names slashes, slashes ≤ 1 ∧ Spells entry names slashes

/-- An entry with one trailing slash too many, which is otherwise canonical or the root. -/
def DoublesSlash (entry : String) : Prop := entry = ".//" ∨ ∃ names, Spells entry names 2

/-- The checks on one entry raise no issue. -/
def IsAccepted (entry : String) : Prop := isUnsafePath entry = false ∧ isNonCanonicalPath entry = false

theorem segments_ne_nil (cs : List Char) : segments cs ≠ [] := by
  rw [segments_eq_splitOn]
  exact List.splitOn_ne_nil _ _

/-- The two results of taking one trailing slash off an entry. -/
private theorem splitDirectory_cases (entry : String) :
    (endsWith entry "/" = false ∧ splitDirectory entry = (entry, false)) ∨
      ∃ directory, splitDirectory entry = (directory, true) ∧ entry = directory ++ "/" := by
  unfold splitDirectory
  by_cases hslash : endsWith entry "/" = true
  · rw [if_pos hslash]
    obtain ⟨front, hfront⟩ := endsWith_slash_iff.mp hslash
    refine Or.inr ⟨_, rfl, String.toList_injective ?_⟩
    rw [String.toList_append, String.toList_ofList, hfront, List.dropLast_concat]
    rfl
  · rw [if_neg hslash]
    exact Or.inl ⟨by simpa using hslash, rfl⟩

private theorem not_posixIsAbsolute_of_append {directory : String}
    (h : posixIsAbsolute (directory ++ "/") = false) : posixIsAbsolute directory = false := by
  rw [← Bool.not_eq_true] at h ⊢
  intro habsolute
  apply h
  unfold posixIsAbsolute startsWith at habsolute ⊢
  rw [List.isPrefixOf_iff_prefix] at habsolute ⊢
  rw [String.toList_append]
  exact habsolute.trans (List.prefix_append _ _)

/-- What the first test leaves: no forbidden character, no absolute path, and an entry that neither
is a dot segment nor climbs. -/
private theorem isUnsafePath_eq_false_iff {entry withoutSlash : String} {directory : Bool}
    (hsplit : splitDirectory entry = (withoutSlash, directory)) :
    isUnsafePath entry = false ↔ (∀ c ∈ entry.toList, isForbiddenPathChar c = false) ∧
      posixIsAbsolute entry = false ∧ win32IsAbsolute entry = false ∧ withoutSlash ≠ "" ∧
      withoutSlash ≠ "." ∧ ¬ (withoutSlash = ".." ∨ startsWith withoutSlash (".." ++ "/") = true) ∧
      includes withoutSlash "/../" = false := by
  have hclimb : ".." ++ "/" = "../" := rfl
  unfold isUnsafePath
  rw [hsplit, hclimb]
  simp only [Bool.or_eq_false_iff, List.any_eq_false, decide_eq_false_iff_not, not_or,
    Bool.not_eq_true]
  constructor
  · rintro ⟨⟨⟨⟨⟨⟨⟨hchars, hposix⟩, hwin⟩, hne⟩, hdot⟩, hdots⟩, hstart⟩, hinside⟩
    exact ⟨hchars, hposix, hwin, hne, hdot, ⟨hdots, hstart⟩, hinside⟩
  · rintro ⟨hchars, hposix, hwin, hne, hdot, ⟨hdots, hstart⟩, hinside⟩
    exact ⟨⟨⟨⟨⟨⟨⟨hchars, hposix⟩, hwin⟩, hne⟩, hdot⟩, hdots⟩, hstart⟩, hinside⟩

/-- What the second test leaves: an entry in normal form, outside of Git metadata. -/
private theorem isNonCanonicalPath_eq_false_iff {entry withoutSlash : String} {directory : Bool}
    (hsplit : splitDirectory entry = (withoutSlash, directory))
    (hentry : entry = if directory then withoutSlash ++ "/" else withoutSlash) :
    isNonCanonicalPath entry = false ↔ posixNormalize withoutSlash = withoutSlash ∧
      ¬ (withoutSlash = ".git" ∨ startsWith withoutSlash (".git" ++ "/") = true) := by
  have hgit : ".git" ++ "/" = ".git/" := rfl
  unfold isNonCanonicalPath
  rw [hsplit, hgit]
  dsimp only
  simp only [Bool.or_eq_false_iff, decide_eq_false_iff_not, not_or, ne_eq, Decidable.not_not,
    Bool.not_eq_true]
  have hcanonical : (if directory then posixNormalize withoutSlash ++ "/" else
      posixNormalize withoutSlash) = entry ↔ posixNormalize withoutSlash = withoutSlash := by
    rw [hentry]
    cases directory with
    | false => rfl
    | true =>
      rw [if_pos rfl, if_pos rfl]
      exact String.append_left_inj "/"
  rw [hcanonical]
  constructor
  · rintro ⟨⟨hnormal, hname⟩, hstart⟩
    rw [hnormal] at hname hstart
    exact ⟨hnormal, hname, hstart⟩
  · rintro ⟨hnormal, hname, hstart⟩
    rw [hnormal]
    exact ⟨⟨rfl, hname⟩, hstart⟩

/-- What an accepted entry spells. -/
private theorem canonical_or_doubles {entry : String} (h : IsAccepted entry) :
    IsCanonicalPath entry ∨ DoublesSlash entry := by
  obtain ⟨hsafe, hcanonical⟩ := h
  have hcases : ∃ withoutSlash directory, splitDirectory entry = (withoutSlash, directory) ∧
      (entry = if directory then withoutSlash ++ "/" else withoutSlash) ∧
      (directory = false → endsWith entry "/" = false) := by
    rcases splitDirectory_cases entry with ⟨hend, hsplit⟩ | ⟨directory, hsplit, hentry⟩
    · exact ⟨entry, false, hsplit, rfl, fun _ => hend⟩
    · exact ⟨directory, true, hsplit, hentry, nofun⟩
  obtain ⟨withoutSlash, directory, hsplit, hentry, hend⟩ := hcases
  obtain ⟨hchars, hposix, hwin, hne, hdot, hclimb, -⟩ := (isUnsafePath_eq_false_iff hsplit).mp hsafe
  obtain ⟨hnormal, hgit⟩ := (isNonCanonicalPath_eq_false_iff hsplit hentry).mp hcanonical
  have hrelative : posixIsAbsolute withoutSlash = false := by
    cases directory with
    | false => rwa [hentry] at hposix
    | true =>
      rw [hentry] at hposix
      exact not_posixIsAbsolute_of_append hposix
  rcases segments_of_posixNormalize hne hrelative hnormal with hone | hroot | hnames
  · exact absurd hone hdot
  · cases directory with
    | false =>
      rw [hentry, hroot] at hend
      exact absurd (hend rfl) (by decide)
    | true =>
      rw [hentry, hroot]
      exact Or.inr (Or.inl rfl)
  · obtain ⟨names, climbs, slashes, hplain, hslashes, hsegments⟩ := hnames
    have hclimbs : climbs = 0 := by
      by_contra hsome
      rw [head_segments_iff (by decide), hsegments] at hclimb
      apply hclimb
      cases climbs with
      | zero => exact absurd rfl hsome
      | succ climbs => rfl
    subst hclimbs
    rw [List.replicate_zero, List.nil_append] at hsegments
    have hnonempty : names ≠ [] := by
      rintro rfl
      rw [List.nil_append] at hsegments
      cases slashes with
      | zero => exact segments_ne_nil _ hsegments
      | succ slashes =>
        have hzero : slashes = 0 := by omega
        subst hzero
        exact hne (String.toList_injective (segments_inj hsegments))
    have hspells : ∀ total, segments entry.toList = names ++ List.replicate total [] →
        Spells entry names total := by
      intro total htotal
      refine ⟨htotal, hnonempty, ?_, ⟨hposix, hwin⟩, ?_⟩
      · intro name hname
        refine ⟨hplain name hname, fun c hc => hchars c ?_⟩
        have hmem : name ∈ segments entry.toList := by
          rw [htotal]
          exact List.mem_append_left _ hname
        exact (mem_of_mem_segments hmem hc).1
      · rw [head_segments_iff (by decide), hsegments] at hgit
        intro hhead
        apply hgit
        rw [List.head?_append, hhead]
        rfl
    cases directory with
    | false =>
      rw [hentry] at hspells ⊢
      exact Or.inl ⟨names, slashes, hslashes, hspells slashes hsegments⟩
    | true =>
      have htotal : segments entry.toList = names ++ List.replicate (slashes + 1) [] := by
        rw [hentry, if_pos rfl, String.toList_append]
        show segments (withoutSlash.toList ++ ['/']) = _
        rw [segments_append_trailing, hsegments, List.append_assoc, List.replicate_succ']
      by_cases hzero : slashes = 0
      · exact Or.inl ⟨names, slashes + 1, by omega, hspells _ htotal⟩
      · have hone : slashes = 1 := by omega
        subst hone
        exact Or.inr (Or.inr ⟨names, hspells _ htotal⟩)

/-- The part of a spelling before its last slash. -/
private theorem Spells.splitDirectory {entry : String} {names : List (List Char)} {slashes : Nat}
    (h : Spells entry names slashes) : ∃ withoutSlash directory,
      Domain.splitDirectory entry = (withoutSlash, directory) ∧
      (entry = if directory then withoutSlash ++ "/" else withoutSlash) ∧
      Domain.segments withoutSlash.toList = names ++ List.replicate (slashes - 1) [] := by
  rcases splitDirectory_cases entry with ⟨hend, hsplit⟩ | ⟨directory, hsplit, hentry⟩
  · refine ⟨entry, false, hsplit, rfl, ?_⟩
    have hzero : slashes = 0 := by
      by_contra hsome
      obtain ⟨fewer, rfl⟩ := Nat.exists_eq_succ_of_ne_zero hsome
      have hsegments := h.segments
      rw [List.replicate_succ', ← List.append_assoc] at hsegments
      have hlast : ∃ front, entry.toList = front ++ ['/'] := by
        refine ⟨['/'].intercalate (names ++ List.replicate fewer []), segments_inj ?_⟩
        rw [segments_append_trailing, hsegments, segments_intercalate]
        · intro part hpart
          refine @not_slash_mem_segments entry.toList _ ?_
          rw [hsegments]
          exact List.mem_append_left _ hpart
        · intro hnil
          exact h.nonempty (List.append_eq_nil_iff.mp hnil).1
      rw [← endsWith_slash_iff, hend] at hlast
      cases hlast
    rw [h.segments, hzero]
  · refine ⟨directory, true, hsplit, hentry, ?_⟩
    have hsegments := h.segments
    rw [hentry, String.toList_append] at hsegments
    change Domain.segments (directory.toList ++ ['/']) = _ at hsegments
    rw [segments_append_trailing] at hsegments
    cases slashes with
    | zero =>
      rw [List.replicate_zero, List.append_nil] at hsegments
      have hmem : [] ∈ names := by
        rw [← hsegments]
        exact List.mem_append_right _ (List.mem_singleton_self _)
      exact absurd rfl (h.plain [] hmem).ne_nil
    | succ slashes =>
      rw [List.replicate_succ', ← List.append_assoc] at hsegments
      exact (List.append_inj' hsegments rfl).1

/-- What an entry spells with two trailing slashes at most is accepted. -/
private theorem Spells.accepted {entry : String} {names : List (List Char)} {slashes : Nat}
    (h : Spells entry names slashes) (hslashes : slashes ≤ 2) : IsAccepted entry := by
  obtain ⟨withoutSlash, directory, hsplit, hentry, hsegments⟩ := h.splitDirectory
  have hplain : ∀ name ∈ names, NameSegment name := fun name hname =>
    (h.plain name hname).toNameSegment
  obtain ⟨name, rest, hnames⟩ := List.exists_cons_of_ne_nil h.nonempty
  have hname : NameSegment name := hplain name (by rw [hnames]; exact List.mem_cons_self)
  have hhead : (Domain.segments withoutSlash.toList).head? = some name := by
    rw [hsegments, hnames]
    rfl
  have hne : withoutSlash ≠ "" := by
    rintro rfl
    injection hhead with hnil
    exact hname.ne_nil hnil.symm
  have hrelative : posixIsAbsolute withoutSlash = false := by
    have hposix := h.relative.1
    cases directory with
    | false => rwa [hentry] at hposix
    | true =>
      rw [hentry] at hposix
      exact not_posixIsAbsolute_of_append hposix
  refine ⟨(isUnsafePath_eq_false_iff hsplit).mpr ⟨?_, h.relative.1, h.relative.2, hne, ?_, ?_, ?_⟩,
    (isNonCanonicalPath_eq_false_iff hsplit hentry).mpr ⟨?_, ?_⟩⟩
  · intro c hc
    by_cases hslash : c = '/'
    · rw [hslash]
      decide
    · obtain ⟨segment, hsegment, hmem⟩ := exists_segment_of_mem hc hslash
      rw [h.segments, List.mem_append] at hsegment
      rcases hsegment with hsegment | hempty
      · exact (h.plain segment hsegment).allowed c hmem
      · rw [(List.mem_replicate.mp hempty).2] at hmem
        cases hmem
  · rintro rfl
    injection hhead with hdot
    exact hname.ne_dot hdot.symm
  · rw [head_segments_iff (by decide), hhead]
    intro hdots
    injection hdots with hdots
    exact hname.ne_dots hdots
  · rw [← Bool.not_eq_true]
    intro hinside
    unfold includes at hinside
    rw [List.any_eq_true] at hinside
    obtain ⟨tail, htail, hstart⟩ := hinside
    obtain ⟨before, hbefore⟩ := (List.mem_tails _ _).mp htail
    obtain ⟨after, hafter⟩ := List.isPrefixOf_iff_prefix.mp hstart
    have hdots : ['.', '.'] ∈ Domain.segments withoutSlash.toList := by
      rw [← hbefore, ← hafter]
      show _ ∈ Domain.segments (before ++ '/' :: (['.', '.'] ++ '/' :: after))
      rw [segments_append_slash, segments_append_slash]
      exact List.mem_append_right _ (List.mem_append_left _ (List.mem_singleton_self _))
    rw [hsegments, List.mem_append] at hdots
    rcases hdots with hdots | hempty
    · exact (hplain _ hdots).ne_dots rfl
    · cases (List.mem_replicate.mp hempty).2
  · exact posixNormalize_names hrelative h.nonempty hplain (by omega) hsegments
  · rw [head_segments_iff (by decide), hhead]
    intro hgit
    apply h.outside
    rw [hnames]
    exact hgit

/-- An entry is accepted when it is canonical, or has one trailing slash too many. -/
theorem isAccepted_iff {entry : String} :
    IsAccepted entry ↔ IsCanonicalPath entry ∨ DoublesSlash entry := by
  constructor
  · exact canonical_or_doubles
  · rintro (⟨names, slashes, hslashes, hspells⟩ | rfl | ⟨names, hspells⟩)
    · exact hspells.accepted (by omega)
    · exact ⟨by decide +kernel, by decide +kernel⟩
    · exact hspells.accepted (Nat.le_refl 2)

/-- A path with one slash too many is not canonical. -/
theorem DoublesSlash.not_canonical {entry : String} (h : DoublesSlash entry) :
    ¬ IsCanonicalPath entry := by
  rintro ⟨names, slashes, hslashes, hspells⟩
  obtain ⟨name, rest, hnames⟩ := List.exists_cons_of_ne_nil hspells.nonempty
  have hname : NameSegment name := (hspells.plain name (by rw [hnames]; simp)).toNameSegment
  rcases h with rfl | ⟨others, hothers⟩
  · have hsegments := hspells.segments
    rw [hnames] at hsegments
    change [['.'], [], []] = _ at hsegments
    injection hsegments with hdot _
    exact hname.ne_dot hdot.symm
  · have hsegments := hothers.segments
    rw [hspells.segments] at hsegments
    have hempty : [] ∈ names := by
      by_cases hzero : slashes = 0
      · rw [hzero, List.replicate_zero, List.append_nil] at hsegments
        rw [hsegments]
        simp
      · have hone : slashes = 1 := by omega
        rw [hone, List.replicate_succ' (n := 1), ← List.append_assoc] at hsegments
        rw [(List.append_inj' hsegments rfl).1]
        simp
    exact (hspells.plain [] hempty).ne_nil rfl

/-! ## Normal paths -/

/-- A relative path outside of Git metadata in its only spelling: names joined by single slashes,
with an optional trailing slash. The names may have any characters. -/
def IsNormalPath (path : String) : Prop :=
  ∃ names slashes, slashes ≤ 1 ∧ segments path.toList = names ++ List.replicate slashes [] ∧
    names ≠ [] ∧ (∀ name ∈ names, NameSegment name) ∧
    (posixIsAbsolute path = false ∧ win32IsAbsolute path = false) ∧ names.head? ≠ some ".git".toList

/-- An entry is canonical when it is normal and has no character that entries may not have. -/
theorem isCanonicalPath_iff_normal {path : String} :
    IsCanonicalPath path ↔ IsNormalPath path ∧ ∀ c ∈ path.toList, isForbiddenPathChar c = false := by
  constructor
  · rintro ⟨names, slashes, hslashes, h⟩
    refine ⟨⟨names, slashes, hslashes, h.segments, h.nonempty,
      fun name hname => (h.plain name hname).toNameSegment, h.relative, h.outside⟩, ?_⟩
    intro c hc
    by_cases hslash : c = '/'
    · rw [hslash]
      decide
    · obtain ⟨segment, hsegment, hmem⟩ := exists_segment_of_mem hc hslash
      rw [h.segments, List.mem_append] at hsegment
      rcases hsegment with hsegment | hempty
      · exact (h.plain segment hsegment).allowed c hmem
      · rw [(List.mem_replicate.mp hempty).2] at hmem
        cases hmem
  · rintro ⟨⟨names, slashes, hslashes, hsegments, hne, hnames, hrelative, houtside⟩, hchars⟩
    refine ⟨names, slashes, hslashes, hsegments, hne, ?_, hrelative, houtside⟩
    intro name hname
    refine ⟨hnames name hname, fun c hc => hchars c ?_⟩
    have hmem : name ∈ segments path.toList := by
      rw [hsegments]
      exact List.mem_append_left _ hname
    exact (mem_of_mem_segments hmem hc).1

/-- Normalisation leaves a normal path as it is. -/
theorem IsNormalPath.normalize {path : String} (h : IsNormalPath path) : posixNormalize path = path := by
  obtain ⟨names, slashes, hslashes, hsegments, hne, hnames, hrelative, -⟩ := h
  exact posixNormalize_names hrelative.1 hne hnames hslashes hsegments

/-- A normal path does not start at the current directory. -/
theorem IsNormalPath.not_dot {path : String} (h : IsNormalPath path) :
    startsWith path "./" = false := by
  obtain ⟨names, slashes, hslashes, hsegments, hne, hnames, hrelative, -⟩ := h
  rw [← Bool.not_eq_true]
  intro hdot
  have hhead := (@head_segments_iff path "." (by decide)).mp (Or.inr hdot)
  obtain ⟨name, rest, rfl⟩ := List.exists_cons_of_ne_nil hne
  rw [hsegments] at hhead
  exact (hnames name List.mem_cons_self).ne_dot (Option.some.inj hhead)

/-! ## Directories -/

/-- The names of the directory an entry addresses. -/
def directoryNames (entry : String) : List (List Char) := (segments entry.toList).filter (· ≠ [])

/-- A file lies below the directory an entry addresses. -/
def BelowDirectory (entry file : String) : Prop :=
  directoryNames entry <+: segments file.toList ∧ directoryNames entry ≠ segments file.toList

/-- A canonical directory admits exactly the files below it. -/
theorem pathIsAllowed_directory_iff {entry : String} (h : IsCanonicalPath entry)
    (hslash : endsWith entry "/" = true) (file : String) :
    pathIsAllowed file [entry] = true ↔ BelowDirectory entry file := by
  obtain ⟨names, slashes, hslashes, hspells⟩ := h
  have hnonempty : ∀ name ∈ names, name ≠ [] := fun name hname => (hspells.plain name hname).ne_nil
  obtain ⟨front, hfront⟩ := endsWith_slash_iff.mp hslash
  have hone : slashes = 1 := by
    by_contra hother
    have hzero : slashes = 0 := by omega
    have hsegments := hspells.segments
    rw [hzero, List.replicate_zero, List.append_nil, hfront, segments_append_trailing] at hsegments
    exact hnonempty [] (by rw [← hsegments]; simp) rfl
  subst hone
  have hnames : directoryNames entry = names := by
    unfold directoryNames
    rw [hspells.segments, List.filter_append, List.filter_eq_self.mpr]
    · exact List.append_nil names
    · exact fun name hname => by simpa using hnonempty name hname
  have hdirectory : segments front = names := by
    have hsegments := hspells.segments
    rw [hfront, segments_append_trailing] at hsegments
    exact (List.append_inj' hsegments rfl).1
  unfold pathIsAllowed BelowDirectory
  rw [List.any_cons, List.any_nil, Bool.or_false, if_pos hslash, startsWith,
    List.isPrefixOf_iff_prefix, hfront, hnames]
  constructor
  · rintro ⟨rest, hrest⟩
    rw [← hrest, List.append_assoc, List.singleton_append, segments_append_slash, hdirectory]
    exact ⟨List.prefix_append _ _, fun heq => segments_ne_nil rest (List.self_eq_append_right.mp heq)⟩
  · rintro ⟨⟨below, hbelow⟩, hproper⟩
    have hne : below ≠ [] := by
      rintro rfl
      exact hproper (by rw [← hbelow, List.append_nil])
    refine ⟨['/'].intercalate below, segments_inj ?_⟩
    rw [List.append_assoc, List.singleton_append, segments_append_slash, hdirectory, ← hbelow,
      segments_intercalate _ hne]
    intro part hpart
    refine @not_slash_mem_segments file.toList _ ?_
    rw [← hbelow]
    exact List.mem_append_right _ hpart

/-! ## Lists of entries -/

namespace Reading

theorem issues_eq_nil_iff {α : Type} {reading : Reading α} :
    reading.issues = [] ↔ ∃ value, reading = ⟨value, []⟩ := by
  obtain ⟨value, issues⟩ := reading
  simp

/-- A string is read as its trimmed text, which is not empty. -/
theorem readNonEmptyString_str {s path value : String} :
    readNonEmptyString (some (.str s)) path = ⟨value, []⟩ ↔ trim s ≠ "" ∧ value = trim s := by
  unfold readNonEmptyString
  by_cases hempty : trim s = ""
  · simp [hempty, bind_eq_clean_iff]
  · simp [hempty, eq_comm]

/-- A list of strings is read as its trimmed entries, none of them empty. -/
theorem readStringArray_strings {xs values : List String} {path : String} :
    readStringArray (some (Json.strings xs)) path = ⟨values, []⟩ ↔
      (∀ x ∈ xs, trim x ≠ "") ∧ values = xs.map trim := by
  unfold readStringArray Json.strings
  dsimp only
  rw [readEach_eq_clean_iff]
  constructor
  · rintro ⟨hlength, hread⟩
    rw [List.length_map] at hlength
    have hentry : ∀ (i : Nat) x, xs[i]? = some x → trim x ≠ "" ∧ values[i]? = some (trim x) := by
      intro i x hx
      have hlt : i < values.length := by
        rw [← hlength]
        exact (List.getElem?_eq_some_iff.mp hx).1
      have hvalue := List.getElem?_eq_getElem hlt
      have hitem := hread i (.str x) values[i] (by rw [List.getElem?_map, hx]; rfl) hvalue
      rw [readNonEmptyString_str] at hitem
      refine ⟨hitem.1, ?_⟩
      rw [hvalue, hitem.2]
    constructor
    · intro x hx
      obtain ⟨i, hi⟩ := List.mem_iff_getElem?.mp hx
      exact (hentry i x hi).1
    · apply List.ext_getElem?
      intro i
      rw [List.getElem?_map]
      cases hx : xs[i]? with
      | none =>
        rw [List.getElem?_eq_none_iff] at hx
        rw [Option.map_none, List.getElem?_eq_none_iff]
        omega
      | some x => exact (hentry i x hx).2
  · rintro ⟨hnonempty, rfl⟩
    refine ⟨by rw [List.length_map, List.length_map], ?_⟩
    intro i item value hitem hvalue
    rw [List.getElem?_map, Option.map_eq_some_iff] at hitem hvalue
    obtain ⟨x, hx, rfl⟩ := hitem
    obtain ⟨y, hy, rfl⟩ := hvalue
    rw [hx, Option.some.injEq] at hy
    subst hy
    rw [readNonEmptyString_str]
    exact ⟨hnonempty x (List.mem_of_getElem? hx), rfl⟩

private theorem checkRepositoryPath_iff {path entry : String} {index : Nat} :
    checkRepositoryPath path index entry = ⟨(), []⟩ ↔ IsAccepted entry := by
  unfold checkRepositoryPath IsAccepted
  dsimp only
  by_cases hrefused : isUnsafePath entry = true
  · rw [if_pos hrefused]
    simp [hrefused, addIssue]
  · rw [if_neg hrefused, issueIf_eq_clean_iff]
    simp [hrefused]

/-- A list of strings is read without issue when its trimmed entries are distinct and accepted. -/
theorem readSafeRepositoryPaths_issues_iff {xs : List String} {path : String} :
    (readSafeRepositoryPaths (some (Json.strings xs)) path).issues = [] ↔
      (xs.map trim).Nodup ∧ ∀ entry ∈ xs.map trim, IsAccepted entry := by
  rw [issues_eq_nil_iff]
  unfold readSafeRepositoryPaths
  simp only [bind_eq_clean_iff, readStringArray_strings, pure_eq_clean_iff, issueIf_eq_clean_iff,
    Decidable.not_not]
  constructor
  · rintro ⟨values, paths, ⟨_, rfl⟩, _, hchecks, _, hdistinct, _⟩
    rw [checkEach_eq_clean_iff] at hchecks
    refine ⟨hdistinct, fun entry hentry => ?_⟩
    obtain ⟨i, hi⟩ := List.mem_iff_getElem?.mp hentry
    exact checkRepositoryPath_iff.mp (hchecks i entry hi)
  · rintro ⟨hdistinct, haccepted⟩
    refine ⟨_, _, ⟨?_, rfl⟩, (), ?_, (), hdistinct, rfl⟩
    · intro x hx hempty
      have hnone := haccepted (trim x) (List.mem_map_of_mem hx)
      rw [hempty] at hnone
      exact absurd hnone.1 (by decide)
    · rw [checkEach_eq_clean_iff]
      exact fun i entry hentry => checkRepositoryPath_iff.mpr
        (haccepted entry (List.mem_of_getElem? hentry))

/-- The reader accepts exactly the lists of distinct canonical paths, and then a directory admits
exactly the files below it, unless it accepts a list with an entry of one trailing slash too
many. -/
theorem safe_paths_canonical_iff (xs : List String) (path : String) :
    (((readSafeRepositoryPaths (some (Json.strings xs)) path).issues = [] ↔
        (xs.map trim).Nodup ∧ ∀ entry ∈ xs.map trim, IsCanonicalPath entry) ∧
      ((readSafeRepositoryPaths (some (Json.strings xs)) path).issues = [] →
        ∀ entry ∈ xs.map trim, endsWith entry "/" = true →
          ∀ file, pathIsAllowed file [entry] = true ↔ BelowDirectory entry file)) ↔
    ¬ ((xs.map trim).Nodup ∧
        (∀ entry ∈ xs.map trim, IsCanonicalPath entry ∨ DoublesSlash entry) ∧
        ∃ entry ∈ xs.map trim, DoublesSlash entry) := by
  rw [readSafeRepositoryPaths_issues_iff]
  simp only [isAccepted_iff]
  constructor
  · rintro ⟨hiff, -⟩ ⟨hdistinct, haccepted, entry, hentry, hdoubles⟩
    exact hdoubles.not_canonical ((hiff.mp ⟨hdistinct, haccepted⟩).2 entry hentry)
  · intro hsingle
    have hcanonical : (xs.map trim).Nodup →
        (∀ entry ∈ xs.map trim, IsCanonicalPath entry ∨ DoublesSlash entry) →
        ∀ entry ∈ xs.map trim, IsCanonicalPath entry := by
      intro hdistinct haccepted entry hentry
      rcases haccepted entry hentry with hcanonical | hdoubles
      · exact hcanonical
      · exact absurd ⟨hdistinct, haccepted, entry, hentry, hdoubles⟩ hsingle
    refine ⟨⟨?_, ?_⟩, ?_⟩
    · rintro ⟨hdistinct, haccepted⟩
      exact ⟨hdistinct, hcanonical hdistinct haccepted⟩
    · rintro ⟨hdistinct, hall⟩
      exact ⟨hdistinct, fun entry hentry => Or.inl (hall entry hentry)⟩
    · rintro ⟨hdistinct, haccepted⟩ entry hentry hslash file
      exact pathIsAllowed_directory_iff (hcanonical hdistinct haccepted entry hentry) hslash file

/-- A directory written with two trailing slashes is accepted, and admits nothing below it. -/
theorem doubled_slash_accepted :
    (readSafeRepositoryPaths (some (Json.strings ["docs//"])) "plan.allowedPaths").issues = [] ∧
      ¬ IsCanonicalPath "docs//" ∧ pathIsAllowed "docs/readme.md" ["docs//"] = false ∧
      BelowDirectory "docs//" "docs/readme.md" := by
  refine ⟨by decide +kernel, DoublesSlash.not_canonical (Or.inr ⟨["docs".toList], ?_⟩),
    by decide +kernel, ?_⟩
  · refine ⟨by decide +kernel, by decide, ?_, by decide +kernel, by decide⟩
    intro name hname
    rw [List.mem_singleton] at hname
    subst hname
    refine ⟨⟨by decide, by decide, by decide⟩, fun c hc => ?_⟩
    exact eq_false_of_ne_true (List.any_eq_false.mp (by decide +kernel) c hc)
  · exact ⟨⟨["readme.md".toList], by decide +kernel⟩, by decide +kernel⟩

end Reading

end BuildConductor.Domain
