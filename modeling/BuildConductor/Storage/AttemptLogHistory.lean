import BuildConductor.Storage.AttemptLogStore

/-!
# What an attempt log keeps

Over every sequence of recorded events, appends and crashes: the complete lines of the journal are
the entries that were written, in the order they were recorded, and at most one truncation marker
behind them, within the byte limit. `src/src/storage/attempt-log-store.ts:335-623`.
-/

namespace BuildConductor.Storage

open Base Domain Workers

variable {stripVTControlCharacters : String → String} {path : String} {maxLogBytes : Nat}

/-! ## The lines of entries -/

@[simp] theorem entriesBytes_nil : entriesBytes [] = [] := rfl

@[simp] theorem entriesBytes_append (xs ys : List AttemptLogEntry) :
    entriesBytes (xs ++ ys) = entriesBytes xs ++ entriesBytes ys :=
  List.flatMap_append

@[simp] theorem entriesBytes_singleton (entry : AttemptLogEntry) :
    entriesBytes [entry] = entryBytes entry :=
  List.append_nil _

/-- The line of an entry, and its line break. -/
theorem entryBytes_eq (entry : AttemptLogEntry) :
    entryBytes entry = utf8Bytes entry.line.toList ++ [lineBreakByte] := by
  rw [entryBytes, utf8Bytes_append, utf8Bytes_lineBreak]

private theorem entriesBytes_eq_terminated (entries : List AttemptLogEntry) :
    entriesBytes entries =
      terminated lineBreakByte (entries.map fun entry => utf8Bytes entry.line.toList) := by
  unfold entriesBytes terminated
  rw [List.flatMap_map]
  exact List.flatMap_congr fun entry _ => entryBytes_eq entry

private theorem entriesBytes_eq_text (entries : List AttemptLogEntry) :
    entriesBytes entries =
      utf8Bytes (terminated '\n' (entries.map fun entry => entry.line.toList)) := by
  rw [utf8Bytes_terminated, List.map_map, entriesBytes_eq_terminated]
  rfl

/-- What follows the last complete line is dropped. -/
theorem throughLast_entriesBytes {torn : List UInt8} (h : lineBreakByte ∉ torn)
    (entries : List AttemptLogEntry) :
    throughLast lineBreakByte (entriesBytes entries ++ torn) = entriesBytes entries := by
  rw [throughLast_append h, entriesBytes_eq_terminated, throughLast_terminated]

private theorem line_ne_nil (entry : AttemptLogEntry) : entry.line.toList ≠ [] := by
  unfold AttemptLogEntry.line jsonText
  rw [String.toList_ofList]
  cases entry with
  | terminal timestamp status message =>
    cases message <;> simp [AttemptLogEntry.toJson, render, JsonLayout.enclose, renderFields]
  | _ => simp [AttemptLogEntry.toJson, render, JsonLayout.enclose, renderFields]

private theorem mapM_completeLine {entries : List AttemptLogEntry}
    (h : ∀ entry ∈ entries, entry.Sanitised stripVTControlCharacters) (context : String)
    (index : Nat) :
    ((entries.map fun entry => entry.line.toList).zipIdx index).mapM
      (completeLine stripVTControlCharacters context) = .ok entries := by
  induction entries generalizing index with
  | nil => rfl
  | cons entry entries ih =>
    have hparse := parseEntry_line (h entry List.mem_cons_self) s!"{context}:{index + 1}"
    have hline : completeLine stripVTControlCharacters context (entry.line.toList, index) =
        .ok entry := by
      unfold completeLine
      rw [if_neg (line_ne_nil entry), String.ofList_toList]
      exact hparse
    rw [List.map_cons, List.zipIdx_cons, List.mapM_cons, hline,
      ih (fun other hother => h other (List.mem_cons_of_mem _ hother)) (index + 1)]
    rfl

/-- The lines of sanitised entries parse to the entries. -/
theorem completeLines_entriesBytes {entries : List AttemptLogEntry}
    (h : ∀ entry ∈ entries, entry.Sanitised stripVTControlCharacters) (context : String) :
    completeLines stripVTControlCharacters (entriesBytes entries) context = .ok entries := by
  have hbreaks : ∀ line ∈ entries.map fun entry => entry.line.toList, '\n' ∉ line := by
    rw [List.forall_mem_map]
    exact fun entry _ => lineBreak_not_mem_line entry
  unfold completeLines
  rw [entriesBytes_eq_text, decodeUtf8_utf8Bytes, splitOn_terminated hbreaks, List.dropLast_concat]
  exact mapM_completeLine h context 0

/-- Preparing a journal drops the torn line and finds the marker among the entries. -/
theorem prepareJournal_entriesBytes {entries : List AttemptLogEntry} {torn : List UInt8}
    (h : ∀ entry ∈ entries, entry.Sanitised stripVTControlCharacters) (htorn : lineBreakByte ∉ torn) :
    prepareJournal stripVTControlCharacters (entriesBytes entries ++ torn) path =
      (entriesBytes entries, .ok (entries.any AttemptLogEntry.isTruncated)) := by
  unfold prepareJournal
  dsimp only
  rw [throughLast_entriesBytes htorn, completeLines_entriesBytes h]
  rfl

/-- A part of a line that misses its end has no line break. -/
theorem lineBreakByte_not_mem_take {entry : AttemptLogEntry} {left : Nat}
    (h : left < (entryBytes entry).length) : lineBreakByte ∉ (entryBytes entry).take left := by
  rw [entryBytes_eq] at h ⊢
  rw [List.length_append, List.length_singleton] at h
  rw [List.take_append_of_le_length (by omega)]
  intro hmem
  exact lineBreakByte_not_mem (lineBreak_not_mem_line entry) (List.mem_of_mem_take hmem)

/-! ## Recorded entries -/

/-- The truncation marker is sanitised. -/
theorem truncationEntry_sanitised (hstrip : StripsEscapesOnly stripVTControlCharacters) :
    truncationEntry.Sanitised stripVTControlCharacters :=
  clean_of_logCharacters hstrip (List.all_eq_true.mp (by decide +kernel))

/-- What is recorded is sanitised and no marker. -/
theorem recordedEntry_sanitised (hstrip : StripsEscapesOnly stripVTControlCharacters)
    {now : String} {recorded : Recorded} {entry : AttemptLogEntry}
    (h : recordedEntry stripVTControlCharacters now recorded = some entry) :
    entry.Sanitised stripVTControlCharacters ∧ entry.isTruncated = false := by
  unfold recordedEntry at h
  dsimp only at h
  split at h
  · cases h
  · next hpresent =>
    have htime := sanitizeAttemptLogText_clean hstrip now
    cases recorded with
    | progress event =>
      cases h
      exact ⟨⟨hpresent, htime, sanitizeProgressEvent_twice hstrip event⟩, rfl⟩
    | terminal status message =>
      cases h
      refine ⟨⟨hpresent, htime, ?_⟩, rfl⟩
      intro text htext
      obtain ⟨raw, -, rfl⟩ := Option.map_eq_some_iff.mp htext
      exact sanitizeAttemptLogText_clean hstrip raw

/-- Every recorded entry is sanitised and no marker. -/
theorem recordedEntries_sanitised (hstrip : StripsEscapesOnly stripVTControlCharacters)
    (events : List LogEvent) :
    ∀ entry ∈ recordedEntries stripVTControlCharacters events,
      entry.Sanitised stripVTControlCharacters ∧ entry.isTruncated = false := by
  intro entry hmem
  rw [recordedEntries, List.mem_filterMap] at hmem
  obtain ⟨event, -, hentry⟩ := hmem
  cases event with
  | record now recorded => exact recordedEntry_sanitised hstrip hentry
  | append => cases hentry
  | crash left => cases hentry

/-! ## The file -/

/-- What the file holds: complete lines within the limit, with room for the marker, and a torn line
only until the next initialisation. -/
structure FileKept (maxLogBytes : Nat) (run : LoggedRun) (marked : Bool) (torn : List UInt8) :
    Prop where
  contents : run.log.contents = entriesBytes (run.journal marked) ++ torn
  unended : lineBreakByte ∉ torn
  whole : marked = true → torn = []
  room : (entriesBytes run.written).length + minimumLogBytes ≤ maxLogBytes
  ready : run.log.initialized = true → torn = [] ∧ run.log.truncated = marked
  fresh : run.log.initialized = false → run.log.truncated = false

/-- What became of the entries: those behind a cut were not written, and nothing is lost without a
crash. -/
structure FatesKept (recorded : List AttemptLogEntry) (crashed : Nat) (run : LoggedRun)
    (marked : Bool) : Prop where
  recorded : recorded = run.settled.map Prod.fst ++ run.log.queue
  behind : run.settled.Pairwise fun former later => former.2 = .cut → later.2 ≠ .written
  cut : marked = true ↔ ∃ entry ∈ run.settled, entry.2 = .cut
  torn : run.settled.countP (·.2 = .torn) ≤ crashed
  accepted : ∀ entry ∈ run.settled, entry.2 ≠ .refused
  uninterrupted : crashed = 0 → ∀ entry ∈ run.settled, entry.2 = .written ∨ entry.2 = .cut

/-- Entries leave the queue with their fates. -/
theorem FatesKept.settle {recorded : List AttemptLogEntry} {crashed further : Nat} {run : LoggedRun}
    {marked marks : Bool} (h : FatesKept recorded crashed run marked)
    {fates : List (AttemptLogEntry × Fate)} {log : AttemptLog}
    (hqueue : run.log.queue = fates.map Prod.fst ++ log.queue)
    (hmarked : marked = true → ∀ entry ∈ fates, entry.2 ≠ .written)
    (hbehind : fates.Pairwise fun former later => former.2 = .cut → later.2 ≠ .written)
    (hmarks : (marked || marks) = true ↔ marked = true ∨ ∃ entry ∈ fates, entry.2 = .cut)
    (htorn : fates.countP (·.2 = .torn) ≤ further)
    (haccepted : ∀ entry ∈ fates, entry.2 ≠ .refused)
    (huninterrupted : further = 0 → ∀ entry ∈ fates, entry.2 = .written ∨ entry.2 = .cut) :
    FatesKept recorded (crashed + further) ⟨log, run.settled ++ fates⟩ (marked || marks) where
  recorded := by
    rw [h.recorded, hqueue, List.map_append, List.append_assoc]
  behind := by
    rw [List.pairwise_append]
    refine ⟨h.behind, hbehind, ?_⟩
    intro former hformer later hlater hcut
    exact hmarked (h.cut.mpr ⟨former, hformer, hcut⟩) later hlater
  cut := by
    rw [hmarks, h.cut]
    constructor
    · rintro (⟨entry, hmem, hcut⟩ | ⟨entry, hmem, hcut⟩)
      · exact ⟨entry, List.mem_append_left _ hmem, hcut⟩
      · exact ⟨entry, List.mem_append_right _ hmem, hcut⟩
    · rintro ⟨entry, hmem, hcut⟩
      rcases List.mem_append.mp hmem with hmem | hmem
      · exact .inl ⟨entry, hmem, hcut⟩
      · exact .inr ⟨entry, hmem, hcut⟩
  torn := by
    rw [List.countP_append]
    exact Nat.add_le_add h.torn htorn
  accepted := by
    intro entry hmem
    rcases List.mem_append.mp hmem with hmem | hmem
    · exact h.accepted entry hmem
    · exact haccepted entry hmem
  uninterrupted := by
    intro hzero entry hmem
    rcases List.mem_append.mp hmem with hmem | hmem
    · exact h.uninterrupted (by omega) entry hmem
    · exact huninterrupted (by omega) entry hmem

section

variable {run : LoggedRun} {marked : Bool} {torn : List UInt8}

/-- The entries of the journal are sanitised, and hold a marker exactly when it is marked. -/
theorem journal_sanitised (hstrip : StripsEscapesOnly stripVTControlCharacters)
    (h : ∀ entry ∈ run.written,
      entry.Sanitised stripVTControlCharacters ∧ entry.isTruncated = false) (marked : Bool) :
    (∀ entry ∈ run.journal marked, entry.Sanitised stripVTControlCharacters) ∧
      (run.journal marked).any AttemptLogEntry.isTruncated = marked := by
  have hunmarked : run.written.any AttemptLogEntry.isTruncated = false := by
    rw [List.any_eq_false]
    exact fun entry hentry => by simp [(h entry hentry).2]
  unfold LoggedRun.journal
  cases marked with
  | false =>
    simp only [Bool.false_eq_true, ↓reduceIte, List.append_nil]
    exact ⟨fun entry hentry => (h entry hentry).1, hunmarked⟩
  | true =>
    simp only [↓reduceIte, List.any_append, hunmarked, Bool.false_or]
    refine ⟨?_, rfl⟩
    intro entry hentry
    rcases List.mem_append.mp hentry with hentry | hentry
    · exact (h entry hentry).1
    · rw [List.mem_singleton.mp hentry]
      exact truncationEntry_sanitised hstrip

/-- Initialisation leaves the complete lines, and remembers whether they are marked. -/
theorem initialize_kept (hstrip : StripsEscapesOnly stripVTControlCharacters)
    (hwritten : ∀ entry ∈ run.written,
      entry.Sanitised stripVTControlCharacters ∧ entry.isTruncated = false)
    (h : FileKept maxLogBytes run marked torn) :
    run.log.initialize stripVTControlCharacters path =
      ({ run.log with contents := entriesBytes (run.journal marked), initialized := true,
                      truncated := marked }, none) := by
  obtain ⟨hsanitised, hany⟩ := journal_sanitised hstrip hwritten marked
  unfold AttemptLog.initialize
  cases hinitialized : run.log.initialized with
  | true =>
    obtain ⟨rfl, htruncated⟩ := h.ready hinitialized
    have hcontents := h.contents
    rw [List.append_nil] at hcontents
    rw [if_pos rfl, ← hcontents, ← htruncated, ← hinitialized]
  | false =>
    simp only [Bool.false_eq_true, ↓reduceIte, h.contents,
      prepareJournal_entriesBytes hsanitised h.unended, hany, h.fresh hinitialized, Bool.false_or]

end

/-! ## One event -/

/-- What holds of a journal after some events. -/
def Kept (stripVTControlCharacters : String → String) (maxLogBytes : Nat) (events : List LogEvent)
    (run : LoggedRun) (marked : Bool) (torn : List UInt8) : Prop :=
  FileKept maxLogBytes run marked torn ∧
    FatesKept (recordedEntries stripVTControlCharacters events) (crashes events) run marked

/-- The plan keeps what is there, and writes the marker exactly when the entry would not leave room
for it. -/
theorem planAppend_kept {contents : List UInt8} {entry : AttemptLogEntry}
    (h : contents.length + minimumLogBytes ≤ maxLogBytes) :
    (planAppend maxLogBytes contents entry).retained = contents ∧
      ((planAppend maxLogBytes contents entry).truncates = true →
        (planAppend maxLogBytes contents entry).entry = truncationEntry) ∧
      ((planAppend maxLogBytes contents entry).truncates = false →
        (planAppend maxLogBytes contents entry).entry = entry ∧
        contents.length + (entryBytes entry).length + minimumLogBytes ≤ maxLogBytes) := by
  unfold planAppend retainedContents
  split
  · rw [if_neg (by omega)]
    exact ⟨rfl, fun _ => rfl, nofun⟩
  · next hfits => exact ⟨rfl, nofun, fun _ => ⟨rfl, by omega⟩⟩

@[simp] theorem written_append (run : LoggedRun) (log : AttemptLog)
    (fates : List (AttemptLogEntry × Fate)) :
    LoggedRun.written ⟨log, run.settled ++ fates⟩ =
      run.written ++ LoggedRun.written ⟨log, fates⟩ := by
  simp [LoggedRun.written]

/-- What did not get its line is not among the written entries. -/
theorem written_eq_nil {log : AttemptLog} {fates : List (AttemptLogEntry × Fate)}
    (h : ∀ entry ∈ fates, entry.2 ≠ .written) : LoggedRun.written ⟨log, fates⟩ = [] := by
  unfold LoggedRun.written
  rw [List.map_eq_nil_iff, List.filter_eq_nil_iff]
  exact fun entry hentry => by simp [h entry hentry]

theorem written_sanitised (hstrip : StripsEscapesOnly stripVTControlCharacters)
    {events : List LogEvent} {run : LoggedRun} {marked : Bool} {torn : List UInt8}
    (h : Kept stripVTControlCharacters maxLogBytes events run marked torn) :
    ∀ entry ∈ run.written, entry.Sanitised stripVTControlCharacters ∧ entry.isTruncated = false := by
  intro entry hentry
  apply recordedEntries_sanitised hstrip events
  rw [h.2.recorded]
  obtain ⟨pair, hpair, rfl⟩ := List.mem_map.mp hentry
  exact List.mem_append_left _ (List.mem_map_of_mem (List.mem_of_mem_filter hpair))

theorem recordedEntries_append (events others : List LogEvent) :
    recordedEntries stripVTControlCharacters (events ++ others) =
      recordedEntries stripVTControlCharacters events ++
        recordedEntries stripVTControlCharacters others :=
  List.filterMap_append

theorem crashes_append (events others : List LogEvent) :
    crashes (events ++ others) = crashes events + crashes others :=
  List.countP_append

/-- Entries that are only dropped keep every rule. -/
private theorem dropped_fates (entries : List AttemptLogEntry) :
    let fates := entries.map fun entry => (entry, Fate.dropped)
    fates.map Prod.fst = entries ∧ (∀ entry ∈ fates, entry.2 = .dropped) ∧
      fates.countP (·.2 = .torn) = 0 := by
  refine ⟨?_, ?_, ?_⟩
  · rw [List.map_map]
    exact List.map_id entries
  · rw [List.forall_mem_map]
    exact fun _ _ => rfl
  · rw [List.countP_eq_zero, List.forall_mem_map]
    exact fun _ _ => by simp

section

variable {events : List LogEvent} {run : LoggedRun} {marked : Bool} {torn : List UInt8}

/-- The file when no line was completed: what follows its lines is torn. -/
private theorem fileKept_same {log : AttemptLog} {fates : List (AttemptLogEntry × Fate)}
    {further : List UInt8} (h : FileKept maxLogBytes run marked torn)
    (hcontents : log.contents = entriesBytes (run.journal marked) ++ further)
    (hunended : lineBreakByte ∉ further) (hwhole : marked = true → further = [])
    (hfates : ∀ entry ∈ fates, entry.2 ≠ .written)
    (hready : log.initialized = true → further = [] ∧ log.truncated = marked)
    (hfresh : log.initialized = false → log.truncated = false) :
    FileKept maxLogBytes ⟨log, run.settled ++ fates⟩ marked further := by
  have hwritten : LoggedRun.written ⟨log, run.settled ++ fates⟩ = run.written := by
    rw [written_append, written_eq_nil hfates, List.append_nil]
  refine ⟨?_, hunended, hwhole, ?_, hready, hfresh⟩
  · unfold LoggedRun.journal
    rw [hwritten]
    exact hcontents
  · rw [hwritten]
    exact h.room

private theorem kept_restart {left : Option Nat} {contents : List UInt8} {further : List UInt8}
    (h : Kept stripVTControlCharacters maxLogBytes events run marked torn)
    (hcontents : contents = entriesBytes (run.journal marked) ++ further)
    (hunended : lineBreakByte ∉ further) (hwhole : marked = true → further = []) :
    Kept stripVTControlCharacters maxLogBytes (events ++ [.crash left])
      ⟨.restarted contents, run.settled ++ run.log.queue.map fun entry => (entry, .dropped)⟩ marked
      further := by
  obtain ⟨hfst, hdropped, hcount⟩ := dropped_fates run.log.queue
  constructor
  · refine fileKept_same h.1 hcontents hunended hwhole ?_ nofun fun _ => rfl
    intro entry hentry hwritten
    rw [hdropped entry hentry] at hwritten
    cases hwritten
  · rw [recordedEntries_append, crashes_append, ← Bool.or_false marked]
    show FatesKept (recordedEntries stripVTControlCharacters events ++ []) (crashes events + 1) _ _
    rw [List.append_nil]
    apply h.2.settle
    · rw [hfst]
      exact (List.append_nil _).symm
    · intro _ entry hentry hwritten
      rw [hdropped entry hentry] at hwritten
      cases hwritten
    · rw [List.pairwise_iff_forall_sublist]
      intro former later hsub hcut
      rw [hdropped former (hsub.subset List.mem_cons_self)] at hcut
      cases hcut
    · rw [Bool.or_false]
      constructor
      · exact .inl
      · rintro (hmarked | ⟨entry, hentry, hcut⟩)
        · exact hmarked
        · rw [hdropped entry hentry] at hcut
          cases hcut
    · rw [hcount]
      exact Nat.zero_le _
    · intro entry hentry hrefused
      rw [hdropped entry hentry] at hrefused
      cases hrefused
    · exact fun hzero => absurd hzero (by decide)

/-- The oldest queued entry meets its fate, and those behind it are dropped. -/
private theorem fatesKept_oldest {recorded : List AttemptLogEntry} {crashed further : Nat}
    (h : FatesKept recorded crashed run marked) {entry : AttemptLogEntry}
    {dropped : List AttemptLogEntry} {log : AttemptLog} {fate : Fate} {marks : Bool}
    (hqueue : run.log.queue = entry :: (dropped ++ log.queue))
    (hmarked : marked = true → fate ≠ .written) (hmarks : marks = true ↔ fate = .cut)
    (haccepted : fate ≠ .refused) (htorn : fate = .torn → 1 ≤ further)
    (hfurther : further = 0 → dropped = [] ∧ (fate = .written ∨ fate = .cut)) :
    FatesKept recorded (crashed + further)
      ⟨log, run.settled ++ (entry, fate) :: dropped.map fun entry => (entry, .dropped)⟩
      (marked || marks) := by
  obtain ⟨hfst, hdropped, hcount⟩ := dropped_fates dropped
  apply h.settle
  · rw [hqueue, List.map_cons, hfst]
    rfl
  · intro hyes
    rw [List.forall_mem_cons]
    refine ⟨hmarked hyes, fun other hother hwritten => ?_⟩
    rw [hdropped other hother] at hwritten
    cases hwritten
  · rw [List.pairwise_cons]
    constructor
    · intro other hother _ hwritten
      rw [hdropped other hother] at hwritten
      cases hwritten
    · rw [List.pairwise_iff_forall_sublist]
      intro former later hsub hcut
      rw [hdropped former (hsub.subset List.mem_cons_self)] at hcut
      cases hcut
  · rw [Bool.or_eq_true, hmarks]
    refine or_congr_right ?_
    constructor
    · exact fun hcut => ⟨_, List.mem_cons_self, hcut⟩
    · rintro ⟨other, hother, hcut⟩
      rcases List.mem_cons.mp hother with rfl | hother
      · exact hcut
      · rw [hdropped other hother] at hcut
        cases hcut
  · rw [List.countP_cons, hcount]
    split
    · next hyes =>
      have hone := htorn (of_decide_eq_true hyes)
      omega
    · omega
  · rw [List.forall_mem_cons]
    refine ⟨haccepted, fun other hother hrefused => ?_⟩
    rw [hdropped other hother] at hrefused
    cases hrefused
  · intro hzero
    obtain ⟨rfl, hfate⟩ := hfurther hzero
    rw [List.forall_mem_cons]
    exact ⟨hfate, nofun⟩

/-- The file after the planned line was written whole. -/
private theorem fileKept_planned {entry : AttemptLogEntry} {log : AttemptLog}
    {fates : List (AttemptLogEntry × Fate)} {plan : PlannedAppend}
    (h : FileKept maxLogBytes run false torn)
    (hplan : planAppend maxLogBytes (entriesBytes run.written) entry = plan)
    (hcontents : log.contents = plan.retained ++ entryBytes plan.entry)
    (hfates : LoggedRun.written ⟨log, fates⟩ = if plan.truncates then [] else [entry])
    (hready : log.initialized = true → log.truncated = plan.truncates)
    (hfresh : log.initialized = false → log.truncated = false) :
    FileKept maxLogBytes ⟨log, run.settled ++ fates⟩ plan.truncates [] := by
  obtain ⟨hretained, hmarker, hentry⟩ := @planAppend_kept maxLogBytes _ entry h.room
  rw [hplan] at hretained hmarker hentry
  have hwritten : LoggedRun.written ⟨log, run.settled ++ fates⟩ =
      run.written ++ if plan.truncates then [] else [entry] := by
    rw [written_append, hfates]
  refine ⟨?_, nofun, fun _ => rfl, ?_, fun hinitialized => ⟨rfl, hready hinitialized⟩, hfresh⟩
  · show log.contents = _
    unfold LoggedRun.journal
    rw [hwritten, hcontents, hretained, List.append_nil]
    cases htruncates : plan.truncates with
    | true =>
      rw [hmarker htruncates]
      simp
    | false =>
      rw [(hentry htruncates).1]
      simp
  · rw [hwritten]
    cases htruncates : plan.truncates with
    | true =>
      simp only [↓reduceIte, List.append_nil]
      exact h.room
    | false =>
      have hroom := (hentry htruncates).2
      simp only [Bool.false_eq_true, ↓reduceIte, entriesBytes_append, entriesBytes_singleton,
        List.length_append]
      omega

/-- An event that records nothing and ends no process leaves both counts. -/
private theorem counts_append (events : List LogEvent) :
    recordedEntries stripVTControlCharacters (events ++ [.append]) =
        recordedEntries stripVTControlCharacters events ∧
      crashes (events ++ [.append]) = crashes events + 0 := by
  rw [recordedEntries_append, crashes_append]
  exact ⟨List.append_nil _, rfl⟩

private theorem counts_crash (events : List LogEvent) (left : Option Nat) :
    recordedEntries stripVTControlCharacters (events ++ [.crash left]) =
        recordedEntries stripVTControlCharacters events ∧
      crashes (events ++ [.crash left]) = crashes events + 1 := by
  rw [recordedEntries_append, crashes_append]
  exact ⟨List.append_nil _, rfl⟩

/-- A journal after one more event, and no more bytes behind a marker. -/
private def KeptOn (stripVTControlCharacters : String → String) (maxLogBytes : Nat)
    (events : List LogEvent) (run next : LoggedRun) (marked : Bool) : Prop :=
  ∃ further left, Kept stripVTControlCharacters maxLogBytes events next (marked || further) left ∧
    (marked = true → next.log.contents = run.log.contents)

private theorem keptOn_enqueue {now : String} {recorded : Recorded}
    (h : Kept stripVTControlCharacters maxLogBytes events run marked torn) :
    KeptOn stripVTControlCharacters maxLogBytes (events ++ [.record now recorded]) run
      (run.enqueue stripVTControlCharacters now recorded) marked := by
  have hcrashes : crashes (events ++ [.record now recorded]) = crashes events := by
    rw [crashes_append]
    rfl
  refine ⟨false, torn, ?_⟩
  unfold LoggedRun.enqueue Kept
  rw [Bool.or_false, hcrashes, recordedEntries_append]
  cases hentry : recordedEntry stripVTControlCharacters now recorded with
  | none =>
    have hnone : recordedEntries stripVTControlCharacters [.record now recorded] = [] := by
      simp [recordedEntries, hentry]
    rw [hnone, List.append_nil]
    exact ⟨h, fun _ => rfl⟩
  | some entry =>
    have hone : recordedEntries stripVTControlCharacters [.record now recorded] = [entry] := by
      simp [recordedEntries, hentry]
    rw [hone]
    refine ⟨⟨⟨h.1.contents, h.1.unended, h.1.whole, h.1.room, h.1.ready, h.1.fresh⟩, ?_⟩,
      fun _ => rfl⟩
    refine ⟨?_, h.2.behind, h.2.cut, h.2.torn, h.2.accepted, h.2.uninterrupted⟩
    rw [h.2.recorded, List.append_assoc]

/-- The oldest queued entry is written or cut. -/
private theorem fatesKept_alone {recorded : List AttemptLogEntry} {crashed : Nat}
    (h : FatesKept recorded crashed run marked) {entry : AttemptLogEntry} {log : AttemptLog}
    {fate : Fate} {marks : Bool} (hqueue : run.log.queue = entry :: log.queue)
    (hmarked : marked = true → fate ≠ .written) (hmarks : marks = true ↔ fate = .cut)
    (hfate : fate = .written ∨ fate = .cut) :
    FatesKept recorded crashed ⟨log, run.settled ++ [(entry, fate)]⟩ (marked || marks) := by
  have hdropped : run.log.queue = entry :: ([] ++ log.queue) := hqueue
  have hsettled := @fatesKept_oldest _ _ _ _ 0 h entry [] log fate marks hdropped hmarked hmarks
  apply hsettled
  · rintro rfl
    rcases hfate with hfate | hfate <;> cases hfate
  · rintro rfl
    rcases hfate with hfate | hfate <;> cases hfate
  · exact fun _ => ⟨rfl, hfate⟩

private theorem keptOn_append (hstrip : StripsEscapesOnly stripVTControlCharacters)
    (h : Kept stripVTControlCharacters maxLogBytes events run marked torn) :
    KeptOn stripVTControlCharacters maxLogBytes (events ++ [.append]) run
      (run.appendOldest stripVTControlCharacters path maxLogBytes) marked := by
  obtain ⟨hrecorded, hcrashes⟩ := @counts_append stripVTControlCharacters events
  unfold KeptOn Kept
  rw [hrecorded, hcrashes]
  unfold LoggedRun.appendOldest
  cases hqueue : run.log.queue with
  | nil =>
    refine ⟨false, torn, ?_⟩
    rw [Bool.or_false]
    exact ⟨h, fun _ => rfl⟩
  | cons entry rest =>
    rw [initialize_kept hstrip (written_sanitised hstrip h) h.1]
    dsimp only
    cases marked with
    | true =>
      rw [if_pos rfl]
      have hcontents := h.1.contents
      rw [h.1.whole rfl, List.append_nil] at hcontents
      refine ⟨true, [], ⟨?_, fatesKept_alone h.2 hqueue nofun (by simp) (.inr rfl)⟩,
        fun _ => hcontents.symm⟩
      exact fileKept_same h.1 (List.append_nil _).symm nofun (fun _ => rfl) (by simp)
        (fun _ => ⟨rfl, rfl⟩) nofun
    | false =>
      rw [if_neg Bool.false_ne_true]
      have hjournal : run.journal false = run.written := List.append_nil _
      rw [hjournal]
      generalize hplan : planAppend maxLogBytes (entriesBytes run.written) entry = plan
      refine ⟨plan.truncates, [], ⟨?_, ?_⟩, nofun⟩
      · refine fileKept_planned h.1 hplan rfl ?_ (fun _ => rfl) nofun
        cases plan.truncates <;> simp [LoggedRun.written]
      · refine fatesKept_alone h.2 hqueue nofun ?_ ?_
        · cases plan.truncates <;> simp
        · cases plan.truncates <;> simp

/-- The process ends, and a torn line stays as it is. -/
private theorem keptOn_dropQueue {left : Option Nat}
    (h : Kept stripVTControlCharacters maxLogBytes events run marked torn) :
    KeptOn stripVTControlCharacters maxLogBytes (events ++ [.crash left]) run run.dropQueue
      marked := by
  refine ⟨false, torn, ?_⟩
  rw [Bool.or_false]
  exact ⟨kept_restart h h.1.contents h.1.unended h.1.whole, fun _ => rfl⟩

private theorem keptOn_tear (hstrip : StripsEscapesOnly stripVTControlCharacters) (left : Nat)
    (h : Kept stripVTControlCharacters maxLogBytes events run marked torn) :
    KeptOn stripVTControlCharacters maxLogBytes (events ++ [.crash (some left)]) run
      (run.tearOldest stripVTControlCharacters path maxLogBytes left) marked := by
  unfold LoggedRun.tearOldest
  cases hqueue : run.log.queue with
  | nil => exact keptOn_dropQueue h
  | cons entry rest =>
    rw [initialize_kept hstrip (written_sanitised hstrip h) h.1]
    dsimp only
    cases marked with
    | true =>
      rw [if_pos rfl]
      have hcontents := h.1.contents
      rw [h.1.whole rfl, List.append_nil] at hcontents
      refine ⟨false, [], ?_, fun _ => hcontents.symm⟩
      have hrestart : Kept stripVTControlCharacters maxLogBytes (events ++ [.crash (some left)])
          ⟨.restarted (entriesBytes (run.journal true)),
            run.settled ++ run.log.queue.map fun entry => (entry, .dropped)⟩ true [] :=
        kept_restart h (List.append_nil _).symm nofun fun _ => rfl
      exact hrestart
    | false =>
      rw [if_neg Bool.false_ne_true]
      have hjournal : run.journal false = run.written := List.append_nil _
      rw [hjournal]
      generalize hplan : planAppend maxLogBytes (entriesBytes run.written) entry = plan
      obtain ⟨hretained, -, -⟩ := @planAppend_kept maxLogBytes _ entry h.1.room
      rw [hplan] at hretained
      have hempty : run.log.queue = entry :: (rest ++ []) := by rw [hqueue, List.append_nil]
      obtain ⟨hrecorded, hcrashes⟩ := @counts_crash stripVTControlCharacters events (some left)
      unfold KeptOn Kept
      rw [hrecorded, hcrashes]
      by_cases htorn : left < (entryBytes plan.entry).length
      · simp only [htorn, ↓reduceIte]
        refine ⟨false, (entryBytes plan.entry).take left, ⟨?_, ?_⟩, nofun⟩
        · refine fileKept_same h.1 ?_ (lineBreakByte_not_mem_take htorn) nofun ?_ nofun fun _ => rfl
          · rw [hretained, Bool.or_false, hjournal]
            rfl
          · simp
        · exact fatesKept_oldest h.2 hempty nofun (by simp) (by simp) (by simp) (by simp)
      · simp only [htorn, ↓reduceIte]
        rw [List.take_of_length_le (by omega)]
        refine ⟨plan.truncates, [], ⟨?_, ?_⟩, nofun⟩
        · refine fileKept_planned h.1 hplan rfl ?_ nofun fun _ => rfl
          cases plan.truncates <;> simp [LoggedRun.written]
        · refine fatesKept_oldest h.2 hempty nofun ?_ ?_ (by simp) (by simp)
          · cases plan.truncates <;> simp
          · cases plan.truncates <;> simp

/-- Every event keeps the journal. -/
private theorem keptOn_step (hstrip : StripsEscapesOnly stripVTControlCharacters) (event : LogEvent)
    (h : Kept stripVTControlCharacters maxLogBytes events run marked torn) :
    KeptOn stripVTControlCharacters maxLogBytes (events ++ [event]) run
      (run.step stripVTControlCharacters path maxLogBytes event) marked := by
  cases event with
  | record now recorded => exact keptOn_enqueue h
  | append => exact keptOn_append hstrip h
  | crash left =>
    cases left with
    | none => exact keptOn_dropQueue h
    | some left => exact keptOn_tear hstrip left h

end

/-! ## Whole runs -/

private theorem kept_runLog (hstrip : StripsEscapesOnly stripVTControlCharacters)
    (hmax : minimumLogBytes ≤ maxLogBytes) (events : List LogEvent) :
    ∃ marked torn, Kept stripVTControlCharacters maxLogBytes events
      (runLog stripVTControlCharacters path maxLogBytes events) marked torn := by
  induction events using List.reverseRecOn with
  | nil =>
    refine ⟨false, [], ⟨rfl, nofun, nofun, ?_, nofun, fun _ => rfl⟩,
      ⟨rfl, .nil, by simp [runLog], Nat.le_refl _, nofun, nofun⟩⟩
    rw [show LoggedRun.written (runLog stripVTControlCharacters path maxLogBytes []) = [] from rfl]
    simpa using hmax
  | append_singleton events event ih =>
    obtain ⟨marked, torn, h⟩ := ih
    obtain ⟨further, left, hnext, -⟩ := @keptOn_step _ path _ _ _ _ _ hstrip event h
    rw [runLog, List.foldl_append]
    exact ⟨_, left, hnext⟩

/-- Once a journal is marked, no event appends to it. -/
private theorem marked_contents (hstrip : StripsEscapesOnly stripVTControlCharacters)
    {events : List LogEvent} {torn : List UInt8}
    (h : Kept stripVTControlCharacters maxLogBytes events
      (runLog stripVTControlCharacters path maxLogBytes events) true torn) (later : List LogEvent) :
    (runLog stripVTControlCharacters path maxLogBytes (events ++ later)).log.contents =
        (runLog stripVTControlCharacters path maxLogBytes events).log.contents ∧
      ∃ left, Kept stripVTControlCharacters maxLogBytes (events ++ later)
        (runLog stripVTControlCharacters path maxLogBytes (events ++ later)) true left := by
  induction later using List.reverseRecOn with
  | nil =>
    rw [List.append_nil]
    exact ⟨rfl, torn, h⟩
  | append_singleton later event ih =>
    obtain ⟨hcontents, left, hkept⟩ := ih
    obtain ⟨further, next, hnext, hsame⟩ := @keptOn_step _ path _ _ _ _ _ hstrip event hkept
    rw [← List.append_assoc, ← hcontents]
    have hstep : runLog stripVTControlCharacters path maxLogBytes (events ++ later ++ [event]) =
        (runLog stripVTControlCharacters path maxLogBytes (events ++ later)).step
          stripVTControlCharacters path maxLogBytes event := by
      rw [runLog, List.foldl_append]
      rfl
    rw [hstep]
    exact ⟨hsame rfl, next, hnext⟩

/-- What the next initialisation of a journal finds: the written entries in the order they were
recorded, and the marker behind them when an entry was cut. -/
structure JournalKept (stripVTControlCharacters : String → String) (path : String)
    (maxLogBytes : Nat) (events : List LogEvent) (run : LoggedRun) (marked : Bool) : Prop where
  /-- The next initialisation keeps exactly these lines. -/
  prepared : prepareJournal stripVTControlCharacters run.log.contents path =
    (entriesBytes (run.journal marked), .ok marked)
  bounded : (entriesBytes (run.journal marked)).length ≤ maxLogBytes
  parsed : completeLines stripVTControlCharacters (entriesBytes (run.journal marked)) path =
    .ok (run.journal marked)
  /-- The written entries are no markers. -/
  unmarked : ∀ entry ∈ run.written, entry.isTruncated = false
  /-- What became of the recorded entries, and which of them still wait. -/
  fates : FatesKept (recordedEntries stripVTControlCharacters events) (crashes events) run marked

/-- A journal holds what was recorded but for what crashes tore or dropped and what was cut; its
marker is final; and the line of every sanitised entry parses to it. -/
theorem journal_kept (hstrip : StripsEscapesOnly stripVTControlCharacters)
    (hmax : minimumLogBytes ≤ maxLogBytes) (events : List LogEvent) :
    (∃ marked,
      JournalKept stripVTControlCharacters path maxLogBytes events
        (runLog stripVTControlCharacters path maxLogBytes events) marked ∧
      (marked = true → ∀ later,
        (runLog stripVTControlCharacters path maxLogBytes (events ++ later)).log.contents =
          (runLog stripVTControlCharacters path maxLogBytes events).log.contents)) ∧
    ∀ entry : AttemptLogEntry, entry.Sanitised stripVTControlCharacters →
      ∀ context, parseEntry stripVTControlCharacters entry.line context = .ok entry := by
  refine ⟨?_, fun entry hentry context => parseEntry_line hentry context⟩
  obtain ⟨marked, torn, h⟩ := @kept_runLog _ path _ hstrip hmax events
  have hwritten := written_sanitised hstrip h
  obtain ⟨hsanitised, hany⟩ := journal_sanitised hstrip hwritten marked
  refine ⟨marked, ⟨?_, ?_, completeLines_entriesBytes hsanitised path,
    fun entry hentry => (hwritten entry hentry).2, h.2⟩, ?_⟩
  · rw [h.1.contents, prepareJournal_entriesBytes hsanitised h.1.unended, hany]
  · have hroom := h.1.room
    unfold LoggedRun.journal minimumLogBytes at *
    cases marked with
    | false => simp; omega
    | true => simp; omega
  · rintro rfl later
    exact (marked_contents hstrip h later).1

/-- Two starts recorded, one of them appended before the process ends. -/
def startedTwice : List LogEvent :=
  [.record "2026-01-01T00:00:00.000Z" (.progress .agentStarted), .append,
    .record "2026-01-01T00:00:01.000Z" (.progress .agentStarted), .crash none]

/-- The rules hold for a journal whose second entry was dropped. -/
theorem journal_kept_startedTwice :
    (∃ marked,
      JournalKept id "attempt.jsonl" 1024 startedTwice
        (runLog id "attempt.jsonl" 1024 startedTwice) marked ∧
      (marked = true → ∀ later,
        (runLog id "attempt.jsonl" 1024 (startedTwice ++ later)).log.contents =
          (runLog id "attempt.jsonl" 1024 startedTwice).log.contents)) ∧
    ∀ entry : AttemptLogEntry, entry.Sanitised id →
      ∀ context, parseEntry id entry.line context = .ok entry :=
  @journal_kept id "attempt.jsonl" 1024 (fun _ _ => rfl) (by decide +kernel) startedTwice

/-- An entry whose append had not begun is lost in a crash, though nothing tore it or cut it. -/
theorem queued_entry_lost :
    ¬ ∀ (stripVTControlCharacters : String → String) (path : String) (maxLogBytes : Nat)
        (events : List LogEvent),
      StripsEscapesOnly stripVTControlCharacters → minimumLogBytes ≤ maxLogBytes →
      ∀ entry ∈ (runLog stripVTControlCharacters path maxLogBytes events).settled,
        entry.2 = .written ∨ entry.2 = .torn ∨ entry.2 = .cut := by
  intro h
  have hlost := h id "attempt.jsonl" 1024
    [.record "2026-01-01T00:00:00.000Z" (.progress .agentStarted), .crash none]
    (fun _ _ => rfl) (by decide +kernel)
    (.progress "2026-01-01T00:00:00.000Z" .agentStarted, .dropped) (by decide +kernel)
  rcases hlost with hfate | hfate | hfate <;> cases hfate

end BuildConductor.Storage
