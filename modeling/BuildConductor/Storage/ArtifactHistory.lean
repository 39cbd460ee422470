import BuildConductor.Storage.ArtifactNames
import Mathlib.Algebra.Order.BigOperators.Group.List
import Mathlib.Algebra.Order.Group.Nat
import Mathlib.Data.List.Perm.Basic
import Mathlib.Data.List.Sort
import Mathlib.Data.List.Induction

/-!
# The history of an artifact directory

What the files of a run hold after any sequence of writes. The directory always holds the files of a
list of records with distinct ids, and each write either refuses, finds its record stored or adds it.
`src/src/storage/artifact-store.ts`.
-/

namespace BuildConductor.Storage

open Base Domain

namespace ArtifactStore

/-! ## File names -/

@[simp] theorem withoutExtension_fileNameFor (id : String) :
    withoutExtension (fileNameFor id) = id := by
  unfold withoutExtension fileNameFor
  rw [String.toList_append, List.length_append]
  show String.ofList ((id.toList ++ ".json".toList).take (id.toList.length + 5 - 5)) = id
  rw [Nat.add_sub_cancel, List.take_left, String.ofList_toList]

private theorem endsWith_fileNameFor (id : String) : endsWith (fileNameFor id) ".json" = true := by
  unfold endsWith fileNameFor
  rw [String.toList_append]
  exact List.isSuffixOf_iff_suffix.mpr (List.suffix_append _ _)

/-! ## What a directory holds -/

/-- The file of a record. -/
def fileOf (record : ArtifactRecord) : String × String :=
  (fileNameFor record.id, serialize record)

/-- The files are those of some records of the run, with distinct ids. -/
structure Holds (store : ArtifactStore) (platform : Platform) (runId : String)
    (records : List ArtifactRecord) (files : RunDirectory) : Prop where
  files : files = records.map fileOf
  runId : ∀ record ∈ records, record.runId = runId
  wellFormed : ∀ record ∈ records, record.WellFormed platform.sha256Hex
  fits : ∀ record ∈ records, record.payload.utf8ByteSize ≤ store.maxArtifactBytes.val
  distinct : (records.map ArtifactRecord.id).Nodup

variable {store : ArtifactStore} {platform : Platform} {runId : String}
  {records : List ArtifactRecord} {files : RunDirectory}

theorem holds_nil : Holds store platform runId [] [] := ⟨rfl, nofun, nofun, nofun, List.nodup_nil⟩

private theorem lookup_files {record : ArtifactRecord} (hdistinct : (records.map ArtifactRecord.id).Nodup)
    (hmem : record ∈ records) :
    (records.map fileOf).lookup (fileNameFor record.id) = some (serialize record) := by
  induction records with
  | nil => cases hmem
  | cons first rest ih =>
    rw [List.map_cons, List.nodup_cons] at hdistinct
    rw [List.map_cons, fileOf, List.lookup_cons]
    rcases List.mem_cons.mp hmem with rfl | hrest
    · simp
    · have hne : fileNameFor record.id ≠ fileNameFor first.id := by
        intro heq
        exact hdistinct.1 (List.mem_map.mpr ⟨record, hrest, fileNameFor_inj heq⟩)
      rw [beq_eq_false_iff_ne.mpr hne]
      exact ih hdistinct.2 hrest

theorem Holds.lookup (h : Holds store platform runId records files) {record : ArtifactRecord}
    (hmem : record ∈ records) : files.lookup (fileNameFor record.id) = some (serialize record) := by
  rw [h.files]
  exact lookup_files h.distinct hmem

theorem Holds.lookup_none (h : Holds store platform runId records files) {id : String}
    (hmem : id ∉ records.map ArtifactRecord.id) : files.lookup (fileNameFor id) = none := by
  rw [h.files, List.lookup_eq_none_iff]
  intro file hfile
  obtain ⟨record, hrecord, rfl⟩ := List.mem_map.mp hfile
  rw [fileOf, bne_iff_ne]
  intro heq
  exact hmem (List.mem_map.mpr ⟨record, hrecord, (fileNameFor_inj heq).symm⟩)

theorem mapError_ok_iff {ε ε' α : Type} {x : Except ε α} {f : ε → ε'} {a : α} :
    x.mapError f = .ok a ↔ x = .ok a := by
  cases x <;> simp [Except.mapError]

/-- A stored record reads back. -/
theorem Holds.readRecordFile (hsha : ∀ payload, IsSha256Hex (platform.sha256Hex payload))
    (h : Holds store platform runId records files) {record : ArtifactRecord} (hmem : record ∈ records) :
    readRecordFile store platform files runId (fileNameFor record.id) = .ok record := by
  have hwf := h.wellFormed record hmem
  have hrun := h.runId record hmem
  have hdirectory : runDirectory store runId = .ok s!"{store.directory}/{runId}" := by
    unfold runDirectory
    rw [if_pos (hrun ▸ hwf.runId)]
  have hparse : parseJson (serialize record) = some record.toJson :=
    parseJson_jsonText .indented record.toJson_writable ['\n'] (by simp [isJsonSpace])
  have hlocation : ¬ (record.runId ≠ runId ∨ fileNameFor record.id ≠ fileNameFor record.id) := by
    simp [hrun]
  unfold ArtifactStore.readRecordFile
  simp only [h.lookup hmem, bind_ok_iff, mapError_ok_iff, require_ok_iff]
  exact ⟨_, hdirectory, record.toJson, hparse, record, validateArtifactRecord_toJson hsha hwf,
    if_neg hlocation⟩

/-! ## Listing -/

/-- The listed names are those of the stored records, in some order. -/
theorem Holds.listFileNames_perm (h : Holds store platform runId records files) :
    (listFileNames platform files).Perm (records.map fun record => fileNameFor record.id) := by
  have hnames : (files.map Prod.fst).filter (endsWith · ".json") =
      records.map fun record => fileNameFor record.id := by
    rw [h.files, List.map_map]
    apply List.filter_eq_self.mpr
    intro name hname
    obtain ⟨record, -, rfl⟩ := List.mem_map.mp hname
    exact endsWith_fileNameFor record.id
  unfold listFileNames
  rw [hnames]
  exact List.mergeSort_perm _ _

theorem Holds.length_listFileNames (h : Holds store platform runId records files) :
    (listFileNames platform files).length = records.length := by
  rw [h.listFileNames_perm.length_eq, List.length_map]

/-- The bytes counted are those of the stored records. -/
theorem Holds.storedBytes (h : Holds store platform runId records files) :
    storedBytes platform files = (records.map fun record => (serialize record).utf8ByteSize).sum := by
  unfold ArtifactStore.storedBytes
  rw [(h.listFileNames_perm.map _).sum_nat, List.map_map]
  apply congrArg List.sum
  apply List.map_congr_left
  intro record hmem
  simp only [Function.comp_apply, h.lookup hmem, Option.map_some, Option.getD_some]

/-- The record is a value of the output. -/
def IsOutput (stepId output : String) (record : ArtifactRecord) : Prop :=
  record.stepId = stepId ∧ record.output = output

instance (stepId output : String) (record : ArtifactRecord) :
    Decidable (IsOutput stepId output record) :=
  inferInstanceAs (Decidable (_ ∧ _))

private theorem parse_fileName (h : Holds store platform runId records files) {record : ArtifactRecord}
    (hmem : record ∈ records) :
    parseArtifactId (withoutExtension (fileNameFor record.id)) = .ok record.identity := by
  rw [withoutExtension_fileNameFor]
  exact parseArtifactId_of_artifactIdFor (h.wellFormed record hmem).id

/-- The attempts found for an output are those of its stored records. -/
theorem Holds.attemptFiles_perm (h : Holds store platform runId records files) (stepId output : String) :
    (attemptFiles platform files stepId output).Perm
      ((records.filter (IsOutput stepId output ·)).map fun record =>
        (record.attempt, fileNameFor record.id)) := by
  unfold attemptFiles
  apply (h.listFileNames_perm.filterMap _).trans
  apply List.Perm.of_eq
  rw [List.filterMap_map, ← List.filterMap_eq_map, List.filterMap_filter]
  apply List.filterMap_congr
  intro record hmem
  simp only [Function.comp_apply, parse_fileName h hmem, decide_eq_true_eq]
  rfl

/-! ## Retention -/

/-- The attempts of an output among some records. -/
def attemptsOf (records : List ArtifactRecord) (stepId output : String) : Finset Nat :=
  ((records.filter (IsOutput stepId output ·)).map (·.attempt)).toFinset

theorem mem_attemptsOf {stepId output : String} {attempt : Nat} :
    attempt ∈ attemptsOf records stepId output ↔
      ∃ record ∈ records, IsOutput stepId output record ∧ record.attempt = attempt := by
  simp [attemptsOf, and_assoc]

/-- The attempts a store keeps of those written. -/
def keptAttempts (store : ArtifactStore) (attempts : Finset Nat) : Finset Nat :=
  match store.retainedAttemptsPerOutput with
  | none => attempts
  | some retained => largest retained.val attempts

theorem Holds.eq_of_id (h : Holds store platform runId records files) {record other : ArtifactRecord}
    (hmem : record ∈ records) (hother : other ∈ records) (hid : record.id = other.id) :
    record = other :=
  List.inj_on_of_nodup_map h.distinct hmem hother hid

theorem Holds.eq_of_identity (h : Holds store platform runId records files)
    {record other : ArtifactRecord} (hmem : record ∈ records) (hother : other ∈ records)
    (hidentity : record.identity = other.identity) : record = other := by
  apply h.eq_of_id hmem hother
  have hid := (h.wellFormed record hmem).id
  rw [hidentity, (h.wellFormed other hother).id] at hid
  exact (Except.ok.inj hid).symm

/-- The attempts found for an output, newest first, are strictly decreasing. -/
private theorem newestFirst_pairwise (h : Holds store platform runId records files)
    (stepId output : String) :
    ((newestFirst (attemptFiles platform files stepId output)).map Prod.fst).Pairwise (· > ·) := by
  have hperm := (List.mergeSort_perm (attemptFiles platform files stepId output)
    fun left right => right.1 ≤ left.1).trans (h.attemptFiles_perm stepId output)
  have hnodup : ((newestFirst (attemptFiles platform files stepId output)).map Prod.fst).Nodup := by
    rw [newestFirst, (hperm.map Prod.fst).nodup_iff, List.map_map]
    apply List.Nodup.map_on
    · intro record hmem other hother hattempt
      rw [List.mem_filter, decide_eq_true_eq] at hmem hother
      apply h.eq_of_identity hmem.1 hother.1
      unfold ArtifactRecord.identity
      rw [hmem.2.1, hmem.2.2, hother.2.1, hother.2.2]
      exact congrArg _ hattempt
    · exact h.distinct.of_map.filter _
  have hsorted : (newestFirst (attemptFiles platform files stepId output)).Pairwise
      fun left right => right.1 ≤ left.1 := by
    have hle := @List.pairwise_mergeSort _ (fun left right : Nat × String =>
      decide (right.1 ≤ left.1)) (by simp; omega) (by simp; omega)
      (attemptFiles platform files stepId output)
    simpa [newestFirst] using hle
  rw [List.pairwise_map]
  rw [List.Nodup, List.pairwise_map] at hnodup
  exact (hsorted.and hnodup).imp fun hpair => lt_of_le_of_ne hpair.1 hpair.2.symm

private theorem mem_newestFirst (h : Holds store platform runId records files) {stepId output : String}
    {pair : Nat × String} : pair ∈ newestFirst (attemptFiles platform files stepId output) ↔
      ∃ record ∈ records, IsOutput stepId output record ∧
        (record.attempt, fileNameFor record.id) = pair := by
  rw [newestFirst, List.mem_mergeSort, (h.attemptFiles_perm stepId output).mem_iff]
  simp [and_assoc]

/-- A stored record is stale exactly when its attempt is past the newest ones of its output. -/
private theorem stale_iff (h : Holds store platform runId records files) (stepId output : String)
    (retained : Nat) {record : ArtifactRecord} (hmem : record ∈ records) :
    fileNameFor record.id ∈ ((newestFirst (attemptFiles platform files stepId output)).drop
        retained).map Prod.snd ↔
      IsOutput stepId output record ∧
        record.attempt ∉ largest retained (attemptsOf records stepId output) := by
  let found := newestFirst (attemptFiles platform files stepId output)
  have hpairwise : (found.map Prod.fst).Pairwise (· > ·) := newestFirst_pairwise h stepId output
  have hattempts : (found.map Prod.fst).toFinset = attemptsOf records stepId output := by
    ext attempt
    rw [mem_attemptsOf, List.mem_toFinset, List.mem_map]
    constructor
    · rintro ⟨pair, hpair, rfl⟩
      obtain ⟨other, hother, houtput, rfl⟩ := (mem_newestFirst h).mp hpair
      exact ⟨other, hother, houtput, rfl⟩
    · rintro ⟨other, hother, houtput, rfl⟩
      exact ⟨_, (mem_newestFirst h).mpr ⟨other, hother, houtput, rfl⟩, rfl⟩
  have hdisjoint : ∀ attempt, attempt ∈ (found.drop retained).map Prod.fst →
      attempt ∉ (found.take retained).map Prod.fst := by
    intro attempt hdrop htake
    rw [← List.take_append_drop retained found, List.map_append, List.pairwise_append] at hpairwise
    exact lt_irrefl attempt (hpairwise.2.2 attempt htake attempt hdrop)
  rw [← hattempts, ← toFinset_take hpairwise, List.mem_toFinset, ← List.map_take, List.mem_map]
  constructor
  · rintro ⟨pair, hpair, hname⟩
    obtain ⟨other, hother, houtput, rfl⟩ := (mem_newestFirst h).mp (List.mem_of_mem_drop hpair)
    have hsame : other = record := h.eq_of_id hother hmem (fileNameFor_inj hname)
    subst hsame
    exact ⟨houtput, hdisjoint other.attempt (List.mem_map.mpr ⟨_, hpair, rfl⟩)⟩
  · rintro ⟨houtput, hattempt⟩
    have hfound : (record.attempt, fileNameFor record.id) ∈ found :=
      (mem_newestFirst h).mpr ⟨record, hmem, houtput, rfl⟩
    rw [← List.take_append_drop retained found, List.mem_append] at hfound
    rcases hfound with htake | hdrop
    · exact absurd (List.mem_map.mpr ⟨_, htake, rfl⟩) hattempt
    · exact ⟨_, hdrop, rfl⟩

/-- Retention keeps the newest attempts of the written output, and every other record. -/
theorem Holds.applyRetention (h : Holds store platform runId records files) (written : ArtifactRecord) :
    ∃ kept, Holds store platform runId kept (applyRetention store platform files written) ∧
      kept.Sublist records ∧
      ∀ stepId output, attemptsOf kept stepId output =
        if IsOutput stepId output written then keptAttempts store (attemptsOf records stepId output)
        else attemptsOf records stepId output := by
  unfold ArtifactStore.applyRetention keptAttempts
  cases hretained : store.retainedAttemptsPerOutput with
  | none => exact ⟨records, h, .refl records, by simp⟩
  | some retained =>
    let found := newestFirst (attemptFiles platform files written.stepId written.output)
    let stale := (found.drop retained.val).map Prod.snd
    let kept := records.filter fun record => fileNameFor record.id ∉ stale
    have hsub : kept.Sublist records := List.filter_sublist
    have hfiles : files.filter (fun file => file.1 ∉ stale) = kept.map fileOf := by
      rw [h.files, List.filter_map]
      rfl
    refine ⟨kept, ⟨hfiles, fun record hmem => h.runId record (hsub.subset hmem),
      fun record hmem => h.wellFormed record (hsub.subset hmem),
      fun record hmem => h.fits record (hsub.subset hmem),
      h.distinct.sublist (hsub.map _)⟩, hsub, ?_⟩
    have hkept : ∀ record, record ∈ kept ↔ record ∈ records ∧
        (IsOutput written.stepId written.output record →
          record.attempt ∈ largest retained.val
            (attemptsOf records written.stepId written.output)) := by
      intro record
      rw [List.mem_filter, decide_eq_true_eq]
      apply and_congr_right
      intro hmem
      rw [stale_iff h written.stepId written.output retained.val hmem]
      tauto
    intro stepId output
    ext attempt
    rw [mem_attemptsOf]
    split
    · next houtput =>
      obtain ⟨rfl, rfl⟩ := houtput
      constructor
      · rintro ⟨record, hmem, hrecord, rfl⟩
        exact ((hkept record).mp hmem).2 hrecord
      · intro hattempt
        obtain ⟨record, hmem, hrecord, rfl⟩ :=
          mem_attemptsOf.mp (largest_subset _ _ hattempt)
        exact ⟨record, (hkept record).mpr ⟨hmem, fun _ => hattempt⟩, hrecord, rfl⟩
    · next houtput =>
      rw [mem_attemptsOf]
      constructor
      · rintro ⟨record, hmem, hrecord⟩
        exact ⟨record, hsub.subset hmem, hrecord⟩
      · rintro ⟨record, hmem, hrecord, rfl⟩
        refine ⟨record, (hkept record).mpr ⟨hmem, fun hwritten => ?_⟩, hrecord, rfl⟩
        exact absurd ⟨hwritten.1.symm.trans hrecord.1, hwritten.2.symm.trans hrecord.2⟩ houtput

/-! ## One write -/

/-- The record is what the request asks to store. -/
structure Requests (request : ArtifactWriteRequest) (record : ArtifactRecord) : Prop where
  identity : record.identity = request.toArtifactIdentity
  kind : record.kind = request.kind
  title : record.title = request.title
  payload : serializeArtifactPayload request.kind request.payload = .ok record.payload

/-- A built record is well formed, small enough and what the request asks for. -/
private theorem buildRecord_ok {request : ArtifactWriteRequest} {createdAt : Timestamp}
    {record : ArtifactRecord} (h : buildRecord store platform request createdAt = .ok record) :
    record.runId = request.runId ∧ record.WellFormed platform.sha256Hex ∧
      record.payload.utf8ByteSize ≤ store.maxArtifactBytes.val ∧ Requests request record := by
  unfold buildRecord at h
  simp only [bind_ok_iff, mapError_ok_iff, ensure_ok_iff] at h
  obtain ⟨-, hrun, -, htitle, id, hid, payload, hpayload, h⟩ := h
  split at h
  · cases h
  · next hsize =>
    cases h
    exact ⟨rfl, ⟨hrun, hid, rfl, htitle, createdAt.nonempty, rfl, rfl,
      parseArtifactPayload_of_serialize hpayload⟩, Nat.not_lt.mp hsize, ⟨rfl, rfl, rfl, hpayload⟩⟩

/-- A request for a stored record builds a record that differs in its time at most. -/
private theorem buildRecord_of_requests {request : ArtifactWriteRequest} (createdAt : Timestamp)
    {record : ArtifactRecord} (hrun : record.runId = request.runId)
    (hwf : record.WellFormed platform.sha256Hex)
    (hfits : record.payload.utf8ByteSize ≤ store.maxArtifactBytes.val)
    (h : Requests request record) :
    buildRecord store platform request createdAt = .ok { record with createdAt := createdAt.text } := by
  have hid : artifactIdFor request.toArtifactIdentity = .ok record.id := by
    rw [← h.identity]
    exact hwf.id
  unfold buildRecord
  simp only [bind_ok_iff, mapError_ok_iff, ensure_ok_iff]
  refine ⟨(), hrun ▸ hwf.runId, (), h.title ▸ hwf.title, record.id, hid, record.payload, h.payload, ?_⟩
  rw [if_neg (Nat.not_lt.mpr hfits), ← h.kind, ← hwf.mediaType, ← h.title, ← hrun,
    ← hwf.contentHash, ← hwf.sizeBytes, ← h.identity]
  rfl

theorem Holds.readExisting_mem (hsha : ∀ payload, IsSha256Hex (platform.sha256Hex payload))
    (h : Holds store platform runId records files) {record : ArtifactRecord}
    (hmem : record ∈ records) :
    readExisting store platform files runId record.id = .ok (some record) := by
  unfold readExisting
  rw [h.readRecordFile hsha hmem]

theorem Holds.readExisting_absent (h : Holds store platform runId records files) {id : String}
    (hrun : matchesRunIdPattern runId) (hid : id ∉ records.map ArtifactRecord.id) :
    readExisting store platform files runId id = .ok none := by
  have hmissing : ∃ error, ArtifactStore.readRecordFile store platform files runId
      (fileNameFor id) = .error error ∧ error.code = .artifactNotFound := by
    unfold ArtifactStore.readRecordFile runDirectory
    rw [if_pos hrun]
    simp only [h.lookup_none hid]
    exact ⟨_, rfl, rfl⟩
  obtain ⟨error, herror, hcode⟩ := hmissing
  unfold readExisting
  rw [herror]
  exact if_pos hcode

/-- Rewriting a stored id returns the stored record for the same content and fails otherwise. -/
theorem Holds.write_existing (hsha : ∀ payload, IsSha256Hex (platform.sha256Hex payload))
    (h : Holds store platform runId records files) {record : ArtifactRecord}
    (hmem : record ∈ records) {request : ArtifactWriteRequest} (createdAt : Timestamp)
    (hrun : request.runId = runId) (hidentity : request.toArtifactIdentity = record.identity) :
    (Requests request record → write store platform files request createdAt = (.ok record, files)) ∧
    (¬ Requests request record →
      ∃ error, write store platform files request createdAt = (.error error, files)) := by
  constructor
  · intro hrequests
    have hbuild := buildRecord_of_requests createdAt ((h.runId record hmem).trans hrun.symm)
      (h.wellFormed record hmem) (h.fits record hmem) hrequests
    unfold write
    simp only [hbuild, h.runId record hmem, h.readExisting_mem hsha hmem]
    unfold reconcileExisting
    rw [if_pos ⟨rfl, rfl, rfl, rfl⟩]
  · intro hnot
    unfold write
    cases hbuild : buildRecord store platform request createdAt with
    | error error => exact ⟨error, rfl⟩
    | ok proposed =>
      obtain ⟨hproposedRun, hwf, -, hrequests⟩ := buildRecord_ok hbuild
      have hid : proposed.id = record.id := by
        have hproposedId := hwf.id
        rw [hrequests.identity, hidentity, (h.wellFormed record hmem).id] at hproposedId
        exact (Except.ok.inj hproposedId).symm
      have hdiffers : ¬ (record.contentHash = proposed.contentHash ∧
          record.payload = proposed.payload ∧ record.kind = proposed.kind ∧
          record.title = proposed.title) := by
        rintro ⟨-, hpayload, hkind, htitle⟩
        exact hnot ⟨hidentity.symm, hkind.trans hrequests.kind, htitle.trans hrequests.title,
          hpayload ▸ hrequests.payload⟩
      simp only [hid, hproposedRun, hrun, h.readExisting_mem hsha hmem]
      unfold reconcileExisting
      rw [if_neg hdiffers]
      exact ⟨_, rfl⟩

/-- The records fit the limits of the store. -/
structure WithinLimits (store : ArtifactStore) (records : List ArtifactRecord) : Prop where
  count : records.length ≤ store.maxRunArtifacts.val
  bytes : (records.map fun record => (serialize record).utf8ByteSize).sum ≤ store.maxRunBytes.val

/-- A write refuses, finds its record, or adds it within the limits and applies retention. -/
theorem Holds.write_cases (hsha : ∀ payload, IsSha256Hex (platform.sha256Hex payload))
    (h : Holds store platform runId records files) {request : ArtifactWriteRequest}
    (createdAt : Timestamp) (hrun : request.runId = runId) :
    (∃ error, write store platform files request createdAt = (.error error, files)) ∨
    (∃ record ∈ records, Requests request record ∧
      write store platform files request createdAt = (.ok record, files)) ∨
    (∃ record, Requests request record ∧
      Holds store platform runId (records ++ [record]) (files ++ [fileOf record]) ∧
      WithinLimits store (records ++ [record]) ∧
      write store platform files request createdAt =
        (.ok record,
          ArtifactStore.applyRetention store platform (files ++ [fileOf record]) record)) := by
  cases hbuild : buildRecord store platform request createdAt with
  | error error =>
    refine .inl ⟨error, ?_⟩
    unfold write
    simp only [hbuild]
  | ok record =>
    obtain ⟨hrecordRun, hwf, hfits, hrequests⟩ := buildRecord_ok hbuild
    by_cases hstored : record.id ∈ records.map ArtifactRecord.id
    · obtain ⟨existing, hmem, hid⟩ := List.mem_map.mp hstored
      have hidentity : request.toArtifactIdentity = existing.identity := by
        rw [← hrequests.identity]
        exact artifactIdFor_inj hwf.id (hid ▸ (h.wellFormed existing hmem).id)
      obtain ⟨hsame, hdiffers⟩ := h.write_existing hsha hmem createdAt hrun hidentity
      by_cases hrequest : Requests request existing
      · exact .inr (.inl ⟨existing, hmem, hrequest, hsame hrequest⟩)
      · exact .inl (hdiffers hrequest)
    · have hsafe : matchesRunIdPattern runId := by
        rw [← hrun, ← hrecordRun]
        exact hwf.runId
      have habsent : readExisting store platform files record.runId record.id = .ok none := by
        rw [hrecordRun, hrun]
        exact h.readExisting_absent hsafe hstored
      have hpublish : publishExclusive files record (serialize record) =
          some (files ++ [fileOf record]) := by
        unfold publishExclusive
        rw [h.lookup_none hstored]
        rfl
      unfold write
      simp only [hbuild, habsent, hpublish]
      unfold enforceRunLimits
      simp only [h.length_listFileNames, h.storedBytes]
      split
      · next error hlimits => exact .inl ⟨error, rfl⟩
      · next hlimits =>
        split at hlimits
        · cases hlimits
        next hcount =>
        split at hlimits
        · cases hlimits
        next hbytes =>
        refine .inr (.inr ⟨record, hrequests, ?_, ?_, rfl⟩)
        · constructor
          · rw [h.files, List.map_append]
            rfl
          · simpa [or_imp, forall_and] using ⟨h.runId, hrecordRun.trans hrun⟩
          · simpa [or_imp, forall_and] using ⟨h.wellFormed, hwf⟩
          · simpa [or_imp, forall_and] using ⟨h.fits, hfits⟩
          · rw [List.map_append, List.nodup_append]
            refine ⟨h.distinct, by simp, ?_⟩
            rintro id hmem other hother rfl
            rw [List.map_singleton, List.mem_singleton] at hother
            exact hstored (hother ▸ hmem)
        · constructor
          · rw [List.length_append, List.length_singleton]
            omega
          · rw [List.map_append, List.sum_append, List.map_singleton, List.sum_singleton]
            omega

/-! ## A sequence of writes -/

/-- One write, at the time the record is built. -/
structure WriteCall where
  request : ArtifactWriteRequest
  createdAt : Timestamp

/-- The records a sequence of writes returned, and the files it left. -/
structure WriteHistory where
  returned : List ArtifactRecord
  files : RunDirectory

section

variable (store platform)

/-- The history after one more write. -/
def WriteHistory.write (history : WriteHistory) (call : WriteCall) : WriteHistory :=
  let result := ArtifactStore.write store platform history.files call.request call.createdAt
  ⟨history.returned ++ result.1.toOption.toList, result.2⟩

/-- The history of a sequence of writes to a fresh run. -/
def history (calls : List WriteCall) : WriteHistory :=
  calls.foldl (WriteHistory.write store platform) ⟨[], []⟩

end

theorem history_concat (calls : List WriteCall) (call : WriteCall) :
    history store platform (calls ++ [call]) =
      (history store platform calls).write store platform call :=
  List.foldl_concat _ _ _ _

private theorem attemptsOf_concat (records : List ArtifactRecord) (record : ArtifactRecord)
    (stepId output : String) : attemptsOf (records ++ [record]) stepId output =
      if IsOutput stepId output record then insert record.attempt (attemptsOf records stepId output)
      else attemptsOf records stepId output := by
  ext attempt
  rw [mem_attemptsOf]
  split
  · next houtput =>
    rw [Finset.mem_insert, mem_attemptsOf]
    simp only [List.mem_append, List.mem_singleton]
    constructor
    · rintro ⟨other, hmem | rfl, hother⟩
      · exact .inr ⟨other, hmem, hother⟩
      · exact .inl hother.2.symm
    · rintro (rfl | ⟨other, hmem, hother⟩)
      · exact ⟨record, .inr rfl, houtput, rfl⟩
      · exact ⟨other, .inl hmem, hother⟩
  · next houtput =>
    rw [mem_attemptsOf]
    simp only [List.mem_append, List.mem_singleton]
    constructor
    · rintro ⟨other, hmem | rfl, hother⟩
      · exact ⟨other, hmem, hother⟩
      · exact absurd hother.1 houtput
    · rintro ⟨other, hmem, hother⟩
      exact ⟨other, .inl hmem, hother⟩

private theorem keptAttempts_subset (attempts : Finset Nat) :
    keptAttempts store attempts ⊆ attempts := by
  unfold keptAttempts
  split
  · exact Finset.Subset.refl attempts
  · exact largest_subset _ attempts

private theorem keptAttempts_insert (attempt : Nat) (attempts : Finset Nat) :
    keptAttempts store (insert attempt (keptAttempts store attempts)) =
      keptAttempts store (insert attempt attempts) := by
  unfold keptAttempts
  split
  · rfl
  · exact largest_insert_largest _ attempt attempts

/-- Fewer records stay within the limits. -/
private theorem WithinLimits.sublist {kept : List ArtifactRecord} (h : WithinLimits store records)
    (hsub : kept.Sublist records) : WithinLimits store kept where
  count := hsub.length_le.trans h.count
  bytes := (hsub.map _).sum_le_sum (by simp) |>.trans h.bytes

/-- After any writes the directory holds records within the limits, and of each output the attempts
the store keeps of those written. -/
theorem history_holds (hsha : ∀ payload, IsSha256Hex (platform.sha256Hex payload))
    (calls : List WriteCall) (hrun : ∀ call ∈ calls, call.request.runId = runId) :
    ∃ records, Holds store platform runId records (history store platform calls).files ∧
      WithinLimits store records ∧
      ∀ stepId output, attemptsOf records stepId output =
        keptAttempts store (attemptsOf (history store platform calls).returned stepId output) := by
  induction calls using List.reverseRecOn with
  | nil =>
    refine ⟨[], holds_nil, ⟨Nat.zero_le _, Nat.zero_le _⟩, ?_⟩
    intro stepId output
    exact (Finset.subset_empty.mp (keptAttempts_subset _)).symm
  | append_singleton calls call ih =>
    obtain ⟨records, hholds, hlimits, hattempts⟩ :=
      ih fun other hmem => hrun other (List.mem_append_left _ hmem)
    have hcall := hrun call (by simp)
    rw [history_concat, WriteHistory.write]
    rcases hholds.write_cases hsha call.createdAt hcall with
      ⟨error, hwrite⟩ | ⟨record, hmem, -, hwrite⟩ | ⟨record, -, hadded, hfits, hwrite⟩
    · rw [hwrite]
      refine ⟨records, hholds, hlimits, ?_⟩
      simpa [Except.toOption] using hattempts
    · rw [hwrite]
      refine ⟨records, hholds, hlimits, ?_⟩
      intro stepId output
      show _ = keptAttempts store (attemptsOf (_ ++ [record]) stepId output)
      rw [attemptsOf_concat]
      split
      · next houtput =>
        have hwritten : record.attempt ∈
            attemptsOf (history store platform calls).returned stepId output := by
          apply keptAttempts_subset
          rw [← hattempts]
          exact mem_attemptsOf.mpr ⟨record, hmem, houtput, rfl⟩
        rw [Finset.insert_eq_of_mem hwritten, hattempts]
      · exact hattempts stepId output
    · rw [hwrite]
      obtain ⟨kept, hkept, hsub, hretained⟩ := hadded.applyRetention record
      refine ⟨kept, hkept, hfits.sublist hsub, ?_⟩
      intro stepId output
      show _ = keptAttempts store (attemptsOf (_ ++ [record]) stepId output)
      rw [hretained, attemptsOf_concat, attemptsOf_concat]
      split
      · rw [hattempts, keptAttempts_insert]
      · exact hattempts stepId output

/-! ## What readers see -/

/-- Reading the id of the record returns the record. -/
def IsStored (store : ArtifactStore) (platform : Platform) (runId : String) (files : RunDirectory)
    (record : ArtifactRecord) : Prop :=
  read store platform files runId record.id = .ok record

theorem Holds.isStored_iff (hsha : ∀ payload, IsSha256Hex (platform.sha256Hex payload))
    (h : Holds store platform runId records files) {record : ArtifactRecord} :
    IsStored store platform runId files record ↔ record ∈ records := by
  unfold IsStored read
  rw [bind_ok_iff]
  simp only [mapError_ok_iff]
  constructor
  · rintro ⟨identity, -, hread⟩
    by_cases hid : record.id ∈ records.map ArtifactRecord.id
    · obtain ⟨other, hmem, hother⟩ := List.mem_map.mp hid
      rw [← hother, h.readRecordFile hsha hmem] at hread
      cases hread
      exact hmem
    · unfold ArtifactStore.readRecordFile at hread
      simp only [bind_ok_iff, h.lookup_none hid] at hread
      obtain ⟨_, _, hread⟩ := hread
      cases hread
  · intro hmem
    exact ⟨record.identity, parseArtifactId_of_artifactIdFor (h.wellFormed record hmem).id,
      h.readRecordFile hsha hmem⟩

/-- A stored record is what some write asked for. -/
theorem isStored_requested (hsha : ∀ payload, IsSha256Hex (platform.sha256Hex payload))
    {calls : List WriteCall} (hrun : ∀ call ∈ calls, call.request.runId = runId)
    {record : ArtifactRecord}
    (h : IsStored store platform runId (history store platform calls).files record) :
    ∃ call ∈ calls, Requests call.request record := by
  induction calls using List.reverseRecOn with
  | nil =>
    cases (holds_nil.isStored_iff hsha).mp h
  | append_singleton calls call ih =>
    have hbefore : ∀ other ∈ calls, other.request.runId = runId :=
      fun other hmem => hrun other (List.mem_append_left _ hmem)
    have hearlier : IsStored store platform runId (history store platform calls).files record →
        ∃ call' ∈ calls ++ [call], Requests call'.request record := by
      intro hstored
      obtain ⟨other, hmem, hrequests⟩ := ih hbefore hstored
      exact ⟨other, List.mem_append_left _ hmem, hrequests⟩
    obtain ⟨records, hholds, -, -⟩ := history_holds hsha calls hbefore
    rw [history_concat, WriteHistory.write] at h
    rcases hholds.write_cases hsha call.createdAt (hrun call (by simp)) with
      ⟨error, hwrite⟩ | ⟨existing, -, -, hwrite⟩ | ⟨added, hrequests, hadded, -, hwrite⟩
    · rw [hwrite] at h
      exact hearlier h
    · rw [hwrite] at h
      exact hearlier h
    · rw [hwrite] at h
      obtain ⟨kept, hkept, hsub, -⟩ := hadded.applyRetention added
      have hmem := hsub.subset ((hkept.isStored_iff hsha).mp h)
      rw [List.mem_append, List.mem_singleton] at hmem
      rcases hmem with hmem | rfl
      · exact hearlier ((hholds.isStored_iff hsha).mpr hmem)
      · exact ⟨call, by simp, hrequests⟩

/-- The records of an output whose file is among some names. -/
private def Named (records : List ArtifactRecord) (stepId output : String) (names : List String)
    (record : ArtifactRecord) : Prop :=
  record ∈ records ∧ IsOutput stepId output record ∧ fileNameFor record.id ∈ names

/-- The loop returns the best of the identity it starts from and those the names spell. -/
private theorem newest_spec (h : Holds store platform runId records files)
    (stepId output : String) {names : List String}
    (hnames : ∀ name ∈ names, ∃ record ∈ records, fileNameFor record.id = name)
    (best : Option ArtifactIdentity) :
    (∀ record, Named records stepId output names record →
      ∃ identity, newest stepId output best names = some identity ∧
        record.attempt ≤ identity.attempt) ∧
    (∀ other, best = some other →
      ∃ identity, newest stepId output best names = some identity ∧
        other.attempt ≤ identity.attempt) ∧
    (∀ identity, newest stepId output best names = some identity → best = some identity ∨
      ∃ record, Named records stepId output names record ∧ record.identity = identity) := by
  induction names generalizing best with
  | nil =>
    refine ⟨?_, fun other hbest => ⟨other, hbest, Nat.le_refl _⟩, fun identity hbest => .inl hbest⟩
    rintro record ⟨-, -, hname⟩
    cases hname
  | cons name rest ih =>
    obtain ⟨first, hfirst, rfl⟩ := hnames name (by simp)
    have hrest := fun other hother => hnames other (List.mem_cons_of_mem _ hother)
    have hparse := parse_fileName h hfirst
    have hcases : ∀ record, Named records stepId output (fileNameFor first.id :: rest) record →
        (record = first ∧ IsOutput stepId output first) ∨ Named records stepId output rest record := by
      rintro record ⟨hmem, houtput, hname⟩
      rcases List.mem_cons.mp hname with hname | hname
      · have hsame := h.eq_of_id hmem hfirst (fileNameFor_inj hname)
        exact .inl ⟨hsame, hsame ▸ houtput⟩
      · exact .inr ⟨hmem, houtput, hname⟩
    have hlater : ∀ record, Named records stepId output rest record →
        Named records stepId output (fileNameFor first.id :: rest) record :=
      fun record hnamed => ⟨hnamed.1, hnamed.2.1, List.mem_cons_of_mem _ hnamed.2.2⟩
    unfold newest
    rw [hparse]
    simp only
    split
    · next hother =>
      have hnot : ¬ IsOutput stepId output first := fun houtput =>
        hother.elim (fun hne => hne houtput.1) (fun hne => hne houtput.2)
      obtain ⟨hrecords, hbest, hfound⟩ := ih hrest best
      refine ⟨?_, hbest, ?_⟩
      · intro record hnamed
        rcases hcases record hnamed with ⟨-, houtput⟩ | hnamed
        · exact absurd houtput hnot
        · exact hrecords record hnamed
      · intro identity hidentity
        exact (hfound identity hidentity).imp_right fun ⟨record, hnamed, heq⟩ =>
          ⟨record, hlater record hnamed, heq⟩
    · next hsame =>
      have houtput : IsOutput stepId output first := by
        rw [not_or, not_not, not_not] at hsame
        exact hsame
      have hnamedFirst : Named records stepId output (fileNameFor first.id :: rest) first :=
        ⟨hfirst, houtput, by simp⟩
      split
      · next hbetter =>
        obtain ⟨hrecords, hbest, hfound⟩ := ih hrest (some first.identity)
        obtain ⟨last, hlast, hle⟩ := hbest _ rfl
        refine ⟨?_, ?_, ?_⟩
        · intro record hnamed
          rcases hcases record hnamed with ⟨rfl, -⟩ | hnamed
          · exact ⟨last, hlast, hle⟩
          · exact hrecords record hnamed
        · rintro other rfl
          have hlt : other.attempt < first.identity.attempt := by simpa using hbetter
          exact ⟨last, hlast, by omega⟩
        · intro identity hidentity
          rcases hfound identity hidentity with hstart | ⟨record, hnamed, heq⟩
          · exact .inr ⟨first, hnamedFirst, Option.some.inj hstart⟩
          · exact .inr ⟨record, hlater record hnamed, heq⟩
      · next hworse =>
        obtain ⟨other, rfl, hle⟩ : ∃ other, best = some other ∧ first.attempt ≤ other.attempt := by
          cases best with
          | none => simp at hworse
          | some other =>
            rw [Option.all_some, decide_eq_true_eq, Nat.not_lt] at hworse
            exact ⟨other, rfl, hworse⟩
        obtain ⟨hrecords, hbest, hfound⟩ := ih hrest (some other)
        obtain ⟨last, hlast, hotherLe⟩ := hbest other rfl
        refine ⟨?_, hbest, ?_⟩
        · intro record hnamed
          rcases hcases record hnamed with ⟨rfl, -⟩ | hnamed
          · exact ⟨last, hlast, by omega⟩
          · exact hrecords record hnamed
        · intro identity hidentity
          exact (hfound identity hidentity).imp_right fun ⟨record, hnamed, heq⟩ =>
            ⟨record, hlater record hnamed, heq⟩

/-- The newest stored attempt of an output, when there is one. -/
theorem Holds.latest (hsha : ∀ payload, IsSha256Hex (platform.sha256Hex payload))
    (h : Holds store platform runId records files) (hsafe : matchesRunIdPattern runId)
    (stepId output : String) :
    (latest store platform files runId stepId output = .ok none ∧
      ∀ record ∈ records, ¬ IsOutput stepId output record) ∨
    ∃ record ∈ records, IsOutput stepId output record ∧
      latest store platform files runId stepId output = .ok (some record) ∧
      ∀ other ∈ records, IsOutput stepId output other → other.attempt ≤ record.attempt := by
  have hlisted : ∀ record ∈ records,
      fileNameFor record.id ∈ listFileNames platform files := by
    intro record hmem
    rw [h.listFileNames_perm.mem_iff]
    exact List.mem_map.mpr ⟨record, hmem, rfl⟩
  have hnames : ∀ name ∈ listFileNames platform files,
      ∃ record ∈ records, fileNameFor record.id = name := by
    intro name hname
    rw [h.listFileNames_perm.mem_iff] at hname
    exact List.mem_map.mp hname
  obtain ⟨hrecords, -, hfound⟩ := newest_spec h stepId output hnames none
  have hdirectory : runDirectory store runId = .ok s!"{store.directory}/{runId}" := by
    unfold runDirectory
    rw [if_pos hsafe]
  unfold ArtifactStore.latest
  rw [hdirectory]
  cases hnewest : newest stepId output none (listFileNames platform files) with
  | none =>
    refine .inl ⟨rfl, ?_⟩
    intro record hmem houtput
    obtain ⟨identity, hsome, -⟩ := hrecords record ⟨hmem, houtput, hlisted record hmem⟩
    rw [hnewest] at hsome
    cases hsome
  | some identity =>
    rcases hfound identity hnewest with hstart | ⟨record, ⟨hmem, houtput, -⟩, rfl⟩
    · cases hstart
    · refine .inr ⟨record, hmem, houtput, ?_, ?_⟩
      · have hread : ArtifactStore.read store platform files runId record.id = .ok record :=
          (h.isStored_iff hsha).mpr hmem
        show (artifactIdFor record.identity).mapError invalid >>= _ = _
        rw [(h.wellFormed record hmem).id]
        show some <$> ArtifactStore.read store platform files runId record.id = _
        rw [hread]
        rfl
      · intro other hother hotherOutput
        obtain ⟨identity, hsome, hle⟩ :=
          hrecords other ⟨hother, hotherOutput, hlisted other hother⟩
        rw [hnewest] at hsome
        cases hsome
        exact hle

/-- Without retention a stored record stays stored. -/
theorem isStored_later (hsha : ∀ payload, IsSha256Hex (platform.sha256Hex payload))
    (hretained : store.retainedAttemptsPerOutput = none) {calls more : List WriteCall}
    (hrun : ∀ call ∈ calls ++ more, call.request.runId = runId) {record : ArtifactRecord}
    (h : IsStored store platform runId (history store platform calls).files record) :
    IsStored store platform runId (history store platform (calls ++ more)).files record := by
  induction more using List.reverseRecOn with
  | nil => rwa [List.append_nil]
  | append_singleton more call ih =>
    rw [← List.append_assoc] at hrun ⊢
    have hbefore := ih fun other hmem => hrun other (List.mem_append_left _ hmem)
    obtain ⟨records, hholds, -, -⟩ := history_holds hsha (calls ++ more)
      fun other hmem => hrun other (List.mem_append_left _ hmem)
    rw [history_concat, WriteHistory.write]
    rcases hholds.write_cases hsha call.createdAt (hrun call (by simp)) with
      ⟨error, hwrite⟩ | ⟨existing, -, -, hwrite⟩ | ⟨added, -, hadded, -, hwrite⟩
    · rw [hwrite]
      exact hbefore
    · rw [hwrite]
      exact hbefore
    · have hall : applyRetention store platform
          ((history store platform (calls ++ more)).files ++ [fileOf added]) added =
            (history store platform (calls ++ more)).files ++ [fileOf added] := by
        unfold applyRetention
        rw [hretained]
      rw [hwrite]
      show IsStored store platform runId (applyRetention store platform _ added) record
      rw [hall, hadded.isStored_iff hsha]
      exact List.mem_append_left _ ((hholds.isStored_iff hsha).mp hbefore)

/-- What holds of the files of a run after any sequence of writes to it: a failed write changes
nothing; a stored id keeps its content, a rewrite of it returns it or fails, and without retention it
stays; the limits hold; retention keeps exactly the newest attempts of each output among those
written; and the latest record is the one with the largest stored attempt. -/
theorem artifacts_kept (hsha : ∀ payload, IsSha256Hex (platform.sha256Hex payload))
    (calls : List WriteCall) (hrun : ∀ call ∈ calls, call.request.runId = runId) :
    let files := (history store platform calls).files
    (∀ (request : ArtifactWriteRequest) (createdAt : Timestamp) (error : ArtifactStoreError),
      request.runId = runId → (write store platform files request createdAt).1 = .error error →
        (write store platform files request createdAt).2 = files) ∧
    (store.retainedAttemptsPerOutput = none → ∀ more : List WriteCall,
      (∀ call ∈ more, call.request.runId = runId) → ∀ record,
        IsStored store platform runId files record →
        IsStored store platform runId (history store platform (calls ++ more)).files record) ∧
    (∀ record, IsStored store platform runId files record →
      ∀ (request : ArtifactWriteRequest) (createdAt : Timestamp), request.runId = runId →
        request.toArtifactIdentity = record.identity →
        (Requests request record →
          write store platform files request createdAt = (.ok record, files)) ∧
        (¬ Requests request record →
          ∃ error, write store platform files request createdAt = (.error error, files))) ∧
    ((listFileNames platform files).length ≤ store.maxRunArtifacts.val ∧
      storedBytes platform files ≤ store.maxRunBytes.val ∧
      ∀ fileName ∈ listFileNames platform files, ∃ record,
        IsStored store platform runId files record ∧ fileName = fileNameFor record.id) ∧
    (∀ retained, store.retainedAttemptsPerOutput = some retained → ∀ stepId output attempt,
      (∃ record, IsStored store platform runId files record ∧ IsOutput stepId output record ∧
        record.attempt = attempt) ↔
      attempt ∈ largest retained.val
        (attemptsOf (history store platform calls).returned stepId output)) ∧
    (matchesRunIdPattern runId → ∀ stepId output,
      (latest store platform files runId stepId output = .ok none ∧
        ∀ record, IsStored store platform runId files record → ¬ IsOutput stepId output record) ∨
      ∃ record, latest store platform files runId stepId output = .ok (some record) ∧
        IsStored store platform runId files record ∧ IsOutput stepId output record ∧
        ∀ other, IsStored store platform runId files other → IsOutput stepId output other →
          other.attempt ≤ record.attempt) := by
  obtain ⟨records, hholds, hlimits, hattempts⟩ := history_holds hsha calls hrun
  have hstored : ∀ record, IsStored store platform runId (history store platform calls).files record ↔
      record ∈ records := fun record => hholds.isStored_iff hsha
  intro files
  refine ⟨?_, ?_, ?_, ⟨?_, ?_, ?_⟩, ?_, ?_⟩
  · intro request createdAt error hrequest herror
    rcases hholds.write_cases hsha createdAt hrequest with
      ⟨_, hwrite⟩ | ⟨_, _, _, hwrite⟩ | ⟨_, _, _, _, hwrite⟩
    · rw [hwrite]
    · rw [hwrite]
    · rw [hwrite] at herror
      cases herror
  · intro hretained more hmore record hrecord
    apply isStored_later hsha hretained _ hrecord
    intro call hmem
    exact (List.mem_append.mp hmem).elim (hrun call) (hmore call)
  · intro record hrecord request createdAt hrequest hidentity
    exact hholds.write_existing hsha ((hstored record).mp hrecord) createdAt hrequest hidentity
  · rw [hholds.length_listFileNames]
    exact hlimits.count
  · rw [hholds.storedBytes]
    exact hlimits.bytes
  · intro fileName hmem
    rw [hholds.listFileNames_perm.mem_iff] at hmem
    obtain ⟨record, hrecord, rfl⟩ := List.mem_map.mp hmem
    exact ⟨record, (hstored record).mpr hrecord, rfl⟩
  · intro retained hretained stepId output attempt
    have hkept := hattempts stepId output
    simp only [keptAttempts, hretained] at hkept
    rw [← hkept, mem_attemptsOf]
    simp only [hstored, files]
  · intro hsafe stepId output
    simp only [hstored, files]
    rcases hholds.latest hsha hsafe stepId output with hnone | ⟨record, hmem, houtput, hlatest, hmax⟩
    · exact .inl hnone
    · exact .inr ⟨record, hlatest, hmem, houtput, hmax⟩

/-! ### A run that keeps one attempt -/

/-- A platform that hashes the empty text; the listed names are ASCII. -/
def samplePlatform : Platform where
  sha256Hex _ := "e3b0c44298fc1c149afbf4c8996fb92427ae41e4649b934ca495991b7852b855"
  localeCompare left right := left ≤ right
  syntaxErrorMessage _ := "Unexpected end of JSON input"

/-- A store that keeps the newest attempt only. -/
def sampleStore : ArtifactStore :=
  ⟨"/artifacts", ⟨1024, by decide⟩, ⟨8, by decide⟩, ⟨4096, by decide⟩, some ⟨1, by decide⟩⟩

/-- An empty report, as one attempt of a step. -/
def sampleCall (attempt : Nat) : WriteCall :=
  ⟨⟨⟨"plan", "report", attempt⟩, "run-1", .report, "Plan report", .text ""⟩,
    ⟨"2026-01-01T00:00:00.000Z", by decide⟩⟩

/-- The second attempt displaces the first, also when it is written before it. -/
theorem artifacts_kept_sample :
    let files := (history sampleStore samplePlatform [sampleCall 2, sampleCall 1]).files
    (∃ record, IsStored sampleStore samplePlatform "run-1" files record ∧
      IsOutput "plan" "report" record ∧ record.attempt = 2) ∧
    ¬ ∃ record, IsStored sampleStore samplePlatform "run-1" files record ∧
      IsOutput "plan" "report" record ∧ record.attempt = 1 := by
  have hdigest : IsSha256Hex "e3b0c44298fc1c149afbf4c8996fb92427ae41e4649b934ca495991b7852b855" :=
    ⟨by decide, List.all_eq_true.mp (by decide +kernel)⟩
  have hreturned : attemptsOf (history sampleStore samplePlatform [sampleCall 2, sampleCall 1]).returned
      "plan" "report" = {1, 2} := by decide +kernel
  obtain ⟨-, -, -, -, hkept, -⟩ := @artifacts_kept sampleStore samplePlatform "run-1"
    (fun _ => hdigest) [sampleCall 2, sampleCall 1] (by decide)
  have hlargest := hkept ⟨1, by decide⟩ rfl "plan" "report"
  rw [hreturned] at hlargest
  intro files
  rw [hlargest, hlargest]
  decide

end ArtifactStore

end BuildConductor.Storage
