import BuildConductor.Review.ReviewAdoption
import BuildConductor.Storage.StoredRun

/-!
# The reviews of merge-ready evidence

Finalization copies the summaries and the open findings out of stored payloads it never types. Behind
a change run they are those of reports, so the store reads a summary for every category and deferred
findings in the order of their ids. `src/src/engine/finalization.ts:111-203`,
`src/src/storage/run-store.ts:1294-1335`.
-/

namespace BuildConductor.Review

open Base Domain Engine Inspection Lifecycle Security Storage Workflows

/-- The summary the store reads. -/
def readSummary (summary : ReviewSummary) : Option FinalReviewSummary :=
  (summary.summary >>= textValue).map fun text => ⟨summary.category, text⟩

/-- The reviews the store accepts. -/
structure AcceptableReviews (localeCompare : RunStore.LocaleOrder) (reviews : List FinalReviewSummary)
    (risks : List ReviewFinding) : Prop where
  categories : reviews.map (·.category) = ReviewCategory.all
  summaries : ∀ review ∈ reviews, review.summary ≠ ""
  deferred : ∀ risk ∈ risks, risk.status = .deferred ∧ risk.id ≠ ""
  sorted : (risks.map (·.id)).Pairwise fun left right => localeCompare left right = true

/-! ## Reports -/

private theorem requiredString_nonempty {value : Option Json} {path text : String} {maximum : Nat}
    (h : requiredString value path maximum = .ok text) : text ≠ "" := by
  unfold requiredString at h
  split at h
  · next found =>
    split at h
    · cases h
    · next hnonempty =>
      split at h
      · cases h
      · cases h
        exact hnonempty
  · cases h

/-- A report has a summary. -/
theorem parseReviewReport_summary {platform : ReportPlatform} {output : Option String}
    {category : ReviewCategory} {baseCommit : String} {report : ParsedReviewReport}
    (h : parseReviewReport platform output category baseCommit = .ok report) :
    report.summary ≠ "" := by
  unfold parseReviewReport at h
  simp only [bind_ok_iff] at h
  obtain ⟨text, -, payload, -, h⟩ := h
  split at h
  · cases h
  · next value hvalue =>
    unfold readReport at h
    split at h
    · simp only [bind_ok_iff] at h
      obtain ⟨-, -, -, -, -, -, summary, hsummary, h⟩ := h
      split at h
      · rw [seq_ok_iff, bind_ok_iff] at h
        obtain ⟨-, findings, -, h⟩ := h
        cases h
        exact requiredString_nonempty hsummary
      · cases h
    · cases h

theorem reviewFindingId_nonempty (round : Nat) (category : ReviewCategory) (index : Nat) :
    reviewFindingId round category index ≠ "" := by
  intro h
  have hlength := congrArg String.length h
  unfold reviewFindingId at hlength
  simp at hlength

theorem materialized_deferred {report : ParsedReviewReport} {category : ReviewCategory} {round : Nat} :
    ∀ finding ∈ materializeReviewFindings report category round,
      finding.status = .deferred ∧ finding.id ≠ "" := by
  unfold materializeReviewFindings
  rw [List.forall_mem_map]
  intro entry _
  exact ⟨rfl, reviewFindingId_nonempty round category entry.2⟩

private theorem property_findingJson {finding : ReviewFinding} {name : String} {value : Json}
    (h : (findingProperties finding).lookup name = some (some value)) :
    (findingJson finding).property name = .ok (some value) := by
  have hnodup : ((findingProperties finding).map Prod.fst).Nodup := by
    unfold findingProperties
    simp
  unfold findingJson Json.property
  dsimp only
  rw [Json.field_definedFields hnodup, h]
  rfl

/-- A finding is sorted by its id. -/
theorem riskId_findingJson (finding : ReviewFinding) :
    riskId (findingJson finding) = .ok finding.id := by
  unfold riskId
  rw [property_findingJson (show (findingProperties finding).lookup "id" = _ from rfl)]
  rfl

/-- A deferred finding stays open. -/
private theorem isOpenFinding_deferred {finding : ReviewFinding} (h : finding.status = .deferred) :
    isOpenFinding (findingJson finding) = .ok true := by
  have hstatus : (findingProperties finding).lookup "status" = some (some (.str "deferred")) := by
    unfold findingProperties
    rw [h]
    rfl
  unfold isOpenFinding
  rw [property_findingJson hstatus]
  rfl

private theorem filterM_all {α : Type} {keeps : α → Except String Bool} {items : List α}
    (h : ∀ item ∈ items, keeps item = .ok true) : items.filterM keeps = .ok items := by
  have haux : ∀ (items kept : List α), (∀ item ∈ items, keeps item = .ok true) →
      List.filterAuxM keeps items kept = .ok (items.reverse ++ kept) := by
    intro items
    induction items with
    | nil =>
      intro kept _
      rfl
    | cons item rest ih =>
      intro kept hall
      rw [List.forall_mem_cons] at hall
      rw [List.filterAuxM, hall.1]
      show List.filterAuxM keeps rest (item :: kept) = _
      rw [ih _ hall.2, List.reverse_cons, List.append_assoc, List.singleton_append]
  unfold List.filterM
  rw [haux items [] h, List.append_nil]
  show Except.ok items.reverse.reverse = _
  rw [List.reverse_reverse]

/-- Every finding of a report is open. -/
private theorem openFindings_reportPayload {category : ReviewCategory} {round : Nat}
    {baseCommit : String} {report : ParsedReviewReport} :
    openFindings (reportPayload category round baseCommit report).value =
      .ok ((materializeReviewFindings report category round).map findingJson) := by
  apply filterM_all
  rw [List.forall_mem_map]
  intro finding hfinding
  exact isOpenFinding_deferred (materialized_deferred finding hfinding).1

/-! ## Sorted risks -/

/-- The ids of sorted findings are in the order of the locale. -/
theorem sortRisks_sorted {localeCompare : String → String → Bool}
    (htrans : ∀ a b c, localeCompare a b = true → localeCompare b c = true → localeCompare a c = true)
    (htotal : ∀ a b, (localeCompare a b || localeCompare b a) = true) {risks : List Json}
    {findings : List ReviewFinding}
    (h : sortRisks localeCompare risks = .ok (findings.map findingJson)) :
    (findings.map (·.id)).Pairwise fun left right => localeCompare left right = true := by
  unfold sortRisks at h
  split at h
  · next hshort =>
    have hlength := congrArg List.length (Except.ok.inj h)
    rw [List.length_map] at hlength
    have hfindings : findings.length ≤ 1 := by omega
    match findings, hfindings with
    | [], _ => exact .nil
    | [finding], _ => exact List.pairwise_singleton ..
  · rw [bind_ok_iff] at h
    obtain ⟨named, hnamed, hsorted⟩ := h
    have hsorted := Except.ok.inj hsorted
    have hids : ∀ entry ∈ named, riskId entry.2 = .ok entry.1 := by
      rw [mapM_ok_iff] at hnamed
      intro entry hentry
      obtain ⟨risk, -, hrisk⟩ := exists_left_of_forall₂ hnamed hentry
      rw [map_ok_iff] at hrisk
      obtain ⟨id, hid, rfl⟩ := hrisk
      exact hid
    have hnames : (named.mergeSort fun left right => localeCompare left.1 right.1).map Prod.fst =
        findings.map (·.id) := by
      have hread := congrArg (List.map riskId) hsorted
      rw [List.map_map, List.map_map] at hread
      have hleft : (named.mergeSort fun left right => localeCompare left.1 right.1).map
          (riskId ∘ Prod.snd) = ((named.mergeSort fun left right =>
            localeCompare left.1 right.1).map Prod.fst).map Except.ok := by
        rw [List.map_map]
        apply List.map_congr_left
        intro entry hentry
        exact hids entry ((List.mergeSort_perm named _).mem_iff.mp hentry)
      have hright : findings.map (riskId ∘ findingJson) = (findings.map (·.id)).map Except.ok := by
        rw [List.map_map]
        exact List.map_congr_left fun finding _ => riskId_findingJson finding
      rw [hleft, hright] at hread
      exact List.map_injective_iff.mpr (fun _ _ => Except.ok.inj) hread
    rw [← hnames, List.pairwise_map]
    exact List.pairwise_mergeSort (fun a b c => htrans a.1 b.1 c.1) (fun a b => htotal a.1 b.1) named

/-! ## The reviews behind a change run -/

section Reviews

variable {store : ArtifactStore} {storage : Platform} {platform : ReportPlatform}
  {built : WorkflowPlan} {run : WorkflowRunState} {calls : List ArtifactStore.WriteCall}

/-- The reviews of a run whose plan did not grow are the generated ones. -/
theorem ChangeRun.reviewOutput (h : ChangeRun built run) (hplan : run.plan = built)
    {output : String × String} (houtput : output ∈ reviewOutputs run) :
    ∃ round ∈ List.range' 1 rounds, ∃ category,
      output = (reviewStepId round category, reviewFindingsOutput) := by
  unfold reviewOutputs reviewSteps at houtput
  rw [List.mem_flatMap] at houtput
  obtain ⟨step, hstep, houtput⟩ := houtput
  rw [List.mem_filterMap] at hstep
  obtain ⟨stepId, -, hstep⟩ := hstep
  rw [Option.bind_eq_some_iff] at hstep
  obtain ⟨record, hrecord, hstep⟩ := hstep
  obtain ⟨hplanned, hid⟩ := h.kept.planned stepId record hrecord
  by_cases hprofile : stepProfileName record.definition = .review
  · rw [if_pos hprofile, Option.some.injEq] at hstep
    rw [← hstep] at houtput
    obtain ⟨document, hbuilt⟩ := h.document
    obtain ⟨legacy, -, -, rfl⟩ := buildChangeWorkflowPlan_ok_iff.mp hbuilt
    rw [hplan, mem_changeWorkflow_iff, mem_generatedSteps_iff] at hplanned
    rcases hplanned with
      ⟨task, -, hdefinition⟩ | ⟨round, hround, category, hdefinition⟩ | ⟨round, -, hdefinition⟩
    · rw [hdefinition] at hprofile
      cases hprofile
    · refine ⟨round, hround, category, ?_⟩
      rw [hdefinition] at houtput hid
      rw [← hid] at houtput
      exact List.mem_singleton.mp houtput
    · rw [hdefinition] at hprofile
      cases hprofile
  · rw [if_neg hprofile] at hstep
    cases hstep

/-- What the finalization of a change run reads is the report of some reviewer. -/
def ReadsReport (platform : ReportPlatform) (payload : Json) : Prop :=
  ∃ round category output baseCommit report,
    parseReviewReport platform output category baseCommit = .ok report ∧
      payload = (reportPayload category round baseCommit report).value

private theorem storedPayload_report (hsha : ∀ payload, IsSha256Hex (storage.sha256Hex payload))
    (hrun : ChangeRun built run) (hcalls : RoutedHistory store storage platform run calls)
    {round : Nat} (hround : round ∈ List.range' 1 rounds) {category : ReviewCategory} {payload : Json}
    (h : StoredPayload (some (artifactReader store storage (store.history storage calls).files)) run
      (reviewStepId round category, reviewFindingsOutput) payload) :
    ∃ output baseCommit report,
      parseReviewReport platform output category baseCommit = .ok report ∧
        payload = (reportPayload category round baseCommit report).value := by
  obtain ⟨reader, hreader, artifact, hanswer, hpayload⟩ := h
  cases hreader
  obtain ⟨hid, call, hcall, hrequests⟩ := artifactReader_requested hsha hcalls.runId hanswer
  have hcallId : call.request.stepId = reviewStepId round category := by
    have hidentity := congrArg ArtifactIdentity.stepId hrequests.identity
    rw [← hidentity]
    exact hid
  obtain ⟨-, output, baseCommit, report, hreport, hread⟩ :=
    (hcalls.reviews hsha hrun call hcall round hround category hcallId).payload hrequests
  rw [hpayload, Option.some.injEq] at hread
  exact ⟨output, baseCommit, report, hreport, hread⟩

private theorem name_injective : Function.Injective ReviewCategory.name := by
  intro left right h
  cases left <;> cases right <;> first | rfl | exact absurd h (by decide)

/-- The newest review of a category at a commit is a report on it. -/
private theorem newestReview_report {integrationHead : String} {payloads : List Json}
    (hpayloads : ∀ payload ∈ payloads, ReadsReport platform payload) {category : ReviewCategory}
    {payload : Json} (h : newestReview integrationHead payloads category = some payload) :
    ∃ round output report,
      parseReviewReport platform output category integrationHead = .ok report ∧
        payload = (reportPayload category round integrationHead report).value := by
  have hmem := List.mem_of_getLast? h
  rw [List.mem_filter, reviewsAt_iff] at hmem
  obtain ⟨hmem, hcommit, hcategory⟩ := hmem
  obtain ⟨round, other, output, baseCommit, report, hreport, rfl⟩ := hpayloads payload hmem
  have hbase : baseCommit = integrationHead :=
    Json.str.inj (Option.some.inj (Except.ok.inj hcommit))
  have hname : other = category :=
    name_injective (Json.str.inj (Option.some.inj (Except.ok.inj hcategory)))
  rw [hbase, hname] at hreport
  rw [hbase, hname]
  exact ⟨round, output, report, hreport, rfl⟩

private theorem exists_map {α β : Type} {f : α → β} {P : α → Prop} {items : List β}
    (h : ∀ item ∈ items, ∃ value, item = f value ∧ P value) :
    ∃ values : List α, items = values.map f ∧ ∀ value ∈ values, P value := by
  induction items with
  | nil => exact ⟨[], rfl, nofun⟩
  | cons item rest ih =>
    rw [List.forall_mem_cons] at h
    obtain ⟨value, rfl, hvalue⟩ := h.1
    obtain ⟨values, rfl, hvalues⟩ := ih h.2
    exact ⟨value :: values, rfl, List.forall_mem_cons.mpr ⟨hvalue, hvalues⟩⟩

private theorem mapM_readSummary (reviews : List FinalReviewSummary) :
    (reviews.map fun review => ReviewSummary.mk review.category (some (.str review.summary))).mapM
      readSummary = some reviews := by
  induction reviews with
  | nil => rfl
  | cons review rest ih =>
    rw [List.map_cons, List.mapM_cons, ih]
    rfl

/-- The evidence of a change run holds reviews the store accepts. -/
theorem RoutedHistory.evidenceReviews
    (hsha : ∀ payload, IsSha256Hex (storage.sha256Hex payload)) (hrun : ChangeRun built run)
    (hplan : run.plan = built) (hcalls : RoutedHistory store storage platform run calls)
    {dependencies : WorkflowFinalizationDependencies}
    (htrans : ∀ a b c, dependencies.localeCompare a b = true →
      dependencies.localeCompare b c = true → dependencies.localeCompare a c = true)
    (htotal : ∀ a b, (dependencies.localeCompare a b || dependencies.localeCompare b a) = true)
    (hreader : dependencies.artifacts =
      some (artifactReader store storage (store.history storage calls).files))
    {outcomes : ReviewOutcomes}
    (h : reviewOutcomes dependencies.syntaxMessage dependencies.localeCompare dependencies.artifacts
      run = .ok outcomes) (hgap : outcomes.gap = none) :
    ∃ reviews risks, outcomes.summaries.mapM readSummary = some reviews ∧
      outcomes.risks.mapM findingOf = some risks ∧
      AcceptableReviews dependencies.localeCompare reviews risks := by
  obtain ⟨payloads, hreviews, hsummarizes⟩ := reviewOutcomes_ok h hgap
  obtain ⟨unsorted, hsorted⟩ := reviewOutcomes_sorted h
  have hstored := hreviews.stored
  rw [hreader] at hstored
  have hpayloads : ∀ payload ∈ payloads, ReadsReport platform payload := by
    intro payload hpayload
    obtain ⟨output, houtput, hread⟩ := exists_left_of_forall₂ hstored hpayload
    obtain ⟨round, hround, category, rfl⟩ := hrun.reviewOutput hplan houtput
    obtain ⟨text, baseCommit, report, hreport, heq⟩ := storedPayload_report hsha hrun hcalls hround hread
    exact ⟨round, category, text, baseCommit, report, hreport, heq⟩
  have hcovered : ∀ category, (newestReview run.integrationHead payloads category).isSome = true := by
    intro category
    obtain ⟨step, -, -, hparsed, houtput⟩ := hrun.reviews category
    obtain ⟨payload, hmem, hread⟩ := exists_right_of_forall₂ hstored houtput
    obtain ⟨round, hround, named, hid⟩ := hrun.reviewOutput hplan houtput
    rw [hid] at hread
    rw [(Prod.mk.inj hid).1, parseReviewStepId_reviewStepId hround] at hparsed
    obtain ⟨text, baseCommit, report, hreport, heq⟩ := storedPayload_report hsha hrun hcalls hround hread
    obtain ⟨current, hcurrent, hcommit, hsame⟩ := hreviews.covered payload hmem
    have hcategory : current.property "category" = .ok (some (.str category.name)) := by
      rw [hsame, heq, (Prod.mk.inj (Except.ok.inj hparsed)).2]
      rfl
    unfold newestReview
    rw [List.getLast?_isSome]
    apply List.ne_nil_of_mem
    rw [List.mem_filter, reviewsAt_iff]
    exact ⟨hcurrent, hcommit, hcategory⟩
  have hcategories : outcomes.summaries.map (·.category) = ReviewCategory.all := by
    rw [hsummarizes.categories, List.filter_eq_self]
    exact fun category _ => hcovered category
  obtain ⟨reviews, hsummaries, hnonempty⟩ : ∃ reviews : List FinalReviewSummary,
      outcomes.summaries = reviews.map (fun review => ⟨review.category, some (.str review.summary)⟩) ∧
        ∀ review ∈ reviews, review.summary ≠ "" := by
    apply exists_map
    intro summary hsummary
    obtain ⟨payload, hpayload, hread⟩ := hsummarizes.summaries summary hsummary
    obtain ⟨round, text, report, hreport, rfl⟩ := newestReview_report hpayloads hpayload
    refine ⟨⟨summary.category, report.summary⟩, ?_, parseReviewReport_summary hreport⟩
    have hfound : summary.summary = some (.str report.summary) := (Except.ok.inj hread).symm
    rw [← hfound]
  obtain ⟨risks, hrisks, hdeferred⟩ : ∃ risks : List ReviewFinding,
      outcomes.risks = risks.map findingJson ∧ ∀ risk ∈ risks, risk.status = .deferred ∧ risk.id ≠ "" := by
    apply exists_map
    intro risk hrisk
    obtain ⟨category, payload, findings, hpayload, hopen, hmem⟩ := (hsummarizes.risks risk).mp hrisk
    obtain ⟨round, text, report, -, rfl⟩ := newestReview_report hpayloads hpayload
    rw [openFindings_reportPayload] at hopen
    rw [← Except.ok.inj hopen, List.mem_map] at hmem
    obtain ⟨finding, hfinding, rfl⟩ := hmem
    exact ⟨finding, rfl, materialized_deferred finding hfinding⟩
  refine ⟨reviews, risks, ?_, ?_, ?_, hnonempty, hdeferred, ?_⟩
  · rw [hsummaries, mapM_readSummary]
  · rw [hrisks, mapM_findingOf]
  · rw [hsummaries, List.map_map] at hcategories
    exact hcategories
  · rw [hrisks] at hsorted
    exact sortRisks_sorted htrans htotal hsorted

end Reviews

end BuildConductor.Review
