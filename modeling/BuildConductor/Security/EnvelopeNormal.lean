import BuildConductor.Domain.Canonical
import BuildConductor.Security.Envelope

/-!
# Envelopes in normal form

What every accepted envelope satisfies, and that reading the document of such an envelope gives the
envelope back. `src/src/security/envelope.ts:134-640`.
-/

namespace BuildConductor.Security

open Base Domain Domain.Reading

/-- Distinct texts. -/
structure NormalEntries (xs : List String) : Prop where
  text : ∀ x ∈ xs, NormalText x
  nodup : xs.Nodup

private theorem normalEntries_nil : NormalEntries [] := by
  constructor
  · intro x hx
    cases hx
  · exact List.nodup_nil

/-- Distinct paths. -/
def NormalScopePaths (paths : List String) : Prop := (∀ p ∈ paths, NormalPath p) ∧ paths.Nodup

/-- A scope that grants what its paths need and withholds no path whole. -/
structure NormalScope (scope : EnvelopeMutationScope) : Prop where
  ordered : envelopeOrderedCapabilities scope.capabilities = scope.capabilities
  reads : scope.capabilities = [] ∨ .readRepository ∈ scope.capabilities
  allowedPaths : NormalScopePaths scope.allowedPaths
  forbiddenPaths : NormalScopePaths scope.forbiddenPaths
  mutates : StepCapability.mutateRepository ∈ scope.capabilities ↔ scope.allowedPaths ≠ []
  uncancelled : ∀ p ∈ scope.allowedPaths, pathIsAllowed p scope.forbiddenPaths = false

/-- The root of a repository, canonical when a user named it. -/
def NormalRoot (source : EnvelopeSource) (root : String) : Prop :=
  match source with
  | .derived => root ≠ ""
  | .authored => NormalText root ∧ posixIsAbsolute root = true ∧ includes root "\x00" = false ∧
      (dropTrailingSeparators (posixNormalize root) = root ∨
        dropTrailingSeparators (posixNormalize root) = "")

/-- An envelope its reader gives back unchanged. -/
structure NormalEnvelope (source : EnvelopeSource) (envelope : AuthorityEnvelope) : Prop where
  outcome : NormalText envelope.outcome
  acceptanceCriteria : NormalEntries envelope.acceptanceCriteria
  repositories : ∃ repository, envelope.repositories = [repository] ∧
    NormalRoot source repository.root ∧ NormalScope repository.mutation
  forbiddenActions : NormalEntries envelope.forbiddenActions
  required : ∀ c ∈ envelope.validation.required, NormalCommand c
  conditions : envelope.escalation.conditions = EscalationCondition.all
  reservedDecisions : NormalEntries envelope.escalation.reservedDecisions
  completeness : source = .authored →
    (envelope.repositories.any fun repository =>
      StepCapability.mutateRepository ∈ repository.mutation.capabilities) = true →
    envelope.validation.required ≠ []

/-! ## Clean readings -/

private theorem readUniqueStrings_clean {value : Option Json} {path : String} {xs : List String}
    (h : readUniqueStrings value path = ⟨xs, []⟩) : NormalEntries xs := by
  unfold readUniqueStrings at h
  simp only [bind_eq_clean_iff, pure_eq_clean_iff, issueIf_eq_clean_iff, not_not] at h
  obtain ⟨ys, hread, _, hnodup, rfl⟩ := h
  exact ⟨normalTexts_of_read hread, hnodup⟩

private theorem readUniqueStrings_strings {xs : List String} (h : NormalEntries xs) (path : String) :
    readUniqueStrings (some (Json.strings xs)) path = ⟨xs, []⟩ := by
  unfold readUniqueStrings
  simp only [bind_eq_clean_iff, pure_eq_clean_iff, issueIf_eq_clean_iff, not_not]
  exact ⟨xs, readStringArray_strings_iff.mpr h.text, (), h.nodup, rfl⟩

private theorem readScopePaths_clean {value : Option Json} {path : String} {paths : List String}
    (h : readScopePaths value path = ⟨paths, []⟩) : NormalScopePaths paths := by
  unfold readScopePaths at h
  split at h
  · rw [pure_eq_clean_iff] at h
    subst h
    exact ⟨nofun, List.nodup_nil⟩
  · exact readSafeRepositoryPaths_strings_iff.mp (readSafeRepositoryPaths_again h)

private theorem rejectUnknownKeys_clean_iff {fields : List (String × Json)} {allowed : List String}
    {path : String} : rejectUnknownKeys fields allowed path = ⟨(), []⟩ ↔
      ∀ key ∈ fields.map Prod.fst, key ∈ allowed := by
  unfold rejectUnknownKeys
  rw [checkEach_eq_clean_iff, ← forall_getElem?_iff]
  simp only [issueIf_eq_clean_iff, not_not]

@[simp] theorem mem_envelopeOrderedCapabilities {capabilities : List StepCapability}
    {capability : StepCapability} :
    capability ∈ envelopeOrderedCapabilities capabilities ↔ capability ∈ capabilities := by
  unfold envelopeOrderedCapabilities
  cases capability <;> simp [StepCapability.all]

/-- The order depends on the members only. -/
theorem envelopeOrderedCapabilities_congr {capabilities others : List StepCapability}
    (h : ∀ capability, capability ∈ capabilities ↔ capability ∈ others) :
    envelopeOrderedCapabilities capabilities = envelopeOrderedCapabilities others := by
  unfold envelopeOrderedCapabilities
  simp only [h]

theorem envelopeOrderedCapabilities_twice (capabilities : List StepCapability) :
    envelopeOrderedCapabilities (envelopeOrderedCapabilities capabilities) =
      envelopeOrderedCapabilities capabilities :=
  envelopeOrderedCapabilities_congr fun _ => mem_envelopeOrderedCapabilities

theorem nodup_envelopeOrderedCapabilities (capabilities : List StepCapability) :
    (envelopeOrderedCapabilities capabilities).Nodup :=
  List.Nodup.filter _ (by decide)

private theorem readCapabilities_clean {value : Option Json} {path : String}
    {capabilities : List StepCapability}
    (h : readCapabilities value path = ⟨capabilities, []⟩) :
    envelopeOrderedCapabilities capabilities = capabilities ∧
      (capabilities = [] ∨ .readRepository ∈ capabilities) := by
  unfold readCapabilities at h
  split at h
  · rw [pure_eq_clean_iff] at h
    subst h
    decide
  · simp only [bind_eq_clean_iff, pure_eq_clean_iff, issueIf_eq_clean_iff] at h
    obtain ⟨entries, -, -, -, -, hreads, rfl⟩ := h
    rw [not_and, not_not] at hreads
    refine ⟨envelopeOrderedCapabilities_twice _, ?_⟩
    rw [mem_envelopeOrderedCapabilities]
    by_cases hnil : entries.filterMap id = []
    · left
      rw [hnil]
      rfl
    · exact .inr (hreads hnil)
  · simp [bind_eq_clean_iff] at h

private theorem readEach_capabilities (capabilities : List StepCapability) (path : String) :
    readEach (readCapability path) 0 ((capabilities.map (·.name)).map Json.str) =
      ⟨capabilities.map some, []⟩ := by
  rw [readEach_eq_clean_iff]
  refine ⟨by simp, ?_⟩
  intro i entry read hentry hread
  rw [List.getElem?_map, Option.map_eq_some_iff] at hread
  obtain ⟨capability, hcapability, rfl⟩ := hread
  rw [List.getElem?_map, List.getElem?_map, hcapability] at hentry
  cases hentry
  simp only [readCapability, StepCapability.ofName?_name]
  rfl

/-- Listed capabilities are accepted exactly when they are distinct and include reading. -/
private theorem readCapabilities_names_iff {capabilities read : List StepCapability} {path : String} :
    readCapabilities (some (Json.strings (capabilities.map (·.name)))) path = ⟨read, []⟩ ↔
      capabilities.Nodup ∧ (capabilities = [] ∨ .readRepository ∈ capabilities) ∧
        envelopeOrderedCapabilities capabilities = read := by
  unfold readCapabilities Json.strings
  simp only [bind_eq_clean_iff, readEach_capabilities, pure_eq_clean_iff, issueIf_eq_clean_iff,
    not_not, Reading.mk.injEq, and_true, exists_eq_left', List.filterMap_map, Function.comp_def, id,
    List.filterMap_some, exists_const]
  rw [not_and, not_not, or_iff_not_imp_left]

private theorem readCapabilities_names {capabilities : List StepCapability}
    (hordered : envelopeOrderedCapabilities capabilities = capabilities)
    (hreads : capabilities = [] ∨ .readRepository ∈ capabilities) (path : String) :
    readCapabilities (some (Json.strings (capabilities.map (·.name)))) path =
      ⟨capabilities, []⟩ :=
  readCapabilities_names_iff.mpr
    ⟨hordered ▸ nodup_envelopeOrderedCapabilities capabilities, hreads, hordered⟩

/-! ## Scopes and repositories -/

private theorem scopeChecks_clean_iff {path : String} {scope : EnvelopeMutationScope} :
    checkEach (fun index allowed =>
      issueIf (pathIsAllowed allowed scope.forbiddenPaths) "cancelled_path"
        s!"{path}.allowedPaths[{index}]"
        s!"{path}.allowedPaths[{index}] is entirely withheld by forbiddenPaths") 0
        scope.allowedPaths = ⟨(), []⟩ ↔
      ∀ p ∈ scope.allowedPaths, pathIsAllowed p scope.forbiddenPaths = false := by
  rw [checkEach_eq_clean_iff, ← forall_getElem?_iff]
  simp only [issueIf_eq_clean_iff, Bool.not_eq_true]

private theorem mutates_iff {scope : EnvelopeMutationScope} :
    (¬ (StepCapability.mutateRepository ∈ scope.capabilities ∧ scope.allowedPaths = []) ∧
      ¬ (¬ StepCapability.mutateRepository ∈ scope.capabilities ∧ scope.allowedPaths ≠ [])) ↔
    (StepCapability.mutateRepository ∈ scope.capabilities ↔ scope.allowedPaths ≠ []) := by
  tauto

private theorem readMutationScope_fields {fields : List (String × Json)} {path : String}
    {scope : EnvelopeMutationScope}
    (h : readMutationScope (some (.obj fields)) path = ⟨scope, []⟩) : NormalScope scope := by
  unfold readMutationScope at h
  simp only [bind_eq_clean_iff, pure_eq_clean_iff, issueIf_eq_clean_iff] at h
  obtain ⟨_, -, capabilities, hcapabilities, allowed, hallowed, forbidden, hforbidden, _, hmissing,
    _, hunusable, _, hcancelled, rfl⟩ := h
  obtain ⟨hordered, hreads⟩ := readCapabilities_clean hcapabilities
  exact ⟨hordered, hreads, readScopePaths_clean hallowed, readScopePaths_clean hforbidden,
    mutates_iff.mp ⟨hmissing, hunusable⟩, scopeChecks_clean_iff.mp hcancelled⟩

private theorem readMutationScope_clean {value : Option Json} {path : String}
    {scope : EnvelopeMutationScope} (h : readMutationScope value path = ⟨scope, []⟩) :
    NormalScope scope := by
  cases value with
  | none =>
    have habsent : readMutationScope none path = readMutationScope (some (.obj [])) path := rfl
    exact readMutationScope_fields (habsent.symm.trans h)
  | some value =>
    cases value with
    | obj fields => exact readMutationScope_fields h
    | _ => simp [readMutationScope, bind_eq_clean_iff] at h

private theorem readMutationScope_toJson {scope : EnvelopeMutationScope} (h : NormalScope scope)
    (path : String) : readMutationScope (some scope.toJson) path = ⟨scope, []⟩ := by
  unfold readMutationScope EnvelopeMutationScope.toJson
  simp only [bind_eq_clean_iff, pure_eq_clean_iff, issueIf_eq_clean_iff]
  refine ⟨(), rejectUnknownKeys_clean_iff.mpr (by simp), scope.capabilities,
    readCapabilities_names h.ordered h.reads _, scope.allowedPaths,
    readSafeRepositoryPaths_strings_iff.mpr h.allowedPaths, scope.forbiddenPaths,
    readSafeRepositoryPaths_strings_iff.mpr h.forbiddenPaths, (), ?_, (), ?_, (),
    scopeChecks_clean_iff.mpr h.uncancelled, rfl⟩
  · exact (mutates_iff.mpr h.mutates).1
  · exact (mutates_iff.mpr h.mutates).2

private theorem readRepositoryRoot_clean {value : Option Json} {path root : String}
    {source : EnvelopeSource} (h : readRepositoryRoot value path source = ⟨root, []⟩) :
    NormalRoot source root := by
  unfold readRepositoryRoot at h
  cases source with
  | derived =>
    dsimp only at h
    split at h
    · simp only [bind_eq_clean_iff, pure_eq_clean_iff, issueIf_eq_clean_iff] at h
      obtain ⟨_, hne, rfl⟩ := h
      exact hne
    · simp [bind_eq_clean_iff] at h
  | authored =>
    simp only [bind_eq_clean_iff] at h
    obtain ⟨read, hread, h⟩ := h
    have htext := normalText_of_read hread
    rw [if_neg htext.2] at h
    split at h
    · simp [bind_eq_clean_iff] at h
    · next hplain =>
      simp only [bind_eq_clean_iff, pure_eq_clean_iff, issueIf_eq_clean_iff, not_not] at h
      obtain ⟨_, hcanonical, rfl⟩ := h
      rw [not_or, not_not, Bool.not_eq_true] at hplain
      refine ⟨htext, hplain.1, hplain.2, ?_⟩
      by_cases hstripped : dropTrailingSeparators (posixNormalize read) = ""
      · exact .inr hstripped
      · rw [if_neg hstripped] at hcanonical
        exact .inl hcanonical

private theorem readRepositoryRoot_str {source : EnvelopeSource} {root : String}
    (h : NormalRoot source root) (path : String) :
    readRepositoryRoot (some (.str root)) path source = ⟨root, []⟩ := by
  unfold readRepositoryRoot
  cases source with
  | derived =>
    simp only [bind_eq_clean_iff, pure_eq_clean_iff, issueIf_eq_clean_iff]
    exact ⟨(), h, trivial⟩
  | authored =>
    obtain ⟨htext, habsolute, hnul, hcanonical⟩ := h
    have hplain : ¬ (¬ posixIsAbsolute root = true ∨ includes root "\x00" = true) := by
      simp [habsolute, hnul]
    simp only [bind_eq_clean_iff]
    refine ⟨root, readNonEmptyString_str_iff.mpr htext, ?_⟩
    rw [if_neg htext.2, if_neg hplain]
    simp only [bind_eq_clean_iff, pure_eq_clean_iff, issueIf_eq_clean_iff, not_not]
    refine ⟨(), ?_, trivial⟩
    split
    · rfl
    · next hstripped => exact hcanonical.resolve_right hstripped

private theorem readRepository_clean {path : String} {source : EnvelopeSource} {index : Nat}
    {entry : Json} {repository : EnvelopeRepository}
    (h : readRepository path source index entry = ⟨repository, []⟩) :
    NormalRoot source repository.root ∧ NormalScope repository.mutation := by
  unfold readRepository at h
  cases entry with
  | obj fields =>
    simp only [bind_eq_clean_iff, pure_eq_clean_iff] at h
    obtain ⟨_, -, root, hroot, mutation, hmutation, rfl⟩ := h
    exact ⟨readRepositoryRoot_clean hroot, readMutationScope_clean hmutation⟩
  | _ => simp [bind_eq_clean_iff] at h

private theorem readRepository_toJson {source : EnvelopeSource} {repository : EnvelopeRepository}
    (hroot : NormalRoot source repository.root) (hscope : NormalScope repository.mutation)
    (path : String) (index : Nat) :
    readRepository path source index repository.toJson = ⟨repository, []⟩ := by
  unfold readRepository EnvelopeRepository.toJson
  simp only [bind_eq_clean_iff, pure_eq_clean_iff]
  exact ⟨(), rejectUnknownKeys_clean_iff.mpr (by simp), repository.root,
    readRepositoryRoot_str hroot _, repository.mutation, readMutationScope_toJson hscope _, rfl⟩

private theorem readRepositories_clean {value : Option Json} {path : String}
    {source : EnvelopeSource} {repositories : List EnvelopeRepository}
    (h : readRepositories value path source = ⟨repositories, []⟩) :
    ∃ repository, repositories = [repository] ∧ NormalRoot source repository.root ∧
      NormalScope repository.mutation := by
  unfold readRepositories at h
  split at h
  · simp only [bind_eq_clean_iff, pure_eq_clean_iff, issueIf_eq_clean_iff] at h
    obtain ⟨read, hread, _, -, _, hcount, rfl⟩ := h
    have hlength := (readEach_eq_clean_iff.mp hread).1
    rw [List.length_cons] at hlength
    obtain ⟨repository, rfl⟩ := List.length_eq_one_iff.mp (show read.length = 1 by omega)
    obtain ⟨index, entry, -, hentry⟩ := readEach_mem hread (List.mem_singleton_self repository)
    exact ⟨repository, rfl, readRepository_clean hentry⟩
  · simp [bind_eq_clean_iff] at h

private theorem readRepositories_toJson {source : EnvelopeSource} {repository : EnvelopeRepository}
    (hroot : NormalRoot source repository.root) (hscope : NormalScope repository.mutation)
    (path : String) :
    readRepositories (some (.arr [repository.toJson])) path source = ⟨[repository], []⟩ := by
  have hread : readEach (readRepository path source) 0 [repository.toJson] = ⟨[repository], []⟩ := by
    rw [readEach, readRepository_toJson hroot hscope]
    rfl
  unfold readRepositories
  simp only [bind_eq_clean_iff, pure_eq_clean_iff, issueIf_eq_clean_iff]
  exact ⟨[repository], hread, (), by simp, (), by simp, rfl⟩

/-! ## Sandbox, validation and escalation -/

private theorem readSandbox_document (mode : ValidationSandboxMode) (path : String) :
    readSandbox (some (.obj [("workers", .str "worktree-only"),
      ("validation", .str (sandboxModeName mode))])) path = ⟨mode, []⟩ := by
  unfold readSandbox
  simp only [bind_eq_clean_iff]
  refine ⟨(), rejectUnknownKeys_clean_iff.mpr (by simp), (), rfl, ?_⟩
  cases mode <;> rfl

private theorem readRequiredCommands_clean {value : Option Json} {path : String}
    {commands : List ValidationCommand}
    (h : readRequiredCommands value path = ⟨commands, []⟩) : ∀ c ∈ commands, NormalCommand c := by
  unfold readRequiredCommands at h
  split at h
  · rw [pure_eq_clean_iff] at h
    subst h
    exact nofun
  · intro c hc
    obtain ⟨index, item, -, hitem⟩ := readEach_mem h hc
    have hobject : readCommandObject (some item) s!"{path}.required[{index}]" = ⟨c, []⟩ := by
      unfold readRequiredCommand at hitem
      split at hitem
      · rw [bind_eq_clean_iff] at hitem
        obtain ⟨_, -, hitem⟩ := hitem
        exact hitem
      · exact hitem
    exact readCommandObject_toJson_iff.mp (readCommandObject_again hobject)
  · simp [bind_eq_clean_iff] at h

private theorem readRequiredCommands_toJson {commands : List ValidationCommand}
    (h : ∀ c ∈ commands, NormalCommand c) (path : String) :
    readRequiredCommands (some (.arr (commands.map (·.toJson)))) path = ⟨commands, []⟩ := by
  have hread := @readEach_encoded_iff _ _ (readRequiredCommand path) ValidationCommand.toJson
    NormalCommand commands
  refine (hread ?_ 0).mpr h
  intro index c
  unfold readRequiredCommand ValidationCommand.toJson
  simp only [bind_eq_clean_iff]
  constructor
  · rintro ⟨_, -, hc⟩
    exact readCommandObject_toJson_iff.mp hc
  · intro hc
    exact ⟨(), rejectUnknownKeys_clean_iff.mpr (by simp), readCommandObject_toJson_iff.mpr hc⟩

private theorem readValidationExpectations_clean {value : Option Json} {path : String}
    {expectations : EnvelopeValidationExpectations}
    (h : readValidationExpectations value path = ⟨expectations, []⟩) :
    ∀ c ∈ expectations.required, NormalCommand c := by
  unfold readValidationExpectations at h
  split at h
  · simp only [bind_eq_clean_iff, pure_eq_clean_iff] at h
    obtain ⟨_, -, required, hrequired, perChange, -, rfl⟩ := h
    exact readRequiredCommands_clean hrequired
  · simp [bind_eq_clean_iff] at h

private theorem readValidationExpectations_document {expectations : EnvelopeValidationExpectations}
    (h : ∀ c ∈ expectations.required, NormalCommand c) (path : String) :
    readValidationExpectations (some (.obj [
      ("required", .arr (expectations.required.map (·.toJson))),
      ("perChange", .bool expectations.perChange)])) path = ⟨expectations, []⟩ := by
  unfold readValidationExpectations
  simp only [bind_eq_clean_iff, pure_eq_clean_iff]
  exact ⟨(), rejectUnknownKeys_clean_iff.mpr (by simp), expectations.required,
    readRequiredCommands_toJson h path, expectations.perChange, rfl, rfl⟩

private theorem readEscalation_fields {fields : List (String × Json)} {path : String}
    {policy : EnvelopeEscalationPolicy}
    (h : readEscalation (some (.obj fields)) path = ⟨policy, []⟩) :
    policy.conditions = EscalationCondition.all ∧ NormalEntries policy.reservedDecisions := by
  unfold readEscalation at h
  simp only [bind_eq_clean_iff, pure_eq_clean_iff] at h
  obtain ⟨_, -, reserved, hreserved, _, -, rfl⟩ := h
  refine ⟨rfl, ?_⟩
  split at hreserved
  · rw [pure_eq_clean_iff] at hreserved
    subst hreserved
    exact normalEntries_nil
  · exact readUniqueStrings_clean hreserved

private theorem readEscalation_clean {value : Option Json} {path : String}
    {policy : EnvelopeEscalationPolicy} (h : readEscalation value path = ⟨policy, []⟩) :
    policy.conditions = EscalationCondition.all ∧ NormalEntries policy.reservedDecisions := by
  cases value with
  | none =>
    have habsent : readEscalation none path = readEscalation (some (.obj [])) path := rfl
    exact readEscalation_fields (habsent.symm.trans h)
  | some value =>
    cases value with
    | obj fields => exact readEscalation_fields h
    | _ => simp [readEscalation, bind_eq_clean_iff] at h

private theorem readEscalation_document {policy : EnvelopeEscalationPolicy}
    (hconditions : policy.conditions = EscalationCondition.all)
    (hreserved : NormalEntries policy.reservedDecisions) (path : String) :
    readEscalation (some (.obj [
      ("conditions", Json.strings (policy.conditions.map (·.name))),
      ("reservedDecisions", Json.strings policy.reservedDecisions)])) path = ⟨policy, []⟩ := by
  unfold readEscalation
  simp only [bind_eq_clean_iff, pure_eq_clean_iff]
  refine ⟨(), rejectUnknownKeys_clean_iff.mpr (by simp), policy.reservedDecisions,
    readUniqueStrings_strings hreserved _, (), ?_, ?_⟩
  · rw [hconditions]
    rfl
  · rw [← hconditions]

/-! ## Envelopes -/

/-- An envelope that was read is in normal form. -/
theorem normalEnvelope_of_read {fields : List (String × Json)} {source : EnvelopeSource}
    {envelope : AuthorityEnvelope}
    (h : readAuthorityEnvelope fields source = ⟨envelope, []⟩) : NormalEnvelope source envelope := by
  unfold readAuthorityEnvelope at h
  simp only [bind_eq_clean_iff, pure_eq_clean_iff, issueIf_eq_clean_iff] at h
  obtain ⟨_, -, _, -, outcome, houtcome, criteria, hcriteria, repositories, hrepositories, forbidden,
    hforbidden, _, -, sandbox, -, validation, hvalidation, escalation, hescalation, _, hcomplete,
    rfl⟩ := h
  obtain ⟨hconditions, hreserved⟩ := readEscalation_clean hescalation
  refine ⟨normalText_of_read houtcome, readUniqueStrings_clean hcriteria,
    readRepositories_clean hrepositories, ?_, readValidationExpectations_clean hvalidation,
    hconditions, hreserved, ?_⟩
  · split at hforbidden
    · rw [pure_eq_clean_iff] at hforbidden
      subst hforbidden
      exact normalEntries_nil
    · exact readUniqueStrings_clean hforbidden
  · intro hsource hmutates hnone
    exact hcomplete ⟨hsource, hmutates, hnone⟩

/-- What acceptance of a document as an envelope means. -/
theorem normalizeAuthorityEnvelope_ok_iff {value : Json} {source : EnvelopeSource}
    {envelope : AuthorityEnvelope} :
    normalizeAuthorityEnvelope value source = .ok envelope ↔
      ∃ fields, value = .obj fields ∧ readAuthorityEnvelope fields source = ⟨envelope, []⟩ := by
  unfold normalizeAuthorityEnvelope
  cases value with
  | obj fields =>
    simp only [Json.obj.injEq, exists_eq_left']
    cases readAuthorityEnvelope fields source with
    | mk read issues =>
      cases issues with
      | nil => simp
      | cons issue rest => simp
  | _ => simp

/-- The document of a normal envelope reads back as the envelope. -/
theorem normalizeAuthorityEnvelope_toJson {source : EnvelopeSource} {envelope : AuthorityEnvelope}
    (h : NormalEnvelope source envelope) :
    normalizeAuthorityEnvelope envelope.toJson source = .ok envelope := by
  obtain ⟨repository, hrepositories, hroot, hscope⟩ := h.repositories
  have hread : readRepositories (some (.arr (envelope.repositories.map EnvelopeRepository.toJson)))
      "repositories" source = ⟨envelope.repositories, []⟩ := by
    rw [hrepositories]
    exact readRepositories_toJson hroot hscope _
  rw [normalizeAuthorityEnvelope_ok_iff]
  refine ⟨_, rfl, ?_⟩
  unfold readAuthorityEnvelope
  simp only [bind_eq_clean_iff, pure_eq_clean_iff, issueIf_eq_clean_iff]
  refine ⟨(), rejectUnknownKeys_clean_iff.mpr (by simp [envelopeKeys]), (), rfl, envelope.outcome,
    readNonEmptyString_str_iff.mpr h.outcome, envelope.acceptanceCriteria,
    readUniqueStrings_strings h.acceptanceCriteria _, envelope.repositories, hread,
    envelope.forbiddenActions, readUniqueStrings_strings h.forbiddenActions _, (), rfl,
    envelope.sandboxValidation, readSandbox_document _ _, envelope.validation,
    readValidationExpectations_document h.required _, envelope.escalation,
    readEscalation_document h.conditions h.reservedDecisions _, (), ?_, rfl⟩
  rintro ⟨hsource, hmutates, hnone⟩
  exact h.completeness hsource hmutates hnone

/-- An accepted envelope is in normal form. -/
theorem normalEnvelope_of_normalize {value : Json} {source : EnvelopeSource}
    {envelope : AuthorityEnvelope} (h : normalizeAuthorityEnvelope value source = .ok envelope) :
    NormalEnvelope source envelope := by
  obtain ⟨fields, -, hread⟩ := normalizeAuthorityEnvelope_ok_iff.mp h
  exact normalEnvelope_of_read hread

/-- Normalising an accepted envelope again changes nothing. -/
theorem normalizeAuthorityEnvelope_again {value : Json} {source : EnvelopeSource}
    {envelope : AuthorityEnvelope} (h : normalizeAuthorityEnvelope value source = .ok envelope) :
    normalizeAuthorityEnvelope envelope.toJson source = .ok envelope :=
  normalizeAuthorityEnvelope_toJson (normalEnvelope_of_normalize h)

private theorem reads_of_readRepository {path : String} {source : EnvelopeSource} {index : Nat}
    {repository read : EnvelopeRepository}
    (h : readRepository path source index repository.toJson = ⟨read, []⟩) :
    (source = .derived → repository.root ≠ "") ∧ (repository.mutation.capabilities = [] ∨
      .readRepository ∈ repository.mutation.capabilities) := by
  unfold readRepository EnvelopeRepository.toJson at h
  simp only [bind_eq_clean_iff, pure_eq_clean_iff] at h
  obtain ⟨_, -, root, hroot, mutation, hmutation, -⟩ := h
  constructor
  · rintro rfl hempty
    have hblank : ∃ rootPath,
        readRepositoryRoot (some (.str repository.root)) rootPath .derived = ⟨root, []⟩ :=
      ⟨_, hroot⟩
    obtain ⟨rootPath, hblank⟩ := hblank
    unfold readRepositoryRoot at hblank
    simp only [bind_eq_clean_iff, issueIf_eq_clean_iff] at hblank
    obtain ⟨_, hnamed, -⟩ := hblank
    exact hnamed hempty
  have hscope : ∃ mutationPath,
      readMutationScope (some repository.mutation.toJson) mutationPath = ⟨mutation, []⟩ :=
    ⟨_, hmutation⟩
  obtain ⟨mutationPath, hscope⟩ := hscope
  unfold readMutationScope EnvelopeMutationScope.toJson at hscope
  simp only [bind_eq_clean_iff, pure_eq_clean_iff, issueIf_eq_clean_iff] at hscope
  obtain ⟨_, -, capabilities, hcapabilities, -⟩ := hscope
  exact (readCapabilities_names_iff.mp hcapabilities).2.1

/-- An envelope whose document is accepted names its repository, and grants reading where it grants
anything. -/
theorem reads_of_normalize {envelope read : AuthorityEnvelope} {source : EnvelopeSource}
    (h : normalizeAuthorityEnvelope envelope.toJson source = .ok read) :
    ∀ repository ∈ envelope.repositories, (source = .derived → repository.root ≠ "") ∧
      (repository.mutation.capabilities = [] ∨
        .readRepository ∈ repository.mutation.capabilities) := by
  intro repository hmem
  obtain ⟨fields, hfields, hread⟩ := normalizeAuthorityEnvelope_ok_iff.mp h
  cases hfields
  unfold readAuthorityEnvelope at hread
  simp only [bind_eq_clean_iff, pure_eq_clean_iff, issueIf_eq_clean_iff] at hread
  obtain ⟨_, -, _, -, _, -, _, -, repositories, hrepositories, -⟩ := hread
  have hlisted : readRepositories (some (.arr (envelope.repositories.map EnvelopeRepository.toJson)))
      "repositories" source = ⟨repositories, []⟩ := hrepositories
  unfold readRepositories at hlisted
  split at hlisted
  · next first rest hitems =>
    simp only [Option.some.injEq, Json.arr.injEq] at hitems
    simp only [bind_eq_clean_iff, pure_eq_clean_iff, issueIf_eq_clean_iff, ← hitems] at hlisted
    obtain ⟨values, heach, -⟩ := hlisted
    obtain ⟨hlength, hall⟩ := readEach_eq_clean_iff.mp heach
    obtain ⟨i, hi⟩ := List.mem_iff_getElem?.mp hmem
    have hlt : i < values.length := by
      rw [← hlength, List.length_map]
      exact (List.getElem?_eq_some_iff.mp hi).1
    exact reads_of_readRepository
      (hall i repository.toJson values[i] (by rw [List.getElem?_map, hi]; rfl)
        (List.getElem?_eq_getElem hlt))
  · simp [bind_eq_clean_iff] at hlisted

/-- The fields of a document that leaves forbidden actions and escalation to their defaults. -/
def AuthorityEnvelope.derivedFields (envelope : AuthorityEnvelope) : List (String × Json) :=
  [("version", .number 1), ("outcome", .str envelope.outcome),
    ("acceptanceCriteria", Json.strings envelope.acceptanceCriteria),
    ("repositories", .arr (envelope.repositories.map EnvelopeRepository.toJson)),
    ("externalEffects", .str "forbidden"),
    ("sandbox", .obj [("workers", .str "worktree-only"),
      ("validation", .str (sandboxModeName envelope.sandboxValidation))]),
    ("validation", .obj [("required", .arr (envelope.validation.required.map (·.toJson))),
      ("perChange", .bool envelope.validation.perChange)])]

/-- A document that leaves forbidden actions and escalation to their defaults reads like the whole
document of the envelope with these defaults. -/
theorem normalizeAuthorityEnvelope_derivedFields {source : EnvelopeSource}
    {envelope : AuthorityEnvelope} (hforbidden : envelope.forbiddenActions = [])
    (hescalation : envelope.escalation = ⟨EscalationCondition.all, []⟩) :
    normalizeAuthorityEnvelope (.obj envelope.derivedFields) source =
      normalizeAuthorityEnvelope envelope.toJson source := by
  have hreserved : readEscalation (some (.obj [
      ("conditions", Json.strings (EscalationCondition.all.map (·.name))),
      ("reservedDecisions", Json.strings [])])) "escalation" = readEscalation none "escalation" := by
    rw [@readEscalation_document ⟨EscalationCondition.all, []⟩ rfl ⟨nofun, List.nodup_nil⟩]
    rfl
  have hsame : ∀ full, envelope.toJson = .obj full →
      readAuthorityEnvelope envelope.derivedFields source = readAuthorityEnvelope full source := by
    rintro full hfull
    cases hfull
    have hkeys : rejectUnknownKeys envelope.derivedFields envelopeKeys "" = ⟨(), []⟩ :=
      rejectUnknownKeys_clean_iff.mpr (by simp [envelopeKeys, AuthorityEnvelope.derivedFields])
    unfold readAuthorityEnvelope
    rw [hkeys, rejectUnknownKeys_clean_iff.mpr (by simp [envelopeKeys]), hforbidden, hescalation]
    simp only [AuthorityEnvelope.derivedFields, Json.field, List.lookup_cons, List.lookup_nil,
      String.reduceBEq, hreserved]
    rfl
  unfold AuthorityEnvelope.toJson normalizeAuthorityEnvelope
  simp only [hsame _ rfl]

end BuildConductor.Security
