import BuildConductor.Review.ReviewAdoption
import BuildConductor.Steps.ChangeStep

/-!
# The repair step

The findings of a review round, carried to a commit when one of them has to be repaired: the repair
reads them from its inputs, refuses what lies outside its scope, and otherwise makes a change like
any other. `src/src/engine/steps/repair.ts`.
-/

namespace BuildConductor.Steps

open Base Domain Engine Git Inspection Review Security Storage Validation Workflows

/-- `src/src/engine/steps/repair.ts:22-25`. -/
def repairStepOutputs : List String := ["evidence"]

/-- The evidence of a round with nothing to repair. `src/src/engine/steps/repair.ts:161-171`. -/
def idleRepairArtifact (step : StepDefinition) (output : String) : StepArtifactDraft where
  output
  kind := .testEvidence
  title := s!"{step.title} repair evidence"
  payload := .json (some
    { value := .obj [("passed", .bool true), ("repaired", .arr []), ("checks", .arr [])]
      writable := by simp [Json.Writable, Json.WritableFields, Json.WritableItems] })

section Handler

variable (options : ValidatedChangeOptions) (context : ChangeStepContext)
  (execution : ChangeExecution) (store : CommitStore)

/-- What a repair takes on, when it can produce its outputs. `src/src/engine/steps/repair.ts:117-132`. -/
def takenFindings (findings : List ReviewFinding) : Except String (List ReviewFinding) := do
  assertSupportedOutputs context.step repairStepOutputs
  requiredFindings options.localeCompare findings

/-- The repair of some findings. `src/src/engine/steps/repair.ts:107-190`. -/
def repairFindings (findings : List ReviewFinding) : StepEnd :=
  match changeBody? context.step with
  | none =>
    ⟨.failed s!"Repair handler received a {context.step.kind.name} step" none (some false), [], store⟩
  | some body =>
    match takenFindings options context findings with
    | .error error => ⟨.failed error none (some false), [], store⟩
    | .ok required =>
      match repairScopeError body.allowedPaths options.withheldPaths required with
      | some error => ⟨.failed error none (some false), [], store⟩
      | none =>
        if required = [] then
          ⟨.succeeded (some "No review finding required an automatic repair") none none none,
            (context.step.outputs.getD []).map (idleRepairArtifact context.step), store⟩
        else runValidatedChange options context execution store body

/-- The handler. `none` stands for inputs that hold what no review publishes.
`src/src/engine/steps/repair.ts:107-190`. -/
def executeRepair : Option StepEnd :=
  (repairFindings options context execution store) <$> findingsFromInputs context.upstreamArtifacts

end Handler

/-! ## What a repair does with its findings -/

/-- How a repair of some findings ends. -/
structure RepairEnds (options : ValidatedChangeOptions) (context : ChangeStepContext)
    (body : ChangeBody) (findings : List ReviewFinding) (before : CommitStore) (ended : StepEnd) :
    Prop where
  moves : MovesInScope options context body before ended.store
  /-- Too many findings, or one it may not touch: it refuses before its worker starts. -/
  refused :
    maxRepairFindings < (repairable findings).length ∨
      (∃ finding ∈ repairable findings, ∃ path ∈ finding.paths, ¬ Approves options body path) →
      ended.store = before ∧ ∃ error, ended.outcome = .failed error none (some false)
  /-- Nothing to repair: the repository stays as it is. -/
  idle : repairable findings = [] → ended.store = before
  /-- A success without a commit had nothing to repair, and one with a commit was validated. -/
  succeeded : ∀ summary workerId commit evidence,
    ended.outcome = .succeeded summary workerId commit evidence →
      ended.drafts.map (·.output) = context.step.outputs.getD [] ∧
      (commit = none ↔ repairable findings = []) ∧
      ∀ hash, commit = some hash → ∃ checked, evidence = some checked ∧
        CommitsValidated options context body before ended.store hash checked

section Repair

variable {options : ValidatedChangeOptions} {context : ChangeStepContext} {body : ChangeBody}

private theorem repairScopeError_none_iff {required : List ReviewFinding} :
    repairScopeError body.allowedPaths options.withheldPaths required = none ↔
      ∀ finding ∈ required, ∀ path ∈ finding.paths, Approves options body path := by
  unfold repairScopeError
  dsimp only
  split
  · next hscope =>
    rw [List.filter_eq_nil_iff] at hscope
    refine iff_of_true rfl fun finding hfinding path hpath => ?_
    have hinside := hscope finding hfinding
    unfold isOutOfScope at hinside
    rw [Bool.not_eq_true, List.any_eq_false] at hinside
    have happroved := hinside path hpath
    rw [Bool.not_eq_true, Bool.or_eq_false_iff, Bool.not_eq_false'] at happroved
    exact happroved
  · next hscope =>
    refine iff_of_false (by simp) fun happroved => hscope ?_
    rw [List.filter_eq_nil_iff]
    intro finding hfinding
    unfold isOutOfScope
    rw [Bool.not_eq_true, List.any_eq_false]
    intro path hpath
    obtain ⟨hallowed, hkept⟩ := happroved finding hfinding path hpath
    rw [hallowed, hkept]
    decide

/-- The status a policy gives leaves the paths of a finding. -/
private theorem forall_required_paths {findings required : List ReviewFinding}
    (h : required.Perm ((repairable findings).map withPolicyStatus)) :
    (∀ finding ∈ required, ∀ path ∈ finding.paths, Approves options body path) ↔
      ∀ finding ∈ repairable findings, ∀ path ∈ finding.paths, Approves options body path := by
  constructor
  · intro hrequired finding hfinding
    exact hrequired (withPolicyStatus finding) (h.mem_iff.mpr (List.mem_map_of_mem hfinding))
  · intro hfindings finding hfinding
    obtain ⟨found, hfound, rfl⟩ := List.mem_map.mp (h.mem_iff.mp hfinding)
    exact hfindings found hfound

private theorem required_eq_nil_iff {findings required : List ReviewFinding}
    (h : required.Perm ((repairable findings).map withPolicyStatus)) :
    required = [] ↔ repairable findings = [] := by
  rw [← List.length_eq_zero_iff, h.length_eq, List.length_map, List.length_eq_zero_iff]

private theorem repairEnds_failed (findings : List ReviewFinding) (before : CommitStore)
    (error : String) :
    RepairEnds options context body findings before
      ⟨.failed error none (some false), [], before⟩ where
  moves := Or.inl rfl
  refused _ := ⟨rfl, error, rfl⟩
  idle _ := rfl
  succeeded := nofun

/-- Whatever its worker does, a repair ends as its findings allow. -/
theorem repairFindings_ends (execution : ChangeExecution) (before : CommitStore)
    (findings : List ReviewFinding) (hbody : changeBody? context.step = some body) :
    RepairEnds options context body findings before
      (repairFindings options context execution before findings) := by
  unfold repairFindings
  simp only [hbody]
  split
  · exact repairEnds_failed findings before _
  next required htaken =>
  unfold takenFindings at htaken
  rw [seq_ok_iff] at htaken
  obtain ⟨hperm, hcount⟩ := requiredFindings_ok htaken.2
  split
  · exact repairEnds_failed findings before _
  next hscope =>
  rw [repairScopeError_none_iff, forall_required_paths hperm] at hscope
  rw [hperm.length_eq, List.length_map] at hcount
  have hunrefused : ¬ (maxRepairFindings < (repairable findings).length ∨
      ∃ finding ∈ repairable findings, ∃ path ∈ finding.paths, ¬ Approves options body path) := by
    rintro (hmany | ⟨finding, hfinding, path, hpath, hbad⟩)
    · omega
    · exact hbad (hscope finding hfinding path hpath)
  by_cases hnone : required = []
  · rw [if_pos hnone]
    refine ⟨Or.inl rfl, fun hrefused => absurd hrefused hunrefused, fun _ => rfl, ?_⟩
    intro summary workerId commit evidence hsucceeded
    cases hsucceeded
    refine ⟨?_, iff_of_true rfl ((required_eq_nil_iff hperm).mp hnone), nofun⟩
    dsimp only
    rw [List.map_map]
    exact (List.map_congr_left fun _ _ => rfl).trans (List.map_id _)
  · rw [if_neg hnone]
    have hsome : repairable findings ≠ [] := fun h => hnone ((required_eq_nil_iff hperm).mpr h)
    refine ⟨runValidatedChange_moves, fun hrefused => absurd hrefused hunrefused,
      fun h => absurd h hsome, ?_⟩
    intro summary workerId commit evidence hsucceeded
    obtain ⟨output, hash, checked, -, rfl, rfl, hcommits, hdrafts⟩ :=
      runValidatedChange_commits hsucceeded
    refine ⟨hdrafts, iff_of_false (by simp) hsome, ?_⟩
    intro other hother
    cases hother
    exact ⟨checked, rfl, hcommits⟩

end Repair

example : (repairFindings editOptions
    { editContext with step := { editContext.step with outputs := some ["evidence"] } }
    (editExecution "src/a") editRepository
    [⟨"review-1-tests-001", .tests, .high, .low, "t", "d", ["src/b"], "r", .deferred, none⟩]).outcome =
      .failed "Important findings require changes outside approved paths: review-1-tests-001" none
        (some false) := by
  decide +kernel

/-! ## The repairs of a change run -/

/-- Every repair of a run, launched after some of the writes: it finds one report for each category
of its round, and ends as their findings allow. -/
def RepairsFollowReports (store : ArtifactStore) (storage : Platform) (platform : ReportPlatform)
    (run : WorkflowRunState) (calls : List ArtifactStore.WriteCall) : Prop :=
  ∀ round ∈ List.range' 1 changeWorkflowRepairRounds, ∀ (options : ValidatedChangeOptions)
    (context : ChangeStepContext) (execution : ChangeExecution) (before : CommitStore),
    context.step ∈ run.plan.steps → context.step.id = repairStepId round →
    LaunchedAfter store storage run calls context.step context.upstreamArtifacts →
      ∃ body reports ended, changeBody? context.step = some body ∧
        List.Forall₂ (Reported platform) ReviewCategory.all reports ∧
        executeRepair options context execution before = some ended ∧
        RepairEnds options context body (reportedFindings round ReviewCategory.all reports) before
          ended

end BuildConductor.Steps
