import BuildConductor.Domain.PlanSpelling
import BuildConductor.Inspection.RunView
import BuildConductor.Storage.Preservation
import BuildConductor.Storage.ArtifactNames
import Mathlib.Data.List.TakeWhile

/-!
# Views of engine runs

A run the engine executes is viewed through its snapshot: one unit for every step its plan orders
and one attempt for every attempt. The round and category of a review are read from the id of its
step. `src/src/inspection/run-view.ts:146-399`, `src/src/engine/steps/review.ts:67-87`.
-/

namespace BuildConductor.Inspection

open Base Domain Engine Workflows Storage

/-! ## Reviews and repairs by name -/

/-- What `^review-([1-9][0-9]*)-([a-z]+)$` captures: the digits and the letters.
`src/src/engine/steps/review.ts:79`. -/
def matchReviewStepId (stepId : String) : Option (List Char × List Char) :=
  match stepId.toList.dropPrefix? "review-".toList with
  | none => none
  | some rest =>
    let digits := rest.takeWhile Char.isDigit
    match rest.dropWhile Char.isDigit with
    | '-' :: letters =>
      if digits ≠ [] ∧ digits.head? ≠ some '0' ∧ letters ≠ [] ∧ letters.all Char.isLower then
        some (digits, letters)
      else none
    | _ => none

/-- The names of the review categories, as a message lists them. -/
def reviewCategoryNames : String := joinNames (ReviewCategory.all.map ReviewCategory.name)

/-- Rounds are exact naturals. `src/src/engine/steps/review.ts:78-87`. -/
def parseReviewStepId (stepId : String) : Except String (Nat × ReviewCategory) :=
  let named := matchReviewStepId stepId
  let category := ReviewCategory.all.find? fun known =>
    some known.name.toList = named.map Prod.snd
  match named, category with
  | some (digits, _), some category => .ok (Nat.ofDigitChars 10 digits 0, category)
  | _, _ => .error (s!"Review step {stepId} must be named review-<round>-<category>, " ++
      s!"with a category of {reviewCategoryNames}")

/-- `Number.parseInt(stepId.slice("repair-".length), 10)`. A text that starts with no digit names no
round. `src/src/inspection/run-view.ts:243-245`. -/
def repairRoundOf (stepId : String) : Option Nat :=
  let digits := (stepId.toList.drop "repair-".length).takeWhile Char.isDigit
  if digits = [] then none else some (Nat.ofDigitChars 10 digits 0)

/-! ## Units and attempts -/

/-- The unit state a step state is shown as. -/
def stepTaskState : StepRunState → TaskState
  | .planned => .planned
  | .ready => .ready
  | .running => .running
  | .succeeded => .succeeded
  | .failed => .failed
  | .blocked => .blocked
  | .cancelled => .cancelled

/-- `src/src/inspection/run-view.ts:170-176`. -/
def unitRole (definition : StepDefinition) : RunUnitRole :=
  match stepProfileName definition with
  | .review => .review
  | .repair => .repair
  | _ =>
    match definition.kind with
    | .investigation => .investigation
    | .change => .change
    | .command => .command
    | .approval => .approval

/-- `src/src/review/review-policy.ts:23-29`. -/
def requiresAutomaticRepair (finding : ReviewFinding) : Bool :=
  finding.severity = .critical || finding.severity = .high ||
    (finding.severity = .medium && finding.confidence = .high)

/-- `src/src/inspection/run-view.ts:197-218`. -/
def findingsWithStatus (payload : Option (List ReviewFinding)) (repairAttemptId : Option String) :
    List ReviewFinding :=
  (payload.getD []).map fun finding =>
    if requiresAutomaticRepair finding then
      match present repairAttemptId with
      | some attemptId => { finding with status := .repaired, repairAttemptId := some attemptId }
      | none => { finding with status := .repairRequired }
    else { finding with status := .deferred }

/-- The round and category of a review unit. `src/src/inspection/run-view.ts:242`. -/
def unitReview (stepId : String) (definition : StepDefinition) :
    Except String (Option (Nat × ReviewCategory)) :=
  if unitRole definition = .review then some <$> parseReviewStepId stepId else pure none

/-- `src/src/inspection/run-view.ts:220-247`. -/
def engineUnit (stepId : String) (record : WorkflowStepRecord) : Except String RunUnitView := do
  let role := unitRole record.definition
  let review ← unitReview stepId record.definition
  pure
    { id := stepId, role, state := stepTaskState record.state
      dependencies := record.definition.dependencies, review
      repairRound := if role = .repair then repairRoundOf stepId else none }

/-- `src/src/inspection/run-view.ts:249-277`. -/
def engineAttempt (attempt : WorkflowStepAttempt) (record : WorkflowStepRecord)
    (findings : Option (List ReviewFinding)) : RunAttemptView :=
  { id := attempt.id, unitId := attempt.stepId, role := unitRole record.definition
    state := attempt.state, findings }

/-- `src/src/inspection/run-view.ts:283-296`. -/
def integratedRepairAttemptId (state : WorkflowRunState) (round : Nat) : Option String :=
  let stepId := repairStepId round
  match (state.steps.get? stepId).bind fun record => present record.integratedCommit with
  | none => none
  | some _ =>
    (state.attempts.reverse.find? fun attempt =>
      attempt.stepId = stepId ∧ attempt.state = .succeeded).map (·.id)

/-- The findings of a succeeded review attempt. `src/src/inspection/run-view.ts:372-384`. -/
def attemptFindings (state : WorkflowRunState) (findings : String → Option (List ReviewFinding))
    (attempt : WorkflowStepAttempt) (definition : StepDefinition) :
    Except String (Option (List ReviewFinding)) :=
  if unitRole definition = .review ∧ attempt.state = .succeeded then
    (fun named => some (findingsWithStatus (findings attempt.stepId)
      (integratedRepairAttemptId state named.1))) <$> parseReviewStepId attempt.stepId
  else pure none

/-- The attempt of a recorded step. `src/src/inspection/run-view.ts:367-386`. -/
def engineAttemptView (state : WorkflowRunState) (findings : String → Option (List ReviewFinding))
    (attempt : WorkflowStepAttempt) (record : WorkflowStepRecord) : Except String RunAttemptView := do
  let reviewFindings ← attemptFindings state findings attempt record.definition
  pure (engineAttempt attempt record reviewFindings)

/-! ## The view -/

/-- `src/src/inspection/run-view.ts:305-343`. -/
def engineRunState (stored : RunState) (state : WorkflowRunState) : RunState :=
  if stored = .planning ∨ stored = .awaitingApproval then stored
  else if state.state = .cancelled ∨ stored = .cancelled then .cancelled
  else if stored = .completed ∨ stored = .failed ∨ stored = .validating then stored
  else if state.state = .failed then .failed
  else if state.state = .completed then .reviewed
  else
    let active (role : RunUnitRole) := state.steps.values.any fun record =>
      unitRole record.definition = role ∧ (record.state = .ready ∨ record.state = .running)
    if active .repair then .repairing
    else if active .review then .reviewing
    else if state.steps.values.all fun record =>
        unitRole record.definition ≠ .change ∨ record.state = .succeeded then .integrating
    else .running

/-- The keys that are bound, with what they are bound to. -/
def recorded {α : Type} (state : WorkflowRunState) (stepId : α → String) (items : List α) :
    List (α × WorkflowStepRecord) :=
  items.filterMap fun item => (state.steps.get? (stepId item)).map fun record => (item, record)

/-- `src/src/inspection/run-view.ts:350-399`. -/
def engineRunView (run : OrchestrationRun) (state : WorkflowRunState)
    (findings : String → Option (List ReviewFinding)) : Except String RunView := do
  let units ← (recorded state id (topologicalStepIds state.plan)).mapM fun (stepId, record) =>
    engineUnit stepId record
  let attempts ← (recorded state (·.stepId) state.attempts).mapM fun (attempt, record) =>
    engineAttemptView state findings attempt record
  pure
    { source := .engine, id := run.id, state := engineRunState run.state state
      approvedAt := present run.approvedAt, approvedPlanRevision := run.approvedPlanRevision
      units, attempts, finalValidationAttempts := run.finalValidationAttempts }

/-! ## Names that parse -/

/-- The match is the whole text, cut behind the digits. -/
theorem matchReviewStepId_eq_some_iff {stepId : String} {digits letters : List Char} :
    matchReviewStepId stepId = some (digits, letters) ↔
      stepId.toList = "review-".toList ++ (digits ++ '-' :: letters) ∧ digits ≠ [] ∧
        digits.head? ≠ some '0' ∧ (∀ c ∈ digits, c.isDigit = true) ∧ letters ≠ [] ∧
        ∀ c ∈ letters, c.isLower = true := by
  unfold matchReviewStepId
  constructor
  · intro h
    split at h
    · cases h
    · next rest hrest =>
      dsimp only at h
      split at h
      · next tail htail =>
        split at h
        · next hshape =>
          obtain ⟨hne, hhead, hletters, hlower⟩ := hshape
          cases h
          obtain ⟨front, hsplit, hfront⟩ := List.dropPrefix?_eq_some_iff.mp hrest
          rw [eq_of_beq hfront] at hsplit
          refine ⟨?_, hne, hhead, ?_, hletters, List.all_eq_true.mp hlower⟩
          · rw [hsplit, ← htail, List.takeWhile_append_dropWhile]
          · intro c hc
            exact List.mem_takeWhile_imp hc
        · cases h
      · cases h
  · rintro ⟨htext, hne, hhead, hdigits, hletters, hlower⟩
    rw [htext, List.dropPrefix?_append_of_beq _ (BEq.rfl)]
    have htake : (digits ++ '-' :: letters).takeWhile Char.isDigit = digits := by
      rw [List.takeWhile_append_of_pos hdigits]
      simp
    have hdrop : (digits ++ '-' :: letters).dropWhile Char.isDigit = '-' :: letters := by
      rw [List.dropWhile_append_of_pos hdigits]
      rfl
    simp only [htake, hdrop]
    rw [if_pos ⟨hne, hhead, hletters, List.all_eq_true.mpr hlower⟩]

private theorem toList_reviewStepId (round : Nat) (category : ReviewCategory) :
    (reviewStepId round category).toList =
      "review-".toList ++ (Nat.toDigits 10 round ++ '-' :: category.name.toList) := by
  have htext : reviewStepId round category =
      "review-" ++ Nat.repr round ++ "-" ++ category.name := rfl
  rw [htext, String.toList_append, String.toList_append, String.toList_append, Nat.toList_repr]
  simp

/-- A step id names a round and a category just when it is the id of their review. -/
theorem parseReviewStepId_ok_iff {stepId : String} {round : Nat} {category : ReviewCategory} :
    parseReviewStepId stepId = .ok (round, category) ↔
      1 ≤ round ∧ stepId = reviewStepId round category := by
  unfold parseReviewStepId
  dsimp only
  constructor
  · intro h
    split at h
    · next digits letters known hmatch hfind =>
      rw [Except.ok.injEq, Prod.mk.injEq] at h
      obtain ⟨rfl, rfl⟩ := h
      obtain ⟨htext, hne, hhead, hdigits, -⟩ := matchReviewStepId_eq_some_iff.mp hmatch
      have hletters : known.name.toList = letters := by
        have hname := List.find?_some hfind
        rw [hmatch] at hname
        simpa using hname
      have hround := toDigits_ofDigitChars hne hdigits hhead
      constructor
      · by_contra hzero
        have hnone : Nat.ofDigitChars 10 digits 0 = 0 := by omega
        rw [hnone, Nat.toDigits_zero] at hround
        rw [← hround] at hhead
        exact hhead rfl
      · apply String.toList_inj.mp
        rw [toList_reviewStepId, hround, hletters, htext]
    · cases h
  · rintro ⟨hround, rfl⟩
    have hmatch : matchReviewStepId (reviewStepId round category) =
        some (Nat.toDigits 10 round, category.name.toList) := by
      rw [matchReviewStepId_eq_some_iff]
      refine ⟨toList_reviewStepId round category, by simp, toDigits_head_ne_zero hround, ?_, ?_, ?_⟩
      · intro c hc
        exact Nat.isDigit_of_mem_toDigits (by omega) (by omega) hc
      · cases category <;> decide
      · rw [← List.all_eq_true]
        cases category <;> decide
    have hfind : (ReviewCategory.all.find? fun known =>
        some known.name.toList = (some category.name.toList)) = some category := by
      cases category <;> decide
    rw [hmatch]
    dsimp only [Option.map_some]
    rw [hfind]
    dsimp only
    rw [Nat.ofDigitChars_ten_toDigits]

/-! ## What a view shows -/

/-- A view shows the whole of a run: a unit for every step of the plan, each after its dependencies
and in the order of the plan, and an attempt for every attempt. -/
structure ShowsRun (state : WorkflowRunState) (view : RunView) : Prop where
  order : view.units.map (·.id) = topologicalStepIds state.plan
  units : Node.Linearizes state.plan.nodes (view.units.map (·.id))
  attempts : view.attempts.map (·.id) = state.attempts.map (·.id)

/-- The ids and dependencies of a plan are written without blanks around them. -/
def TrimmedNames (plan : WorkflowPlan) : Prop :=
  ∀ step ∈ plan.steps, trim step.id = step.id ∧ ∀ d ∈ step.dependencies, trim d = d

/-- Every recorded step of the review profile has the id of a review. -/
def ReviewsNamed (state : WorkflowRunState) : Prop :=
  ∀ stepId record, state.steps.get? stepId = some record →
    stepProfileName record.definition = .review →
      ∃ round category, 1 ≤ round ∧ stepId = reviewStepId round category

private theorem exists_mapM_ok_iff {α β : Type} {f : α → Except String β} {xs : List α} :
    (∃ ys, xs.mapM f = .ok ys) ↔ ∀ x ∈ xs, ∃ y, f x = .ok y := by
  induction xs with
  | nil => simp [pure, Except.pure]
  | cons x rest ih =>
    rw [List.mapM_cons, List.forall_mem_cons, ← ih]
    constructor
    · rintro ⟨ys, h⟩
      obtain ⟨y, hy, h⟩ := bind_ok_iff.mp h
      obtain ⟨more, hmore, -⟩ := bind_ok_iff.mp h
      exact ⟨⟨y, hy⟩, more, hmore⟩
    · rintro ⟨⟨y, hy⟩, more, hmore⟩
      exact ⟨y :: more, bind_ok_iff.mpr ⟨y, hy, bind_ok_iff.mpr ⟨more, hmore, rfl⟩⟩⟩

/-- What a check keeps of each entry it keeps of the list. -/
theorem map_eq_of_mapM {α β γ : Type} {f : α → Except String β} {key : α → γ} {name : β → γ}
    (hname : ∀ x y, f x = .ok y → name y = key x) {xs : List α} {ys : List β}
    (h : xs.mapM f = .ok ys) : ys.map name = xs.map key := by
  have hall := mapM_ok_iff.mp h
  clear h
  induction hall with
  | nil => rfl
  | cons hy _ ih => rw [List.map_cons, List.map_cons, hname _ _ hy, ih]

private theorem unitRole_eq_review_iff {definition : StepDefinition} :
    unitRole definition = .review ↔ stepProfileName definition = .review := by
  unfold unitRole
  cases stepProfileName definition <;> cases definition.kind <;> simp

private theorem engineUnit_id {stepId : String} {record : WorkflowStepRecord} {unit : RunUnitView}
    (h : engineUnit stepId record = .ok unit) : unit.id = stepId := by
  obtain ⟨review, -, h⟩ := bind_ok_iff.mp h
  rw [← Except.ok.inj h]

/-- A step has a unit unless it is a review whose id names no round or category. -/
private theorem exists_engineUnit_iff {stepId : String} {record : WorkflowStepRecord} :
    (∃ unit, engineUnit stepId record = .ok unit) ↔
      (stepProfileName record.definition = .review →
        ∃ round category, 1 ≤ round ∧ stepId = reviewStepId round category) := by
  have hunit : (∃ unit, engineUnit stepId record = .ok unit) ↔
      ∃ review, unitReview stepId record.definition = .ok review := by
    constructor
    · rintro ⟨unit, h⟩
      obtain ⟨review, hreview, -⟩ := bind_ok_iff.mp h
      exact ⟨review, hreview⟩
    · rintro ⟨review, hreview⟩
      exact ⟨_, bind_ok_iff.mpr ⟨review, hreview, rfl⟩⟩
  rw [hunit, ← unitRole_eq_review_iff, unitReview]
  by_cases hrole : unitRole record.definition = .review
  · rw [if_pos hrole]
    constructor
    · rintro ⟨review, hreview⟩ -
      obtain ⟨⟨round, category⟩, hparse, -⟩ := map_ok_iff.mp hreview
      exact ⟨round, category, parseReviewStepId_ok_iff.mp hparse⟩
    · intro h
      obtain ⟨round, category, hnamed⟩ := h hrole
      exact ⟨_, map_ok_iff.mpr ⟨(round, category), parseReviewStepId_ok_iff.mpr hnamed, rfl⟩⟩
  · rw [if_neg hrole]
    exact iff_of_true ⟨_, rfl⟩ fun h => absurd h hrole

private theorem engineAttemptView_id {state : WorkflowRunState}
    {findings : String → Option (List ReviewFinding)} {attempt : WorkflowStepAttempt}
    {record : WorkflowStepRecord} {view : RunAttemptView}
    (h : engineAttemptView state findings attempt record = .ok view) : view.id = attempt.id := by
  unfold engineAttemptView at h
  obtain ⟨reviewFindings, -, h⟩ := bind_ok_iff.mp h
  rw [← Except.ok.inj h]
  rfl

private theorem exists_engineAttemptView {state : WorkflowRunState}
    {findings : String → Option (List ReviewFinding)} {attempt : WorkflowStepAttempt}
    {record : WorkflowStepRecord}
    (h : stepProfileName record.definition = .review →
      ∃ round category, 1 ≤ round ∧ attempt.stepId = reviewStepId round category) :
    ∃ view, engineAttemptView state findings attempt record = .ok view := by
  have hfindings : ∃ found, attemptFindings state findings attempt record.definition = .ok found := by
    unfold attemptFindings
    by_cases hreview : unitRole record.definition = .review ∧ attempt.state = .succeeded
    · obtain ⟨round, category, hnamed⟩ := h (unitRole_eq_review_iff.mp hreview.1)
      rw [if_pos hreview, parseReviewStepId_ok_iff.mpr hnamed]
      exact ⟨_, rfl⟩
    · rw [if_neg hreview]
      exact ⟨_, rfl⟩
  obtain ⟨found, hfound⟩ := hfindings
  exact ⟨_, bind_ok_iff.mpr ⟨found, hfound, rfl⟩⟩

section Recorded

variable {state : WorkflowRunState} {α : Type} {stepId : α → String} {items : List α}

/-- The bound keys of a list, each with what it is bound to. -/
theorem mem_recorded {item : α} {record : WorkflowStepRecord} :
    (item, record) ∈ recorded state stepId items ↔
      item ∈ items ∧ state.steps.get? (stepId item) = some record := by
  unfold recorded
  rw [List.mem_filterMap]
  constructor
  · rintro ⟨x, hx, h⟩
    obtain ⟨found, hfound, heq⟩ := Option.map_eq_some_iff.mp h
    cases heq
    exact ⟨hx, hfound⟩
  · rintro ⟨hitem, hrecord⟩
    exact ⟨item, hitem, by rw [hrecord]; rfl⟩

/-- Nothing is dropped when every item belongs to a recorded step. -/
private theorem recorded_items (h : ∀ item ∈ items, ∃ record, state.steps.get? (stepId item) = some record) :
    (recorded state stepId items).map Prod.fst = items := by
  unfold recorded
  induction items with
  | nil => rfl
  | cons item rest ih =>
    rw [List.forall_mem_cons] at h
    obtain ⟨⟨record, hrecord⟩, hrest⟩ := h
    rw [List.filterMap_cons, hrecord]
    exact congrArg (item :: ·) (ih hrest)

end Recorded

/-! ## Views of accepted runs -/

variable {run : OrchestrationRun} {state : WorkflowRunState}
  {findings : String → Option (List ReviewFinding)}

/-- A view holds the units of the recorded steps and the attempts of recorded steps. -/
private theorem engineRunView_ids {view : RunView} (h : engineRunView run state findings = .ok view) :
    view.units.map (·.id) =
        (recorded state id (topologicalStepIds state.plan)).map Prod.fst ∧
      (∀ stepId record, (stepId, record) ∈ recorded state id (topologicalStepIds state.plan) →
        ∃ unit, engineUnit stepId record = .ok unit) ∧
      view.attempts.map (·.id) =
        ((recorded state (·.stepId) state.attempts).map Prod.fst).map (·.id) := by
  obtain ⟨units, hunits, h⟩ := bind_ok_iff.mp h
  obtain ⟨attempts, hattempts, h⟩ := bind_ok_iff.mp h
  rw [← Except.ok.inj h, List.map_map]
  refine ⟨map_eq_of_mapM (fun _ _ => engineUnit_id) hunits, ?_,
    map_eq_of_mapM (fun _ _ => engineAttemptView_id) hattempts⟩
  intro stepId record hmem
  exact exists_mapM_ok_iff.mp ⟨units, hunits⟩ (stepId, record) hmem

/-- The step of an accepted attempt is recorded. -/
private theorem attempt_recorded {sha256Hex : String → String} {plan : WorkflowPlan}
    (h : RunAccepted sha256Hex state plan) {attempt : WorkflowStepAttempt}
    (hattempt : attempt ∈ state.attempts) :
    ∃ record, state.steps.get? attempt.stepId = some record := by
  obtain ⟨definition, hdefinition, -⟩ := (h.attempts.each attempt hattempt).requirement
  have hmem : definition ∈ plan.steps := List.mem_of_find?_eq_some hdefinition
  have hid : definition.id = attempt.stepId := by simpa using List.find?_some hdefinition
  obtain ⟨record, hrecord, -⟩ := h.steps.records definition hmem
  exact ⟨record, by rw [← hid, hrecord]⟩

/-- The units of a view are those of the recorded steps, in the order of the plan, with the states and
the dependencies of the records. -/
theorem engineRunView_units {view : RunView} (h : engineRunView run state findings = .ok view) :
    view.units.map (fun unit => (unit.id, unit.state, unit.dependencies)) =
      (recorded state id (topologicalStepIds state.plan)).map fun entry =>
        (entry.1, stepTaskState entry.2.state, entry.2.definition.dependencies) := by
  obtain ⟨units, hunits, h⟩ := bind_ok_iff.mp h
  obtain ⟨attempts, -, h⟩ := bind_ok_iff.mp h
  rw [← Except.ok.inj h]
  apply map_eq_of_mapM _ hunits
  rintro ⟨stepId, record⟩ unit hunit
  obtain ⟨review, -, hunit⟩ := bind_ok_iff.mp hunit
  rw [← Except.ok.inj hunit]

/-- An accepted run is shown whole just when its plan writes its names without blanks around them
and every step of the review profile is named as a review. -/
theorem engineRunView_shows_iff {sha256Hex : String → String} (haccepts : Accepts sha256Hex state) :
    (∃ view, engineRunView run state findings = .ok view ∧ ShowsRun state view) ↔
      TrimmedNames state.plan ∧ ReviewsNamed state := by
  obtain ⟨plan, h⟩ := accepts_iff.mp haccepts
  have hwf := validateWorkflowPlan_wellFormed h.reads
  have hnodes := validateWorkflowPlan_nodes h.reads
  -- A recorded id is that of a step of the plan, trimmed.
  have hrecorded : ∀ stepId record, state.steps.get? stepId = some record →
      ∃ n ∈ state.plan.nodes, trim n.id = stepId := by
    intro stepId record hrecord
    obtain ⟨hmem, hid, -⟩ := h.steps.record hwf hrecord
    have hnode : record.definition.node ∈ plan.nodes := List.mem_map_of_mem hmem
    rw [hnodes] at hnode
    obtain ⟨n, hn, heq⟩ := List.mem_map.mp hnode
    refine ⟨n, hn, ?_⟩
    rw [← hid]
    exact congrArg Node.id heq
  constructor
  · rintro ⟨view, hview, hshows⟩
    obtain ⟨hids, hunits, -⟩ := engineRunView_ids hview
    -- A step of the plan is recorded, for it has a unit.
    have hshown : ∀ n ∈ state.plan.nodes, ∃ record,
        (n.id, record) ∈ recorded state id (topologicalStepIds state.plan) := by
      intro n hn
      have hmem : n.id ∈ view.units.map (·.id) := by
        rw [hshows.units.perm.mem_iff]
        exact List.mem_map_of_mem hn
      rw [hids] at hmem
      obtain ⟨⟨stepId, record⟩, hmem, rfl⟩ := List.mem_map.mp hmem
      exact ⟨record, hmem⟩
    have htrimmed : ∀ id ∈ Node.ids state.plan.nodes, trim id = id := by
      intro id hid
      obtain ⟨n, hn, rfl⟩ := List.mem_map.mp hid
      obtain ⟨record, hmem⟩ := hshown n hn
      obtain ⟨n', -, heq⟩ := hrecorded _ _ (mem_recorded.mp hmem).2
      rw [show n.id = trim n'.id from heq.symm, trim_trim]
    have hnames : TrimmedNames state.plan := by
      intro step hstep
      have hnode : step.node ∈ state.plan.nodes := List.mem_map_of_mem hstep
      refine ⟨htrimmed _ (List.mem_map_of_mem hnode), ?_⟩
      intro d hd
      have hid : step.id ∈ view.units.map (·.id) := by
        rw [hshows.units.perm.mem_iff]
        exact List.mem_map_of_mem hnode
      obtain ⟨before, after, hsplit⟩ := List.append_of_mem hid
      have hbefore : d ∈ before :=
        hshows.units.precede before step.id after hsplit step.node hnode rfl d hd
      apply htrimmed
      rw [← hshows.units.perm.mem_iff, hsplit]
      exact List.mem_append_left _ hbefore
    refine ⟨hnames, ?_⟩
    intro stepId record hrecord hreview
    obtain ⟨n, hn, htrim⟩ := hrecorded stepId record hrecord
    have hid : n.id = stepId := by rw [← htrimmed n.id (List.mem_map_of_mem hn), htrim]
    obtain ⟨shown, hmem⟩ := hshown n hn
    rw [hid] at hmem
    have heq : record = shown := by
      have hget := (mem_recorded.mp hmem).2
      rw [id, hrecord, Option.some.injEq] at hget
      exact hget
    exact exists_engineUnit_iff.mp (hunits stepId record (heq ▸ hmem)) hreview
  · rintro ⟨hnames, hreviews⟩
    have hsame : plan.nodes = state.plan.nodes := by
      rw [hnodes, ← List.map_id state.plan.nodes, List.map_map]
      apply List.map_congr_left
      intro n hn
      obtain ⟨step, hstep, rfl⟩ := List.mem_map.mp hn
      obtain ⟨hid, hdependencies⟩ := hnames step hstep
      have htrimmed : step.dependencies.map trim = step.dependencies :=
        (List.map_congr_left hdependencies).trans (List.map_id _)
      simp only [Function.comp_apply, id_eq, StepDefinition.node, hid, htrimmed]
    have hlinear : Node.Linearizes state.plan.nodes (topologicalStepIds state.plan) := by
      rw [topologicalStepIds, ← hsame]
      apply topologicalIds_linearizes hwf.graph _ hwf.acyclic
      intro n hn
      obtain ⟨step, hstep, rfl⟩ := List.mem_map.mp hn
      exact ne_empty_of_matchesIdPattern (hwf.pattern step hstep)
    have hsteps : ∀ stepId ∈ topologicalStepIds state.plan,
        ∃ record, state.steps.get? (id stepId) = some record := by
      intro stepId hmem
      rw [hlinear.perm.mem_iff, ← hsame] at hmem
      obtain ⟨n, hn, rfl⟩ := List.mem_map.mp hmem
      obtain ⟨step, hstep, rfl⟩ := List.mem_map.mp hn
      obtain ⟨record, hrecord, -⟩ := h.steps.records step hstep
      exact ⟨record, hrecord⟩
    obtain ⟨units, hunits⟩ := exists_mapM_ok_iff.mpr (show ∀ entry ∈
        recorded state id (topologicalStepIds state.plan),
        ∃ unit, engineUnit entry.1 entry.2 = .ok unit from fun entry hentry =>
      exists_engineUnit_iff.mpr (hreviews entry.1 entry.2 (mem_recorded.mp hentry).2))
    obtain ⟨attempts, hattempts⟩ := exists_mapM_ok_iff.mpr (show ∀ entry ∈
        recorded state (·.stepId) state.attempts,
        ∃ view, engineAttemptView state findings entry.1 entry.2 = .ok view from fun entry hentry =>
      exists_engineAttemptView (hreviews entry.1.stepId entry.2 (mem_recorded.mp hentry).2))
    have hview : engineRunView run state findings = .ok _ :=
      bind_ok_iff.mpr ⟨units, hunits, bind_ok_iff.mpr ⟨attempts, hattempts, rfl⟩⟩
    obtain ⟨hids, -, hattemptIds⟩ := engineRunView_ids hview
    rw [recorded_items hsteps] at hids
    rw [recorded_items fun attempt => attempt_recorded h] at hattemptIds
    refine ⟨_, hview, hids, ?_, hattemptIds⟩
    rw [hids]
    exact hlinear

/-- A started run of one task. -/
def smallStartedRun : OrchestrationRun := startedRun (smallTaskPlan [smallTask "edit" [] "src/a"])

/-- A run of one investigation that its plan gives the profile of a review. -/
def reviewingRun : WorkflowRunState :=
  smallRun [{ investigationStep "look" [] with profile := some .review }]

theorem engineRunView_shows_investigation :
    (∃ view, engineRunView smallStartedRun (smallRun [investigationStep "look" []])
        (fun _ => none) = .ok view ∧ ShowsRun (smallRun [investigationStep "look" []]) view) ↔
      TrimmedNames (smallRun [investigationStep "look" []]).plan ∧
        ReviewsNamed (smallRun [investigationStep "look" []]) :=
  @engineRunView_shows_iff _ _ _ id (by rw [Accepts]; decide +kernel)

/-- The store accepts an investigation of the review profile under any id, and its run has no
view. -/
theorem reviewingRun_not_shown :
    Accepts id reviewingRun ∧
      engineRunView smallStartedRun reviewingRun (fun _ => none) =
        .error ("Review step look must be named review-<round>-<category>, with a category of " ++
          reviewCategoryNames) := by
  refine ⟨by rw [Accepts]; decide +kernel, ?_⟩
  decide +kernel

end BuildConductor.Inspection
