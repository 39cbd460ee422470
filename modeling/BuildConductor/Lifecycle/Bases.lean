import BuildConductor.Lifecycle.History
import BuildConductor.Workflows.Change

/-!
# Bases of attempts

A launch takes the integration head as its base, and by then every mutating step it depends on,
however far, is part of that head. The last reviews of a change workflow depend on everything that
mutates, so once one of them has been launched nothing is integrated any more, and all of them have
read the head that finalization checks. `src/src/engine/engine.ts:252-362`,
`src/src/engine/scheduler.ts:26-62,189-206`, `src/src/workflows/change.ts:28-165`.
-/

namespace BuildConductor.Lifecycle

open Base Domain Security Engine Workflows Storage

/-- A step of a plan declares a dependency. -/
def DependsOn (plan : WorkflowPlan) (stepId dependency : String) : Prop :=
  ∃ step ∈ plan.steps, step.id = stepId ∧ dependency ∈ step.dependencies

/-- The commit of a step is one that a commit of the integration branch is built on: the branch up
to that commit holds it, and holds it as the one its own source became if it had one. -/
def IntegratedInto (world : World) (head stepId : String) : Prop :=
  ∃ landed lost commit, world.branch = landed ++ lost ∧
    LinearHistory.head world.run.baseCommit (landed.map BranchCommit.entry) = head ∧
    landedAt world.run stepId = some commit ∧
    commit ∈ world.run.baseCommit :: landed.map (·.commit) ∧
    ∀ source, contribution world.run stepId = some (some source) → ⟨source, commit⟩ ∈ landed

/-- An attempt starts from the integration head, and that head contains every mutating step its
step depends on. -/
structure StartsIntegrated (world : World) (attempt : WorkflowStepAttempt) : Prop where
  base : attempt.baseCommit = world.run.integrationHead
  dependencies : ∀ dependency record,
    Relation.TransGen (DependsOn world.run.plan) attempt.stepId dependency →
    world.run.steps.get? dependency = some record →
    stepRequiresIntegration world.run.capabilityProfiles record.definition = true →
    IntegratedInto world attempt.baseCommit dependency

section Steps

variable {run : WorkflowRunState}

/-- The steps a step depends on, however far, satisfy their dependents once its own do. -/
theorem StepsSound.satisfied (h : StepsSound run) (hkept : PlanKept run) {stepId : String}
    (hdependencies : ∀ record, run.steps.get? stepId = some record →
      ∀ d ∈ record.definition.dependencies, Satisfied run d) {dependency : String}
    (hpath : Relation.TransGen (DependsOn run.plan) stepId dependency) :
    Satisfied run dependency := by
  induction hpath with
  | single hedge =>
    obtain ⟨step, hstep, rfl, hd⟩ := hedge
    obtain ⟨record, hrecord, rfl⟩ := hkept.recorded step hstep
    exact hdependencies record hrecord _ hd
  | tail _ hedge ih =>
    obtain ⟨step, hstep, rfl, hd⟩ := hedge
    obtain ⟨record, hrecord, rfl⟩ := hkept.recorded step hstep
    obtain ⟨same, hsame, hsatisfies⟩ := ih
    rw [hrecord] at hsame
    cases hsame
    have hattempted := h.attempted _ record hrecord (satisfied_iff.mp hsatisfies).1
    exact h.launched _ record hrecord hattempted _ hd

/-- A mutating step that satisfies its dependents has landed. -/
theorem Satisfied.landed {stepId : String} {record : WorkflowStepRecord} (h : Satisfied run stepId)
    (hrecord : run.steps.get? stepId = some record)
    (hmutates : stepRequiresIntegration run.capabilityProfiles record.definition = true) :
    ∃ commit, landedAt run stepId = some commit := by
  obtain ⟨same, hsame, hsatisfies⟩ := h
  rw [hrecord] at hsame
  cases hsame
  rw [landedAt_of_record hrecord]
  exact Option.ne_none_iff_exists'.mp ((satisfied_iff.mp hsatisfies).2 hmutates)

end Steps

section Launches

variable {sha256Hex : String → String} {world later : World}

/-- What has landed is integrated into the head, while no merge waits for its record. -/
theorem integratedInto_head (h : (storedEngine sha256Hex).Reachable world)
    (hnone : world.process.pendingNotes = []) {stepId commit : String}
    (hlanded : landedAt world.run stepId = some commit) :
    IntegratedInto world world.run.integrationHead stepId := by
  have hconsistent := consistent_reachable h
  obtain ⟨landed, lost, hbranch⟩ := landed_reachable h
  have hnotes := hbranch.notes
  rw [World.notes, hnone, List.append_nil] at hnotes
  have hnote : ((contribution world.run stepId).join, commit) ∈ integrationNotes world.run := by
    refine List.mem_filterMap.mpr ⟨stepId, ?_, ?_⟩
    · rw [hconsistent.kept.mem_order_iff]
      unfold landedAt at hlanded
      cases hrecord : world.run.steps.get? stepId with
      | none =>
        rw [hrecord] at hlanded
        cases hlanded
      | some record => exact ⟨record, rfl⟩
    · rw [integrationNote, hlanded]
      rfl
  refine ⟨landed, lost, commit, hbranch.branch, hbranch.noted_head hconsistent hnone, hlanded, ?_, ?_⟩
  · have hmem := hnotes.mem hnote
    rwa [List.map_map] at hmem
  · intro source hsource
    have hentry : (source, commit) ∈ landed.map BranchCommit.entry := by
      rw [hnotes.branch_eq]
      refine List.mem_filterMap.mpr ⟨_, hnote, ?_⟩
      rw [hsource]
      rfl
    obtain ⟨picked, hpicked, heq⟩ := List.mem_map.mp hentry
    obtain ⟨pickedSource, pickedCommit⟩ := picked
    cases heq
    exact hpicked

/-- An attempt a reservation creates starts integrated. -/
theorem reservation_startsIntegrated (h : (storedEngine sha256Hex).Reachable world)
    {attempt : WorkflowStepAttempt}
    (hstep : (storedEngine sha256Hex).step world (.write (.reserve attempt)) later)
    (hcreated : attempt ∈ later.run.attempts) :
    StartsIntegrated world attempt ∧ later.run.integrationHead = world.run.integrationHead := by
  have hconsistent := consistent_reachable h
  have hsound := sound_reachable h
  obtain ⟨now, happly⟩ := Step.write_applies hstep
  have hfresh : ∀ stored ∈ world.run.attempts, ¬ SameAttempt stored attempt := by
    intro stored hstored hsame
    cases hstep with
    | write hissues _ _ =>
      apply (reserves_prepared hissues hconsistent.tracked.engine).1
      rw [hsame.id]
      exact List.mem_map_of_mem hstored
  have hlaunch : attempt.stepId ∈ launchableStepIds world.run := by
    rcases Transaction.apply_attempt happly hcreated with ⟨stored, hstored, hevolves⟩ | ⟨-, hlaunch⟩
    · exact absurd hevolves.same (hfresh stored hstored)
    · exact hlaunch
  have hreserving : world.process.pendingNotes = [] ∧
      attempt.baseCommit = world.run.integrationHead := by
    cases hstep with
    | write hissues _ _ =>
      cases hprocess : world.process with
      | engine e =>
        have hphase := hsound.phase e hprocess
        rw [hprocess] at hissues
        cases hissues with
        | reserved hreserving _ | notReserved hreserving _ =>
          rw [hreserving] at hphase
          refine ⟨?_, hphase.2⟩
          rw [Process.pendingNotes, hreserving]
          rfl
      | idle | recovering loaded | relaunching stopped | retrying =>
        rw [hprocess] at hissues
        cases hissues
  refine ⟨⟨hreserving.2, ?_⟩, Transaction.apply_integrationHead happly (by simp)⟩
  intro dependency record hpath hrecord hmutates
  have hsatisfied := hsound.steps.satisfied hconsistent.kept
    (fun record hrecord => launchable_dependencies hconsistent.reconciled hlaunch hrecord) hpath
  obtain ⟨commit, hlanded⟩ := hsatisfied.landed hrecord hmutates
  rw [hreserving.2]
  exact integratedInto_head h hreserving.1 hlanded

end Launches

/-! ## The last reviews of a change workflow -/

section Workflow

variable {taskPlan : Json} {plan : WorkflowPlan}

/-- The edges of the generated steps. -/
private theorem dependsOn_generated (hplan : buildChangeWorkflowPlan taskPlan = .ok plan) :
    (∀ round ∈ List.range' 1 changeWorkflowRepairRounds, ∀ category,
      DependsOn plan (reviewStepId (round + 1) category) (repairStepId round) ∧
        DependsOn plan (repairStepId round) (reviewStepId round category)) ∧
      ∀ step ∈ plan.steps, step.id ∉ reservedStepIds →
        ∀ category, DependsOn plan (reviewStepId 1 category) step.id := by
  obtain ⟨legacy, -, -, rfl⟩ := buildChangeWorkflowPlan_ok_iff.mp hplan
  have hgenerated := fun (step : StepDefinition) hstep =>
    (@mem_changeWorkflow_iff legacy step).mpr
      (Or.inr (mem_generatedSteps_iff.mpr hstep))
  refine ⟨?_, ?_⟩
  · intro round hround category
    rw [List.mem_range'_1] at hround
    have hlater : round + 1 ≠ 1 := by omega
    refine ⟨⟨_, hgenerated _ (Or.inl ⟨round + 1, ?_, category, rfl⟩), rfl, ?_⟩,
      ⟨_, hgenerated _ (Or.inr ⟨round, List.mem_range'_1.mpr hround, rfl⟩), rfl, ?_⟩⟩
    · rw [List.mem_range'_1]
      unfold rounds
      omega
    · unfold reviewRoundStep
      dsimp only
      rw [if_neg hlater, if_pos (by omega)]
      exact List.mem_append_left _ (List.mem_singleton_self _)
    · exact List.mem_map_of_mem category.mem_all
  · intro step hstep hfresh category
    refine ⟨_, hgenerated _ (Or.inl ⟨1, ?_, category, rfl⟩), rfl, ?_⟩
    · exact List.mem_range'_1.mpr (by decide)
    rcases mem_changeWorkflow_iff.mp hstep with ⟨task, htask, rfl⟩ | hreserved
    · exact List.mem_map_of_mem (f := Node.id) (List.mem_map_of_mem (f := TaskDefinition.node) htask)
    · refine absurd ?_ hfresh
      rw [← generatedSteps_ids]
      exact List.mem_map_of_mem hreserved

/-- The last reviews depend on every repair. -/
private theorem lastReview_repair (hplan : buildChangeWorkflowPlan taskPlan = .ok plan)
    (category : ReviewCategory) {earlier : Nat} (hearlier : earlier < changeWorkflowRepairRounds) :
    Relation.TransGen (DependsOn plan) (reviewStepId rounds category)
      (repairStepId (changeWorkflowRepairRounds - earlier)) := by
  have hedges := (dependsOn_generated hplan).1
  induction earlier with
  | zero =>
    exact .single (hedges changeWorkflowRepairRounds (List.mem_range'_1.mpr (by decide)) category).1
  | succ earlier ih =>
    have hround : changeWorkflowRepairRounds - (earlier + 1) + 1 =
        changeWorkflowRepairRounds - earlier := by omega
    have hreview := (hedges (changeWorkflowRepairRounds - earlier)
      (List.mem_range'_1.mpr (by omega)) category).2
    have hrepair := (hedges (changeWorkflowRepairRounds - (earlier + 1))
      (List.mem_range'_1.mpr (by omega)) category).1
    rw [hround] at hrepair
    exact ((ih (by omega)).tail hreview).tail hrepair

/-- A review reads only. -/
private theorem reviewRoundStep_reads (profiles : RunCapabilityProfiles) (round : Nat)
    (dependencies : List String) (category : ReviewCategory) :
    stepRequiresIntegration profiles (reviewRoundStep round dependencies category) = false := by
  have hnot : StepCapability.mutateRepository ∉
      (stepCapabilityProfile profiles (reviewRoundStep round dependencies category)).capabilities := by
    unfold stepCapabilityProfile narrowCapabilityProfile orderedCapabilities
    dsimp only
    rw [List.mem_filter, decide_eq_true_eq, List.mem_filter]
    rintro ⟨-, -, hdeclared⟩
    exact absurd hdeclared
      (show ¬ decide (StepCapability.mutateRepository ∈ [StepCapability.readRepository]) = true by decide)
  unfold stepRequiresIntegration stepWorkspaceRequirement workspaceRequirementFor
  rw [if_neg hnot]
  split <;> rfl

/-- The last reviews depend on every step that may mutate the repository. -/
theorem lastReview_reaches (hplan : buildChangeWorkflowPlan taskPlan = .ok plan)
    (category : ReviewCategory) {profiles : RunCapabilityProfiles} {step : StepDefinition}
    (hstep : step ∈ plan.steps) (hmutates : stepRequiresIntegration profiles step = true) :
    Relation.TransGen (DependsOn plan) (reviewStepId rounds category) step.id := by
  obtain ⟨legacy, -, hfresh, rfl⟩ := buildChangeWorkflowPlan_ok_iff.mp hplan
  rcases mem_changeWorkflow_iff.mp hstep with ⟨task, htask, rfl⟩ | hgenerated
  · obtain ⟨hedges, htasks⟩ := dependsOn_generated hplan
    have hone := @lastReview_repair _ _ hplan category (changeWorkflowRepairRounds - 1)
      (by decide)
    have hreview := (hedges 1 (List.mem_range'_1.mpr (by decide)) category).2
    exact (hone.tail hreview).tail (htasks _ hstep (hfresh task htask) category)
  · rcases mem_generatedSteps_iff.mp hgenerated with
      ⟨round, -, other, rfl⟩ | ⟨round, hround, rfl⟩
    · rw [reviewRoundStep_reads] at hmutates
      cases hmutates
    · rw [List.mem_range'_1] at hround
      have hrepair := @lastReview_repair _ _ hplan category
        (changeWorkflowRepairRounds - round) (by omega)
      rwa [show changeWorkflowRepairRounds - (changeWorkflowRepairRounds - round) = round by omega]
        at hrepair

end Workflow

/-- The plan of a run is the beginning of a plan, as it is until the last admission. -/
def BeginsPlan (run : WorkflowRunState) (plan : WorkflowPlan) : Prop :=
  run.plan.steps <+: plan.steps

/-- What a step of the run depends on in the whole plan, it depends on in the run's own. -/
private theorem BeginsPlan.path {run : WorkflowRunState} {plan : WorkflowPlan}
    (h : BeginsPlan run plan) (hnodup : (plan.steps.map (·.id)).Nodup) (hkept : PlanKept run)
    {stepId dependency : String} {record : WorkflowStepRecord}
    (hrecord : run.steps.get? stepId = some record)
    (hpath : Relation.TransGen (DependsOn plan) stepId dependency) :
    Relation.TransGen (DependsOn run.plan) stepId dependency := by
  have hedge : ∀ {stepId record dependency}, run.steps.get? stepId = some record →
      DependsOn plan stepId dependency → DependsOn run.plan stepId dependency ∧
        ∃ next, run.steps.get? dependency = some next := by
    intro stepId record dependency hrecord hdepends
    obtain ⟨step, hstep, hid, hdependency⟩ := hdepends
    obtain ⟨hplanned, hrecorded⟩ := hkept.planned stepId record hrecord
    have hsame : record.definition = step :=
      List.inj_on_of_nodup_map hnodup (h.subset hplanned) hstep (hrecorded.trans hid.symm)
    rw [← hsame] at hdependency
    exact ⟨⟨record.definition, hplanned, hrecorded, hdependency⟩,
      hkept.dependency_recorded hrecord hdependency⟩
  have hall : Relation.TransGen (DependsOn run.plan) stepId dependency ∧
      ∃ next, run.steps.get? dependency = some next := by
    induction hpath with
    | single hdepends =>
      obtain ⟨hdepends, hnext⟩ := hedge hrecord hdepends
      exact ⟨.single hdepends, hnext⟩
    | tail _ hdepends ih =>
      obtain ⟨hpath, next, hnext⟩ := ih
      obtain ⟨hdepends, hlast⟩ := hedge hnext hdepends
      exact ⟨hpath.tail hdepends, hlast⟩
  exact hall.1

/-- Every step that may mutate the repository satisfies its dependents. -/
def AllIntegrate (run : WorkflowRunState) : Prop :=
  ∀ stepId record, run.steps.get? stepId = some record →
    stepRequiresIntegration run.capabilityProfiles record.definition = true → Satisfied run stepId

theorem AllIntegrate.not_awaitsMerge {run : WorkflowRunState} (h : AllIntegrate run)
    (stepId : String) : ¬ AwaitsMerge run stepId := by
  intro hawaits
  obtain ⟨record, hrecord, -, hmutates, -⟩ := id hawaits
  exact (h stepId record hrecord hmutates).not_awaitsMerge hawaits

/-- No merge waits for its record when none is left to make. -/
private theorem AllIntegrate.nothing_pending {world : World} (h : AllIntegrate world.run)
    (hsound : Sound world) : world.process.pendingNotes = [] := by
  cases hprocess : world.process with
  | engine e =>
    have hphase := hsound.phase e hprocess
    unfold Process.pendingNotes
    dsimp only
    cases hat : e.phase with
    | recordingIntegration ticket commit =>
      rw [hat] at hphase
      exact absurd hphase (h.not_awaitsMerge _)
    | _ => rfl
  | _ => rfl

section LastReviews

variable {sha256Hex : String → String} {world later : World} {taskPlan : Json} {plan : WorkflowPlan}

/-- Once a last review has been launched, nothing that may mutate the repository is left. -/
theorem allIntegrate_of_launched (h : (storedEngine sha256Hex).Reachable world)
    (hplan : buildChangeWorkflowPlan taskPlan = .ok plan) (hbegins : BeginsPlan world.run plan)
    {category : ReviewCategory} (hlaunched : attemptsOf world.run (reviewStepId rounds category) ≠ []) :
    AllIntegrate world.run := by
  have hconsistent := consistent_reachable h
  have hkept := hconsistent.kept
  have hsteps := (sound_reachable h).steps
  have hnodup : (plan.steps.map (·.id)).Nodup := by
    have hids := (buildChangeWorkflowPlan_wellFormed hplan).nodup_ids
    unfold Node.ids WorkflowPlan.nodes at hids
    rwa [List.map_map] at hids
  obtain ⟨attempt, hattempt, hreview⟩ := attemptsOf_ne_nil_iff.mp hlaunched
  obtain ⟨review, hrecorded⟩ := hconsistent.tracked.table.recorded attempt hattempt
  rw [hreview] at hrecorded
  intro stepId record hrecord hmutates
  obtain ⟨hplanned, rfl⟩ := hkept.planned stepId record hrecord
  have hpath := lastReview_reaches hplan category (hbegins.subset hplanned) hmutates
  apply hsteps.satisfied hkept _ (hbegins.path hnodup hkept hrecorded hpath)
  intro same hsame
  rw [hrecorded] at hsame
  cases hsame
  exact hsteps.launched _ review hrecorded hlaunched

/-- A step changes nothing that has been integrated when no merge is left to make. -/
theorem Step.integrates_nothing (h : (storedEngine sha256Hex).Reachable world)
    (hall : AllIntegrate world.run) {action : Action}
    (hstep : (storedEngine sha256Hex).step world action later) :
    later.branch = world.branch ∧ later.run.integrationHead = world.run.integrationHead ∧
      ∀ stepId, landedAt later.run stepId = landedAt world.run stepId := by
  have hconsistent := consistent_reachable h
  have hsound := sound_reachable h
  refine ⟨?_, ?_⟩
  · cases hstep with
    | move hprocess hmove =>
      cases hmove with
      | merged hphase _ _ _ _ =>
        have hmerging := hsound.phase _ hprocess
        rw [hphase] at hmerging
        exact absurd hmerging.1 (hall.not_awaitsMerge _)
      | _ => rfl
    | _ => rfl
  · rcases Step.run_cases hstep with hrun | ⟨transaction, now, rfl, happly⟩
    · rw [hrun]
      exact ⟨rfl, fun _ => rfl⟩
    · have hwrite := hsound.write hconsistent.tracked hstep
      have hnot : ∀ ticket commit, transaction ≠ .recordIntegration ticket commit :=
        fun ticket commit heq => hall.not_awaitsMerge _ (hwrite.integrates ticket commit heq)
      exact ⟨Transaction.apply_integrationHead happly hnot, fun stepId =>
        landedAt_apply happly hconsistent.kept hconsistent.exclusive.single
          fun ticket commit heq => absurd heq (hnot ticket commit)⟩

/-- Before an admission the plan was a beginning of what it is after. -/
private theorem BeginsPlan.of_step {accepts : WorkflowRunState → Prop} {action : Action}
    (h : BeginsPlan later.run plan) (hstep : Step accepts world action later) :
    BeginsPlan world.run plan := by
  rcases Step.run_cases hstep with hrun | ⟨transaction, now, -, happly⟩
  · rwa [← hrun]
  · rcases Transaction.apply_plan happly with hsame | ⟨request, -, hgrown⟩
    · unfold BeginsPlan at h ⊢
      rwa [← hsame]
    · exact List.IsPrefix.trans ⟨_, (grownPlan_steps hgrown).2.symm⟩ h

/-- Every attempt of a last review starts from the integration head. -/
def LastReviewsAtHead (run : WorkflowRunState) : Prop :=
  ∀ attempt ∈ run.attempts, ∀ category, attempt.stepId = reviewStepId rounds category →
    attempt.baseCommit = run.integrationHead

private theorem LastReviewsAtHead.step (h : LastReviewsAtHead world.run)
    (hreachable : (storedEngine sha256Hex).Reachable world)
    (hplan : buildChangeWorkflowPlan taskPlan = .ok plan) (hbegins : BeginsPlan world.run plan)
    {action : Action} (hstep : (storedEngine sha256Hex).step world action later) :
    LastReviewsAtHead later.run := by
  intro attempt hattempt category hreview
  rcases Step.run_cases hstep with hrun | ⟨transaction, now, rfl, happly⟩
  · rw [hrun] at hattempt ⊢
    exact h attempt hattempt category hreview
  · rcases Transaction.apply_attempt happly hattempt with ⟨stored, hstored, hevolves⟩ | ⟨rfl, -⟩
    · -- the review had been launched already, so the step integrates nothing
      have hbefore : stored.stepId = reviewStepId rounds category := by
        rw [← hevolves.same.stepId, hreview]
      have hlaunched := attemptsOf_ne_nil_iff.mpr ⟨stored, hstored, hbefore⟩
      have hall := allIntegrate_of_launched hreachable hplan hbegins hlaunched
      rw [hevolves.same.baseCommit, (Step.integrates_nothing hreachable hall hstep).2.1]
      exact h stored hstored category hbefore
    · obtain ⟨hstarts, hhead⟩ := reservation_startsIntegrated hreachable hstep hattempt
      rw [hstarts.base, hhead]

/-- In a run of a change workflow the last reviews start from the integration head. -/
theorem lastReviewsAtHead_reachable (h : (storedEngine sha256Hex).Reachable world)
    (hplan : buildChangeWorkflowPlan taskPlan = .ok plan) (hbegins : BeginsPlan world.run plan) :
    LastReviewsAtHead world.run := by
  revert hbegins
  apply h.invariant (P := fun world => BeginsPlan world.run plan → LastReviewsAtHead world.run)
  · rintro world hstarts -
    obtain ⟨input, -, hcreated⟩ := hstarts.input
    intro attempt hattempt
    rw [(createWorkflowRunState_ok hcreated).attempts] at hattempt
    cases hattempt
  · intro world action later hreachable ih hstep hbegins
    have hbefore := hbegins.of_step hstep
    exact (ih hbefore).step hreachable hplan hbefore hstep

/-- What is integrated in a world stays as it is. -/
structure KeepsIntegrated (world later : World) : Prop where
  branch : later.branch = world.branch
  head : later.run.integrationHead = world.run.integrationHead
  landed : ∀ stepId, landedAt later.run stepId = landedAt world.run stepId

/-- Once a last review has been launched, nothing is integrated until steps are admitted. -/
theorem keepsIntegrated_runs (h : (storedEngine sha256Hex).Reachable world)
    (hplan : buildChangeWorkflowPlan taskPlan = .ok plan) {category : ReviewCategory}
    (hlaunched : attemptsOf world.run (reviewStepId rounds category) ≠ [])
    (hruns : (storedEngine sha256Hex).Runs world later) (hbegins : BeginsPlan later.run plan) :
    KeepsIntegrated world later ∧ attemptsOf later.run (reviewStepId rounds category) ≠ [] := by
  induction hruns with
  | refl => exact ⟨⟨rfl, rfl, fun _ => rfl⟩, hlaunched⟩
  | @snoc middle later action hruns hstep ih =>
    have hbefore := hbegins.of_step hstep
    obtain ⟨hkeeps, hstill⟩ := ih hbefore
    have hreachable := h.runs hruns
    have hall := allIntegrate_of_launched hreachable hplan hbefore hstill
    obtain ⟨hbranch, hhead, hlanded⟩ := Step.integrates_nothing hreachable hall hstep
    refine ⟨⟨hbranch.trans hkeeps.branch, hhead.trans hkeeps.head, fun stepId =>
      (hlanded stepId).trans (hkeeps.landed stepId)⟩, ?_⟩
    rcases Step.run_cases hstep with hrun | ⟨transaction, now, -, happly⟩
    · rwa [hrun]
    · exact Transaction.apply_attemptsOf_ne_nil happly hstill

/-- Every launch starts from the integration head, which then contains every mutating step the
launched step depends on. In a run of a change workflow, once a last review has been launched
every mutating step is integrated, and nothing more is integrated while the plan stays: all the
last reviews start from the head that finalization checks. -/
theorem launches_start_integrated (h : (storedEngine sha256Hex).Reachable world) :
    (∀ attempt later, (storedEngine sha256Hex).step world (.write (.reserve attempt)) later →
      attempt ∈ later.run.attempts →
        StartsIntegrated world attempt ∧ later.run.integrationHead = world.run.integrationHead) ∧
      ∀ taskPlan, buildChangeWorkflowPlan taskPlan = .ok world.run.plan →
        LastReviewsAtHead world.run ∧
          ∀ category, attemptsOf world.run (reviewStepId rounds category) ≠ [] →
            (∀ stepId record, world.run.steps.get? stepId = some record →
              stepRequiresIntegration world.run.capabilityProfiles record.definition = true →
                IntegratedInto world world.run.integrationHead stepId) ∧
              ∀ later, (storedEngine sha256Hex).Runs world later →
                later.run.plan = world.run.plan → KeepsIntegrated world later := by
  refine ⟨fun attempt later hstep hcreated => reservation_startsIntegrated h hstep hcreated, ?_⟩
  intro taskPlan hplan
  have hbegins : BeginsPlan world.run world.run.plan := List.prefix_rfl
  refine ⟨lastReviewsAtHead_reachable h hplan hbegins, ?_⟩
  intro category hlaunched
  have hall := allIntegrate_of_launched h hplan hbegins hlaunched
  refine ⟨?_, ?_⟩
  · intro stepId record hrecord hmutates
    obtain ⟨commit, hlanded⟩ := (hall stepId record hrecord hmutates).landed hrecord hmutates
    exact integratedInto_head h (hall.nothing_pending (sound_reachable h)) hlanded
  · intro later hruns hsame
    have hlater : BeginsPlan later.run world.run.plan := by
      unfold BeginsPlan
      rw [hsame]
    exact (keepsIntegrated_runs h hplan hlaunched hruns hlater).1

theorem launches_start_integrated_createdRun :
    StartsIntegrated (engineAt createdRun (.reserving (editAttempt .prepared none) []) [])
      (editAttempt .prepared none) :=
  ((launches_start_integrated (createdRun_reachable id)).1 _ _ (createdRun_reserves id)
    (by decide)).1

end LastReviews

end BuildConductor.Lifecycle
