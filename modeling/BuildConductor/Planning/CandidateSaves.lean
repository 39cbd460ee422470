import BuildConductor.Planning.PlanEditor

/-!
# When saving a candidate makes progress

A rejected candidate is merged with a fresh snapshot and saved again. When the snapshot has a later
revision than the save expected, the expected revisions increase along a session and no save is
repeated. When it is the one the candidate was based on, the merge gives the candidate back and the
same save follows at once. `src/src/planning/plan-editor.ts:209-309`.
-/

namespace BuildConductor.Planning

open Base Domain

/-! ## The turns of a session -/

/-- What can follow an answer: the end, a reload, a merge, a choice, or another text to edit. -/
inductive Turn : Waiting → EditorAnswer → Waiting → List EditorCall → Prop
  | saved (current : PlanEditorSnapshot) (plan : TaskPlan) (limit : Nat)
      (saved : PlanEditorSnapshot) (message : String) :
      Turn (.saving current plan limit) (.saved saved) (.returned saved) [.notify message "info"]
  | refused (current : PlanEditorSnapshot) (plan : TaskPlan) (limit : Nat) (message : String) :
      Turn (.saving current plan limit) (.rejected message) (.reloading current plan limit)
        [.notify s!"Could not save plan revision: {message}" "error", .reload]
  | merged (current : PlanEditorSnapshot) (plan : TaskPlan) (limit : Nat)
      (fresh : PlanEditorSnapshot) {after : Waiting} {calls : List EditorCall}
      (h : mergeWithFresh current plan limit fresh = (after, calls)) :
      Turn (.reloading current plan limit) (.reloaded fresh) after calls
  | chosen (fresh : PlanEditorSnapshot) (merged : Merging MergedCandidate)
      (workerConflict : String) (limit : Nat) (selected : String) {after : Waiting}
      {calls : List EditorCall}
      (h : chooseLimit fresh merged workerConflict limit selected = (after, calls)) :
      Turn (.choosing fresh merged workerConflict limit) (.selected (some selected)) after calls
  | read (title : String) (current : PlanEditorSnapshot) (draft : String) (limit : Nat)
      (text : String) (value : Json) {after : Waiting} {calls : List EditorCall}
      (h : persistCandidate current value limit = (after, calls)) :
      Turn (.editing title current draft limit) (.edited (some text)) after calls
  | unread (title : String) (current : PlanEditorSnapshot) (draft : String) (limit : Nat)
      (text message : String) :
      Turn (.editing title current draft limit) (.edited (some text))
        (.editing title current text limit) [.notify message "error", .editor title text]
  | left (waiting : Waiting) (answer : EditorAnswer) (snapshot : PlanEditorSnapshot) :
      Turn waiting answer (.returned snapshot) []
  | threw (waiting : Waiting) (answer : EditorAnswer) (message : String) :
      Turn waiting answer (.threw message) []

theorem turn_of_answerTo {syntaxError : String → String} {waiting after : Waiting}
    {answer : EditorAnswer} {calls : List EditorCall}
    (h : answerTo syntaxError waiting answer = some (after, calls)) :
    Turn waiting answer after calls := by
  cases waiting with
  | saving current plan limit =>
    cases answer with
    | saved saved =>
      cases h
      exact .saved ..
    | rejected message =>
      cases h
      exact .refused ..
    | _ => cases h
  | reloading current plan limit =>
    cases answer with
    | reloaded fresh => exact .merged current plan limit fresh (Option.some.inj h)
    | rejected message =>
      cases h
      exact .threw ..
    | _ => cases h
  | choosing fresh merged workerConflict limit =>
    cases answer with
    | selected option =>
      cases option with
      | none =>
        cases h
        exact .left ..
      | some selected =>
        simp only [answerTo] at h
        split at h
        · cases h
          exact .left ..
        · exact .chosen fresh merged workerConflict limit selected (Option.some.inj h)
    | rejected message =>
      cases h
      exact .threw ..
    | _ => cases h
  | editing title current draft limit =>
    cases answer with
    | edited text =>
      cases text with
      | none =>
        cases h
        exact .left ..
      | some text =>
        simp only [answerTo] at h
        split at h
        · exact .read title current draft limit text _ (Option.some.inj h)
        · cases h
          exact .unread ..
    | rejected message =>
      cases h
      exact .threw ..
    | _ => cases h
  | returned snapshot => cases answer <;> cases h
  | threw message => cases answer <;> cases h

/-! ## Increasing revisions -/

theorem expectedRevisions_append (trace later : List TraceEntry) :
    expectedRevisions (trace ++ later) = expectedRevisions trace ++ expectedRevisions later :=
  List.filterMap_append

/-- The revisions some calls expect. -/
private def revisionsOf (calls : List EditorCall) : List Nat :=
  expectedRevisions (calls.map .call)

/-- The next snapshot has a later revision than every save expected so far. -/
private def Ahead (revisions : List Nat) : Waiting → Prop
  | .saving current _ _ | .reloading current _ _ => ∀ r ∈ revisions, r ≤ current.planRevision
  | .choosing fresh _ _ _ => ∀ r ∈ revisions, r < fresh.planRevision
  | .editing _ current _ _ => ∀ r ∈ revisions, r < current.planRevision
  | .returned _ | .threw _ => True

/-- The saves of a session expect increasing revisions, and the next one a later revision. -/
private structure Advancing (waiting : Waiting) (revisions : List Nat) : Prop where
  increasing : revisions.Pairwise (· < ·)
  ahead : Ahead revisions waiting

/-- Calls that save nothing leave the revisions alone. -/
private theorem Advancing.silent {waiting : Waiting} {revisions : List Nat}
    {calls : List EditorCall} (hincreasing : revisions.Pairwise (· < ·))
    (hahead : Ahead revisions waiting) (hsilent : revisionsOf calls = []) :
    Advancing waiting (revisions ++ revisionsOf calls) := by
  rw [hsilent, List.append_nil]
  exact ⟨hincreasing, hahead⟩

private theorem revisionsOf_notify (message level : String) (calls : List EditorCall) :
    revisionsOf (.notify message level :: calls) = revisionsOf calls := rfl

section Turns

variable {revisions : List Nat} {waiting : Waiting} {calls : List EditorCall}

private theorem persistCandidate_advances {current : PlanEditorSnapshot} {candidate : Json}
    {limit : Nat} (h : persistCandidate current candidate limit = (waiting, calls))
    (hincreasing : revisions.Pairwise (· < ·))
    (hahead : ∀ r ∈ revisions, r < current.planRevision) :
    Advancing waiting (revisions ++ revisionsOf calls) := by
  unfold persistCandidate at h
  split at h
  · cases h
    exact Advancing.silent hincreasing hahead rfl
  · next plan _ =>
    cases h
    have hone : revisionsOf [.save plan limit current.planRevision] = [current.planRevision] := rfl
    rw [hone]
    constructor
    · rw [List.pairwise_append]
      refine ⟨hincreasing, List.pairwise_singleton _ _, ?_⟩
      intro earlier hearlier later hlater
      rw [List.mem_singleton.mp hlater]
      exact hahead earlier hearlier
    · intro r hr
      rw [List.mem_append, List.mem_singleton] at hr
      rcases hr with hr | rfl
      · exact Nat.le_of_lt (hahead r hr)
      · exact Nat.le_refl _

private theorem saveMerged_advances {fresh : PlanEditorSnapshot} {merged : Merging MergedCandidate}
    (h : saveMerged fresh merged = (waiting, calls)) (hincreasing : revisions.Pairwise (· < ·))
    (hahead : ∀ r ∈ revisions, r < fresh.planRevision) :
    Advancing waiting (revisions ++ revisionsOf calls) := by
  unfold saveMerged at h
  split at h
  · generalize hpersist : persistCandidate fresh _ _ = result at h
    cases h
    rw [revisionsOf_notify]
    exact persistCandidate_advances hpersist hincreasing hahead
  · cases h
    exact Advancing.silent hincreasing hahead rfl

private theorem mergeWithFresh_advances {current fresh : PlanEditorSnapshot} {plan : TaskPlan}
    {limit : Nat} (h : mergeWithFresh current plan limit fresh = (waiting, calls))
    (hincreasing : revisions.Pairwise (· < ·)) (hahead : ∀ r ∈ revisions, r < fresh.planRevision) :
    Advancing waiting (revisions ++ revisionsOf calls) := by
  unfold mergeWithFresh at h
  dsimp only at h
  generalize mergeConcurrentCandidate current plan limit fresh = merged at h
  split at h
  · exact saveMerged_advances h hincreasing hahead
  · cases h
    exact Advancing.silent hincreasing hahead rfl

end Turns

/-- An answer after which what is reloaded is later keeps the revisions increasing. -/
private theorem Turn.advances {waiting after : Waiting} {answer : EditorAnswer}
    {calls : List EditorCall} {revisions : List Nat} (h : Turn waiting answer after calls)
    (hlater : ∀ current plan limit fresh, waiting = .reloading current plan limit →
      answer = .reloaded fresh → current.planRevision < fresh.planRevision)
    (hadvancing : Advancing waiting revisions) :
    Advancing after (revisions ++ revisionsOf calls) := by
  obtain ⟨hincreasing, hahead⟩ := hadvancing
  cases h with
  | saved => exact Advancing.silent hincreasing True.intro rfl
  | refused => exact Advancing.silent hincreasing hahead rfl
  | merged current plan limit fresh hmerged =>
    apply mergeWithFresh_advances hmerged hincreasing
    intro r hr
    exact Nat.lt_of_le_of_lt (hahead r hr) (hlater current plan limit fresh rfl rfl)
  | chosen _ _ _ _ _ hchosen => exact saveMerged_advances hchosen hincreasing hahead
  | read _ _ _ _ _ _ hread => exact persistCandidate_advances hread hincreasing hahead
  | unread => exact Advancing.silent hincreasing hahead rfl
  | left => exact Advancing.silent hincreasing True.intro rfl
  | threw => exact Advancing.silent hincreasing True.intro rfl

private theorem advancing_of_reachable {syntaxError : String → String} {session : EditorSession}
    (h : ((sessions syntaxError).restrict ReloadsLater).Reachable session) :
    Advancing session.waiting (expectedRevisions session.trace) := by
  apply h.invariant
  · rintro _ ⟨current, candidate, limit, rfl⟩
    have hstart := persistCandidate_advances (Prod.eta (persistCandidate current candidate limit))
      List.Pairwise.nil nofun
    rwa [List.nil_append] at hstart
  · rintro before answer _ _ hadvancing ⟨hlater, waiting, calls, hanswer, rfl⟩
    have hnext := (turn_of_answerTo hanswer).advances hlater hadvancing
    have hentry : expectedRevisions (.answer answer :: calls.map .call) = revisionsOf calls := rfl
    rwa [expectedRevisions_append, hentry]

/-- Increasing revisions leave no room for a repeated save. -/
private theorem not_repeatsSave {trace : List TraceEntry}
    (h : (expectedRevisions trace).Pairwise (· < ·)) : ¬ RepeatsSave trace := by
  rintro ⟨before, between, after, plan, limit, revision, rfl, -⟩
  rw [expectedRevisions_append] at h
  have hlater := (List.pairwise_append.mp h).2.1
  have hfirst : expectedRevisions (.call (.save plan limit revision) ::
      (between ++ .call (.save plan limit revision) :: after)) =
      revision :: (expectedRevisions between ++ revision :: expectedRevisions after) := by
    show revision :: expectedRevisions (between ++ .call (.save plan limit revision) :: after) = _
    rw [expectedRevisions_append]
    rfl
  rw [hfirst, List.pairwise_cons] at hlater
  exact Nat.lt_irrefl revision (hlater.1 revision (by simp))

/-! ## Repeated saves -/

/-- What a session that saves or reloads has just asked. -/
private def JustSaved (trace : List TraceEntry) : Waiting → Prop
  | .saving current plan limit => validateTaskPlan plan.toJson = .ok plan ∧ ∃ before,
      trace = before ++ [.call (.save plan limit current.planRevision)]
  | .reloading current plan limit => validateTaskPlan plan.toJson = .ok plan ∧
      ∃ before message, trace = before ++ [.call (.save plan limit current.planRevision),
        .answer (.rejected message),
        .call (.notify s!"Could not save plan revision: {message}" "error"), .call .reload]
  | _ => True

private theorem validateTaskPlan_of_result {value : Json} {plan : TaskPlan}
    (h : validateTaskPlanResult value = .ok plan) : validateTaskPlan plan.toJson = .ok plan := by
  have hread : validateTaskPlan value = .ok plan := by
    unfold validateTaskPlan
    rw [h]
  exact validateTaskPlan_of_valid (validateTaskPlan_valid hread)

private theorem result_of_validateTaskPlan {plan : TaskPlan}
    (h : validateTaskPlan plan.toJson = .ok plan) :
    validateTaskPlanResult plan.toJson = .ok plan := by
  unfold validateTaskPlan at h
  split at h
  · next hresult =>
    rw [Except.ok.injEq] at h
    rw [hresult, h]
  · cases h

section Turns

variable {waiting : Waiting} {calls : List EditorCall} (before : List TraceEntry)

private theorem persistCandidate_justSaved {current : PlanEditorSnapshot} {candidate : Json}
    {limit : Nat} (h : persistCandidate current candidate limit = (waiting, calls)) :
    JustSaved (before ++ calls.map .call) waiting := by
  unfold persistCandidate at h
  split at h
  · cases h
    exact True.intro
  · next plan hplan =>
    cases h
    exact ⟨validateTaskPlan_of_result hplan, before, rfl⟩

private theorem saveMerged_justSaved {fresh : PlanEditorSnapshot} {merged : Merging MergedCandidate}
    (h : saveMerged fresh merged = (waiting, calls)) :
    JustSaved (before ++ calls.map .call) waiting := by
  unfold saveMerged at h
  split at h
  · generalize hpersist : persistCandidate fresh _ _ = result at h
    cases h
    rw [List.map_cons, List.append_cons]
    exact persistCandidate_justSaved _ hpersist
  · cases h
    exact True.intro

private theorem mergeWithFresh_justSaved {current fresh : PlanEditorSnapshot} {plan : TaskPlan}
    {limit : Nat} (h : mergeWithFresh current plan limit fresh = (waiting, calls)) :
    JustSaved (before ++ calls.map .call) waiting := by
  unfold mergeWithFresh at h
  dsimp only at h
  generalize mergeConcurrentCandidate current plan limit fresh = merged at h
  split at h
  · exact saveMerged_justSaved before h
  · cases h
    exact True.intro

end Turns

private theorem Turn.justSaved {waiting after : Waiting} {answer : EditorAnswer}
    {calls : List EditorCall} {trace : List TraceEntry} (h : Turn waiting answer after calls)
    (hjust : JustSaved trace waiting) :
    JustSaved (trace ++ .answer answer :: calls.map .call) after := by
  rw [List.append_cons]
  cases h with
  | refused current plan limit message =>
    obtain ⟨hvalid, before, rfl⟩ := hjust
    refine ⟨hvalid, before, message, ?_⟩
    simp only [List.append_assoc, List.map_cons, List.map_nil, List.cons_append, List.nil_append]
  | merged _ _ _ _ hmerged => exact mergeWithFresh_justSaved _ hmerged
  | chosen _ _ _ _ _ hchosen => exact saveMerged_justSaved _ hchosen
  | read _ _ _ _ _ _ hread => exact persistCandidate_justSaved _ hread
  | saved | unread | left | threw => exact True.intro

private theorem justSaved_of_reachable {syntaxError : String → String} {session : EditorSession}
    (h : (sessions syntaxError).Reachable session) : JustSaved session.trace session.waiting := by
  apply h.invariant
  · rintro _ ⟨current, candidate, limit, rfl⟩
    exact persistCandidate_justSaved [] (Prod.eta (persistCandidate current candidate limit))
  · rintro before answer _ - hjust ⟨waiting, calls, hanswer, rfl⟩
    exact (turn_of_answerTo hanswer).justSaved hjust

/-- A snapshot with the plan and the limit the candidate was based on gives the candidate back. -/
private theorem mergeWithFresh_same {current fresh : PlanEditorSnapshot} {plan : TaskPlan}
    (limit : Nat) (hvalid : validateTaskPlan plan.toJson = .ok plan)
    (hunique : (taskOrder current.plan.tasks).Nodup) (hplan : fresh.plan = current.plan)
    (hlimit : fresh.maxConcurrentWorkers = current.maxConcurrentWorkers) :
    mergeWithFresh current plan limit fresh = (.saving fresh plan limit,
      [.notify s!"Merged your unsaved changes with revision {fresh.planRevision}" "info",
        .save plan limit fresh.planRevision]) := by
  have hcandidate : (taskOrder plan.tasks).Nodup := by
    have hids := (validateTaskPlan_valid hvalid).wellFormed.nodup_ids
    unfold Node.ids TaskPlan.nodes at hids
    rwa [List.map_map] at hids
  have hmerged : mergeConcurrentCandidate current plan limit fresh = ⟨⟨plan, limit⟩, []⟩ :=
    mergeConcurrentCandidate_latest hunique hcandidate hplan hlimit
  unfold mergeWithFresh
  rw [hmerged]
  show saveMerged fresh ⟨⟨plan, limit⟩, []⟩ = _
  unfold saveMerged persistCandidate
  rw [if_pos rfl, result_of_validateTaskPlan hvalid]

/-- Whatever is saved and answered, the revisions that saves expect increase as long as what is
reloaded after a rejection is later, so that no save is repeated. A snapshot that is reloaded with
the revision, plan and worker limit the candidate was based on has the same save repeated. -/
theorem candidate_saves_make_progress {syntaxError : String → String} {session : EditorSession}
    (h : (sessions syntaxError).Reachable session) :
    (((sessions syntaxError).restrict ReloadsLater).Reachable session →
      (expectedRevisions session.trace).Pairwise (· < ·) ∧ ¬ RepeatsSave session.trace) ∧
    ∀ current plan limit fresh after, session.waiting = .reloading current plan limit →
      (taskOrder current.plan.tasks).Nodup → fresh.plan = current.plan →
      fresh.maxConcurrentWorkers = current.maxConcurrentWorkers →
      fresh.planRevision = current.planRevision →
      (sessions syntaxError).step session (.reloaded fresh) after → RepeatsSave after.trace := by
  constructor
  · intro hlater
    have hadvancing := advancing_of_reachable hlater
    exact ⟨hadvancing.increasing, not_repeatsSave hadvancing.increasing⟩
  · rintro current plan limit fresh _ hwaiting hunique hplan hlimit hrevision
      ⟨waiting, calls, hanswer, rfl⟩
    have hjust := justSaved_of_reachable h
    rw [hwaiting] at hjust hanswer
    obtain ⟨hvalid, before, message, htrace⟩ := hjust
    have hsame := mergeWithFresh_same limit hvalid hunique hplan hlimit
    rw [answerTo, hsame, Option.some.injEq, Prod.mk.injEq] at hanswer
    rw [← hanswer.2, htrace, hrevision]
    refine ⟨before, [.answer (.rejected message),
      .call (.notify s!"Could not save plan revision: {message}" "error"), .call .reload,
      .answer (.reloaded fresh), .call (.notify
        s!"Merged your unsaved changes with revision {current.planRevision}" "info")],
      [], plan, limit, current.planRevision, ?_, ?_⟩
    · simp
    · simp [TraceEntry.isUserInput]

/-- A plan of one task. -/
private def onePlan (title : String) : TaskPlan :=
  ⟨title,
    [{ id := "edit"
       title := "Edit"
       description := "Edit it"
       dependencies := []
       acceptanceCriteria := ["It is edited"]
       allowedPaths := ["src/"]
       validationCommands := [⟨"npm", ["test"]⟩] }],
    [⟨"npm", ["test"]⟩]⟩

/-- The stored plan. -/
private def storedPlan : PlanEditorSnapshot := ⟨onePlan "Plan", 2, 1⟩

/-- The session in which a new title was saved, after its first turn. -/
private def titleSession : EditorSession := startSession storedPlan (onePlan "Title").toJson 2

private theorem onePlan_valid : validateTaskPlan (onePlan "Title").toJson = .ok (onePlan "Title") := by
  decide +kernel

private theorem titleSession_eq : titleSession =
    ⟨.saving storedPlan (onePlan "Title") 2, [.call (.save (onePlan "Title") 2 1)]⟩ := by
  unfold titleSession startSession persistCandidate
  rw [result_of_validateTaskPlan onePlan_valid]
  rfl

private theorem titleSession_reachable (syntaxError : String → String) :
    (sessions syntaxError).Reachable titleSession :=
  .of_initial ⟨storedPlan, (onePlan "Title").toJson, 2, rfl⟩

/-- The stored plan cannot be written, and is reloaded as it was: the session asks for the same save
as before. -/
private theorem rejected_saves_again {syntaxError : String → String} {trace : List TraceEntry}
    (h : (sessions syntaxError).Reachable ⟨.saving storedPlan (onePlan "Title") 2, trace⟩) :
    (sessions syntaxError).Reachable ⟨.saving storedPlan (onePlan "Title") 2,
      trace ++ [.answer (.rejected "disk full"),
        .call (.notify "Could not save plan revision: disk full" "error"), .call .reload,
        .answer (.reloaded storedPlan),
        .call (.notify "Merged your unsaved changes with revision 1" "info"),
        .call (.save (onePlan "Title") 2 1)]⟩ := by
  have hsame := @mergeWithFresh_same storedPlan storedPlan _ 2 onePlan_valid (by decide) rfl rfl
  have hreloading := h.step ⟨_, _, rfl, rfl⟩ (a := .rejected "disk full")
  refine hreloading.step_to ⟨_, _, congrArg some hsame, rfl⟩ (a := .reloaded storedPlan) ?_
  simp only [List.append_assoc]
  rfl

/-- The session of a rejected title has saved once; with the same snapshot it saves that again. -/
theorem rejected_title_saved_again :
    ((expectedRevisions titleSession.trace).Pairwise (· < ·) ∧ ¬ RepeatsSave titleSession.trace) ∧
    ∀ after, (sessions id).step
        ⟨.reloading storedPlan (onePlan "Title") 2, [.call (.save (onePlan "Title") 2 1),
          .answer (.rejected "disk full"),
          .call (.notify "Could not save plan revision: disk full" "error"), .call .reload]⟩
        (.reloaded storedPlan) after → RepeatsSave after.trace := by
  constructor
  · exact (candidate_saves_make_progress (titleSession_reachable id)).1
      (.of_initial ⟨storedPlan, (onePlan "Title").toJson, 2, rfl⟩)
  · intro after hstep
    have hstart := titleSession_reachable id
    rw [titleSession_eq] at hstart
    have hreloading := hstart.step ⟨_, _, rfl, rfl⟩ (a := .rejected "disk full")
    exact (candidate_saves_make_progress hreloading).2 storedPlan (onePlan "Title") 2 storedPlan
      after rfl (by decide) rfl rfl rfl hstep

/-- A save that is rejected with the plan as it was is asked for again and again, however often it
is rejected, without an input of the user. -/
theorem rejected_save_repeats_forever :
    (∃ session, (sessions id).Reachable session ∧ RepeatsSave session.trace) ∧
    ∀ count, ∃ session, (sessions id).Reachable session ∧
      expectedRevisions session.trace = List.replicate (count + 1) 1 ∧
      (∀ entry ∈ session.trace, entry.isUserInput = false ∧
        ∀ plan limit revision, entry = .call (.save plan limit revision) →
          plan = onePlan "Title" ∧ limit = 2) := by
  have hstart := titleSession_reachable id
  rw [titleSession_eq] at hstart
  constructor
  · refine ⟨_, rejected_saves_again hstart, [], [.answer (.rejected "disk full"),
      .call (.notify "Could not save plan revision: disk full" "error"), .call .reload,
      .answer (.reloaded storedPlan),
      .call (.notify "Merged your unsaved changes with revision 1" "info")], [],
      onePlan "Title", 2, 1, rfl, ?_⟩
    simp [TraceEntry.isUserInput]
  · intro count
    have hrun : ∃ trace,
        (sessions id).Reachable ⟨.saving storedPlan (onePlan "Title") 2, trace⟩ ∧
        expectedRevisions trace = List.replicate (count + 1) 1 ∧
        (∀ entry ∈ trace, entry.isUserInput = false ∧
          ∀ plan limit revision, entry = .call (.save plan limit revision) →
            plan = onePlan "Title" ∧ limit = 2) := by
      induction count with
      | zero =>
        refine ⟨_, hstart, rfl, ?_⟩
        simp [TraceEntry.isUserInput]
      | succ count ih =>
        obtain ⟨trace, hreach, hrevisions, hentries⟩ := ih
        refine ⟨_, rejected_saves_again hreach, ?_, ?_⟩
        · rw [expectedRevisions_append, hrevisions, List.replicate_succ' (n := count + 1)]
          rfl
        · intro entry hentry
          rcases List.mem_append.mp hentry with hentry | hentry
          · exact hentries entry hentry
          · simp only [List.mem_cons, List.not_mem_nil, or_false] at hentry
            rcases hentry with rfl | rfl | rfl | rfl | rfl | rfl
            all_goals simp [TraceEntry.isUserInput]
    obtain ⟨trace, hreach, hrevisions, hentries⟩ := hrun
    exact ⟨_, hreach, hrevisions, hentries⟩

end BuildConductor.Planning
