import BuildConductor.Domain.CanonicalPaths
import BuildConductor.Engine.Scheduler
import BuildConductor.Planning.Scopes

/-!
# Overlapping scopes

Two scopes overlap when they admit a file in common, for the planner and for the locks of the
scheduler. The scope check reports each pair of tasks that no dependency orders and whose scopes
admit a file in common. `src/src/planning/plan-repository-validation.ts:44-186`,
`src/src/engine/scheduler.ts:84-93`, `src/src/domain/paths.ts:1-13`.
-/

namespace BuildConductor.Planning

open Base Domain

/-! ## Files -/

/-- A path that names a file: a trailing slash names a directory. -/
def IsFilePath (path : String) : Prop := endsWith path "/" = false

/-- A file of a repository under its only name. -/
def IsRepositoryFile (path : String) : Prop := IsCanonicalPath path ∧ IsFilePath path

/-- Two lists of scopes admit a file in common. -/
def ShareFile (isFile : String → Prop) (left right : List String) : Prop :=
  ∃ file, isFile file ∧ pathIsAllowed file left = true ∧ pathIsAllowed file right = true

theorem pathIsAllowed_iff {file : String} {scopes : List String} :
    pathIsAllowed file scopes = true ↔ ∃ scope ∈ scopes, pathIsAllowed file [scope] = true := by
  simp [pathIsAllowed]

private theorem pathIsAllowed_directory {file scope : String} (h : endsWith scope "/" = true) :
    pathIsAllowed file [scope] = startsWith file scope := by
  simp [pathIsAllowed, h]

private theorem pathIsAllowed_file {file scope : String} (h : endsWith scope "/" = false) :
    pathIsAllowed file [scope] = decide (file = scope) := by
  simp [pathIsAllowed, h]

/-! ## A file for every scope -/

/-- A file a scope admits: the scope itself, or a file in the directory. -/
def sampleFile (scope : String) : String := if endsWith scope "/" then scope ++ "x" else scope

private theorem startsWith_append (s t : String) : startsWith (s ++ t) s = true := by
  rw [startsWith_iff]
  exact ⟨t.toList, String.toList_append⟩

private theorem startsWith_trans {s t u : String} (h : startsWith t s = true)
    (h' : startsWith u t = true) : startsWith u s = true := by
  rw [startsWith_iff] at h h' ⊢
  obtain ⟨middle, hmiddle⟩ := h
  obtain ⟨rest, hrest⟩ := h'
  exact ⟨middle ++ rest, by rw [hrest, hmiddle, List.append_assoc]⟩

theorem isFilePath_sampleFile (scope : String) : IsFilePath (sampleFile scope) := by
  unfold IsFilePath sampleFile
  split
  · rw [← Bool.not_eq_true, endsWith_slash_iff]
    rintro ⟨front, hfront⟩
    rw [String.toList_append] at hfront
    have hlast := congrArg List.getLast? hfront
    simp at hlast
  · next h => exact Bool.eq_false_iff.mpr h

/-- Whatever starts with a scope has a file that starts with it. -/
private theorem startsWith_sampleFile {scope other : String} (h : startsWith other scope = true) :
    startsWith (sampleFile other) scope = true := by
  unfold sampleFile
  split
  · exact startsWith_trans h (startsWith_append other "x")
  · exact h

theorem sampleFile_allowed (scope : String) : pathIsAllowed (sampleFile scope) [scope] = true := by
  by_cases hslash : endsWith scope "/" = true
  · rw [pathIsAllowed_directory hslash, sampleFile, if_pos hslash]
    exact startsWith_append scope "x"
  · rw [pathIsAllowed_file (Bool.eq_false_iff.mpr hslash), sampleFile, if_neg hslash]
    exact decide_eq_true rfl

private theorem win32IsAbsolute_append {front : List Char} (hne : front ≠ []) (c : Char) :
    win32IsAbsolute (String.ofList (front ++ ['/', c])) =
      win32IsAbsolute (String.ofList (front ++ ['/'])) := by
  unfold win32IsAbsolute
  rw [String.toList_ofList, String.toList_ofList]
  cases front with
  | nil => exact absurd rfl hne
  | cons first rest =>
    cases rest with
    | nil => rfl
    | cons second rest =>
      by_cases hdrive : second = ':'
      · subst hdrive
        cases rest with
        | nil => rfl
        | cons third rest => rfl
      · simp [hdrive]

/-- The file a canonical scope admits is a file of the repository. -/
theorem isRepositoryFile_sampleFile {scope : String} (h : IsCanonicalPath scope) :
    IsRepositoryFile (sampleFile scope) := by
  refine ⟨?_, isFilePath_sampleFile scope⟩
  unfold sampleFile
  split
  · next hslash =>
    obtain ⟨names, slashes, hslashes, hspells⟩ := h
    obtain ⟨front, hfront⟩ := endsWith_slash_iff.mp hslash
    have hsegments := hspells.segments
    rw [hfront, segments_append_trailing] at hsegments
    have hnames : segments front = names := by
      have hone : slashes = 1 := by
        by_contra hother
        have hzero : slashes = 0 := by omega
        rw [hzero, List.replicate_zero, List.append_nil] at hsegments
        have hempty : [] ∈ names := by
          rw [← hsegments]
          simp
        exact (hspells.plain [] hempty).ne_nil rfl
      rw [hone] at hsegments
      exact (List.append_inj' hsegments rfl).1
    have htext : (scope ++ "x").toList = front ++ '/' :: ['x'] := by
      rw [String.toList_append, hfront, List.append_assoc]
      rfl
    have hne : front ≠ [] := by
      rintro rfl
      have hposix := hspells.relative.1
      unfold posixIsAbsolute startsWith at hposix
      rw [hfront] at hposix
      cases hposix
    refine ⟨names ++ [['x']], 0, by omega, ?_, by simp, ?_, ?_, ?_⟩
    · rw [htext, segments_append_slash, hnames, List.replicate_zero, List.append_nil]
      rfl
    · intro name hname
      rcases List.mem_append.mp hname with hold | hnew
      · exact hspells.plain name hold
      · rw [List.mem_singleton] at hnew
        subst hnew
        refine ⟨⟨by decide, by decide, by decide⟩, ?_⟩
        intro c hc
        rw [List.mem_singleton.mp hc]
        rfl
    · constructor
      · have hposix := hspells.relative.1
        unfold posixIsAbsolute startsWith at hposix ⊢
        rw [htext]
        rw [hfront] at hposix
        cases front with
        | nil => exact absurd rfl hne
        | cons first rest => exact hposix
      · have hwin := hspells.relative.2
        have hscope : scope = String.ofList (front ++ ['/']) := by
          rw [← hfront, String.ofList_toList]
        have hfile : scope ++ "x" = String.ofList (front ++ ['/', 'x']) := by
          apply String.toList_inj.mp
          rw [htext, String.toList_ofList]
        rw [hfile, win32IsAbsolute_append hne, ← hscope]
        exact hwin
    · rw [List.head?_append_of_ne_nil _ hspells.nonempty]
      exact hspells.outside
  · exact h

/-! ## Overlap -/

/-- The planner and the scheduler test overlap in the same way. -/
theorem mutationScopesOverlap_eq_pathLocksConflict (left right : String) :
    mutationScopesOverlap left right = Engine.pathLocksConflict left right := rfl

theorem mutationScopesOverlap_iff {left right : String} :
    mutationScopesOverlap left right = true ↔ left = right ∨
      (endsWith left "/" = true ∧ startsWith right left = true) ∨
        (endsWith right "/" = true ∧ startsWith left right = true) := by
  simp [mutationScopesOverlap, or_assoc]

/-- A scope inside a directory admits a file that the directory admits. -/
private theorem sampleFile_allowed_both {outer inner : String} (hslash : endsWith outer "/" = true)
    (hstart : startsWith inner outer = true) :
    pathIsAllowed (sampleFile inner) [outer] = true ∧
      pathIsAllowed (sampleFile inner) [inner] = true := by
  rw [pathIsAllowed_directory hslash]
  exact ⟨startsWith_sampleFile hstart, sampleFile_allowed inner⟩

/-- Overlapping scopes admit the sample file of one of them. -/
theorem sampleFile_of_overlap {left right : String} (h : mutationScopesOverlap left right = true) :
    ∃ scope, (scope = left ∨ scope = right) ∧ pathIsAllowed (sampleFile scope) [left] = true ∧
      pathIsAllowed (sampleFile scope) [right] = true := by
  rcases mutationScopesOverlap_iff.mp h with rfl | ⟨hslash, hstart⟩ | ⟨hslash, hstart⟩
  · exact ⟨left, Or.inl rfl, sampleFile_allowed left, sampleFile_allowed left⟩
  · exact ⟨right, Or.inr rfl, sampleFile_allowed_both hslash hstart⟩
  · exact ⟨left, Or.inl rfl, (sampleFile_allowed_both hslash hstart).symm⟩

/-- Scopes that admit one path overlap. -/
theorem overlap_of_allowed {left right file : String} (hleft : pathIsAllowed file [left] = true)
    (hright : pathIsAllowed file [right] = true) : mutationScopesOverlap left right = true := by
  rw [mutationScopesOverlap_iff]
  by_cases hl : endsWith left "/" = true
  · rw [pathIsAllowed_directory hl, startsWith_iff] at hleft
    obtain ⟨rest, hrest⟩ := hleft
    by_cases hr : endsWith right "/" = true
    · rw [pathIsAllowed_directory hr, startsWith_iff] at hright
      obtain ⟨more, hmore⟩ := hright
      rw [hrest] at hmore
      rcases List.append_eq_append_iff.mp hmore with ⟨between, hbetween, -⟩ | ⟨between, hbetween, -⟩
      · exact Or.inr (Or.inl ⟨hl, startsWith_iff.mpr ⟨between, hbetween⟩⟩)
      · exact Or.inr (Or.inr ⟨hr, startsWith_iff.mpr ⟨between, hbetween⟩⟩)
    · rw [pathIsAllowed_file (Bool.eq_false_iff.mpr hr), decide_eq_true_eq] at hright
      subst hright
      exact Or.inr (Or.inl ⟨hl, startsWith_iff.mpr ⟨rest, hrest⟩⟩)
  · rw [pathIsAllowed_file (Bool.eq_false_iff.mpr hl), decide_eq_true_eq] at hleft
    subst hleft
    by_cases hr : endsWith right "/" = true
    · rw [pathIsAllowed_directory hr] at hright
      exact Or.inr (Or.inr ⟨hr, hright⟩)
    · rw [pathIsAllowed_file (Bool.eq_false_iff.mpr hr), decide_eq_true_eq] at hright
      exact Or.inl hright

/-- Scopes share a file of any kind that has the sample files when two of them overlap. -/
theorem shareFile_iff {isFile : String → Prop} {left right : List String}
    (hfile : ∀ scope, scope ∈ left ∨ scope ∈ right → isFile (sampleFile scope)) :
    ShareFile isFile left right ↔ ∃ l ∈ left, ∃ r ∈ right, mutationScopesOverlap l r = true := by
  constructor
  · rintro ⟨file, -, hleft, hright⟩
    obtain ⟨l, hl, hleft⟩ := pathIsAllowed_iff.mp hleft
    obtain ⟨r, hr, hright⟩ := pathIsAllowed_iff.mp hright
    exact ⟨l, hl, r, hr, overlap_of_allowed hleft hright⟩
  · rintro ⟨l, hl, r, hr, hoverlap⟩
    obtain ⟨scope, hscope, hleft, hright⟩ := sampleFile_of_overlap hoverlap
    refine ⟨sampleFile scope, ?_, pathIsAllowed_iff.mpr ⟨l, hl, hleft⟩,
      pathIsAllowed_iff.mpr ⟨r, hr, hright⟩⟩
    apply hfile
    rcases hscope with rfl | rfl
    · exact Or.inl hl
    · exact Or.inr hr

/-! ## The scope check -/

/-- Two tasks that no chain of dependencies orders. -/
def Unordered (plan : TaskPlan) (left right : TaskDefinition) : Prop :=
  ¬ Reaches plan.nodes left.id right.id ∧ ¬ Reaches plan.nodes right.id left.id

/-- The issues report the pairs of tasks that conflict, each once and in the order of the plan. -/
structure ReportsConflicts (plan : TaskPlan) (issues : List PlanRepositoryIssue)
    (conflict : TaskDefinition → TaskDefinition → Prop) : Prop where
  reported : ∀ left right, [left, right].Sublist plan.tasks →
    ((∃ issue ∈ issues, issue.taskIds = [left.id, right.id]) ↔ conflict left right)
  only : ∀ issue ∈ issues, issue.code = .conflictingMutationScopes ∧
    ∃ left right, [left, right].Sublist plan.tasks ∧ issue.taskIds = [left.id, right.id]
  once : (issues.map (·.taskIds)).Nodup

private theorem mem_scopeIssue {reachable : Reachability} {left right : TaskDefinition}
    {issue : PlanRepositoryIssue} (h : issue ∈ scopeIssue reachable left right) :
    issue.code = .conflictingMutationScopes ∧ issue.taskIds = [left.id, right.id] := by
  unfold scopeIssue at h
  split at h
  · cases h
  · split at h
    · cases h
    · rw [List.mem_singleton.mp h]
      exact ⟨rfl, rfl⟩

private theorem mem_scopeIssues_iff {reachable : Reachability} {tasks : List TaskDefinition}
    {issue : PlanRepositoryIssue} :
    issue ∈ scopeIssues reachable tasks ↔ ∃ left right, [left, right].Sublist tasks ∧
      issue ∈ scopeIssue reachable left right := by
  induction tasks with
  | nil => simp [scopeIssues]
  | cons first rest ih =>
    rw [scopeIssues, List.mem_append, List.mem_flatMap, ih]
    constructor
    · rintro (⟨right, hright, hissue⟩ | ⟨left, right, hpair, hissue⟩)
      · exact ⟨first, right, (List.singleton_sublist.mpr hright).cons_cons first, hissue⟩
      · exact ⟨left, right, hpair.cons first, hissue⟩
    · rintro ⟨left, right, hpair, hissue⟩
      rcases List.sublist_cons_iff.mp hpair with hrest | ⟨others, hothers, hrest⟩
      · exact Or.inr ⟨left, right, hrest, hissue⟩
      · obtain ⟨rfl, rfl⟩ := List.cons.inj hothers
        exact Or.inl ⟨right, List.singleton_sublist.mp hrest, hissue⟩

private theorem length_scopeIssue_le (reachable : Reachability) (left right : TaskDefinition) :
    (scopeIssue reachable left right).map (·.taskIds) = [] ∨
      (scopeIssue reachable left right).map (·.taskIds) = [[left.id, right.id]] := by
  unfold scopeIssue
  split
  · exact Or.inl rfl
  · split
    · exact Or.inl rfl
    · exact Or.inr rfl

private theorem nodup_scopeIssues {reachable : Reachability} {tasks : List TaskDefinition}
    (h : (tasks.map fun task => task.id).Nodup) :
    ((scopeIssues reachable tasks).map (·.taskIds)).Nodup := by
  induction tasks with
  | nil => exact List.nodup_nil
  | cons first rest ih =>
    rw [List.map_cons, List.nodup_cons] at h
    rw [scopeIssues, List.map_append, List.nodup_append]
    have hsublist : ∀ others : List TaskDefinition,
        ((others.flatMap (scopeIssue reachable first)).map (·.taskIds)).Sublist
          (others.map fun right => [first.id, right.id]) := by
      intro others
      induction others with
      | nil => exact List.Sublist.refl _
      | cons right others ihOthers =>
        rw [List.flatMap_cons, List.map_append, List.map_cons]
        rcases length_scopeIssue_le reachable first right with hnone | hone
        · rw [hnone]
          exact ihOthers.cons _
        · rw [hone]
          exact ihOthers.cons_cons _
    refine ⟨(hsublist rest).nodup ?_, ih h.2, ?_⟩
    · have hpairs : (rest.map fun right => [first.id, right.id]) =
          (rest.map fun task => task.id).map fun id => [first.id, id] := by
        rw [List.map_map]
        rfl
      rw [hpairs]
      exact h.2.map fun a b hab => by simpa using hab
    · rintro ids hfirst ids' hlater rfl
      obtain ⟨right, -, rfl⟩ := List.mem_map.mp ((hsublist rest).subset hfirst)
      obtain ⟨issue, hissue, hids⟩ := List.mem_map.mp hlater
      obtain ⟨left, other, hpair, hmem⟩ := mem_scopeIssues_iff.mp hissue
      rw [(mem_scopeIssue hmem).2, List.cons.injEq] at hids
      apply h.1
      rw [← hids.1]
      exact List.mem_map_of_mem (hpair.subset List.mem_cons_self)

section Plan

variable {plan : TaskPlan} (hwf : Node.WellFormed plan.nodes) (hac : Node.Acyclic plan.nodes)

include hwf hac

private theorem exists_scopeIssue_iff {left right : TaskDefinition} (hleft : left ∈ plan.tasks)
    (hright : right ∈ plan.tasks) :
    (∃ issue, issue ∈ scopeIssue (reachabilityFrom plan.nodes) left right) ↔
      Unordered plan left right ∧ ∃ l ∈ left.allowedPaths, ∃ r ∈ right.allowedPaths,
        mutationScopesOverlap l r = true := by
  rw [← not_iff_not, not_exists, ← List.eq_nil_iff_forall_not_mem,
    scopeIssue_eq_nil_iff hwf hac hleft hright]
  unfold CompatibleScopes Unordered
  rw [not_and, and_imp]
  simp only [not_exists, not_and, Bool.not_eq_true]

/-- The scope check reports the unordered pairs of tasks that share a file, of any kind that the
sample files of the scopes are of. -/
theorem validateMutationScopes_reports {isFile : String → Prop}
    (hfile : ∀ task ∈ plan.tasks, ∀ scope ∈ task.allowedPaths, isFile (sampleFile scope)) :
    ReportsConflicts plan (validateMutationScopes plan) fun left right =>
      Unordered plan left right ∧ ShareFile isFile left.allowedPaths right.allowedPaths := by
  refine ⟨?_, ?_, nodup_scopeIssues (nodup_taskIds hwf)⟩
  · intro left right hpair
    have hleft : left ∈ plan.tasks := hpair.subset (by simp)
    have hright : right ∈ plan.tasks := hpair.subset (by simp)
    rw [shareFile_iff (by
      rintro scope (hscope | hscope)
      · exact hfile left hleft scope hscope
      · exact hfile right hright scope hscope), ← exists_scopeIssue_iff hwf hac hleft hright]
    constructor
    · rintro ⟨issue, hissue, hids⟩
      obtain ⟨first, second, hsublist, hmem⟩ := mem_scopeIssues_iff.mp hissue
      rw [(mem_scopeIssue hmem).2, List.cons.injEq, List.cons.injEq] at hids
      have hfirst : first = left := List.inj_on_of_nodup_map (nodup_taskIds hwf)
        (hsublist.subset (by simp)) hleft hids.1
      have hsecond : second = right := List.inj_on_of_nodup_map (nodup_taskIds hwf)
        (hsublist.subset (by simp)) hright hids.2.1
      rw [hfirst, hsecond] at hmem
      exact ⟨issue, hmem⟩
    · rintro ⟨issue, hissue⟩
      exact ⟨issue, mem_scopeIssues_iff.mpr ⟨left, right, hpair, hissue⟩, (mem_scopeIssue hissue).2⟩
  · intro issue hissue
    obtain ⟨left, right, hpair, hmem⟩ := mem_scopeIssues_iff.mp hissue
    exact ⟨(mem_scopeIssue hmem).1, left, right, hpair, (mem_scopeIssue hmem).2⟩

end Plan

/-- Overlap is exact. Canonical scopes overlap, for the planner and for the scheduler, when they
admit a file of the repository in common. The scope check of an acyclic plan reports the pairs of
tasks that no chain of dependencies orders and that share a file, and for canonical scopes this is a
file of the repository. -/
theorem scope_overlap_exact :
    (∀ left right, IsCanonicalPath left → IsCanonicalPath right →
      mutationScopesOverlap left right = Engine.pathLocksConflict left right ∧
        (mutationScopesOverlap left right = true ↔ ShareFile IsRepositoryFile [left] [right])) ∧
    ∀ plan : TaskPlan, Node.WellFormed plan.nodes → Node.Acyclic plan.nodes →
      (∀ task ∈ plan.tasks, ∃ collected, (reachabilityFrom plan.nodes).get? task.id = some collected ∧
        ∀ x, x ∈ collected ↔ Reaches plan.nodes task.id x) ∧
      ReportsConflicts plan (validateMutationScopes plan) (fun left right =>
        Unordered plan left right ∧ ShareFile IsFilePath left.allowedPaths right.allowedPaths) ∧
      ((∀ task ∈ plan.tasks, ∀ scope ∈ task.allowedPaths, IsCanonicalPath scope) →
        ReportsConflicts plan (validateMutationScopes plan) fun left right =>
          Unordered plan left right ∧
            ShareFile IsRepositoryFile left.allowedPaths right.allowedPaths) := by
  constructor
  · intro left right hleft hright
    refine ⟨mutationScopesOverlap_eq_pathLocksConflict left right, ?_⟩
    rw [shareFile_iff (by
      rintro scope (hscope | hscope)
      · rw [List.mem_singleton.mp hscope]
        exact isRepositoryFile_sampleFile hleft
      · rw [List.mem_singleton.mp hscope]
        exact isRepositoryFile_sampleFile hright)]
    simp
  · intro plan hwf hac
    refine ⟨?_, ?_, ?_⟩
    · intro task htask
      apply reachabilityFrom_complete hwf hac
      unfold Node.ids TaskPlan.nodes
      rw [List.map_map]
      exact List.mem_map_of_mem htask
    · exact validateMutationScopes_reports hwf hac fun _ _ scope _ => isFilePath_sampleFile scope
    · intro hcanonical
      exact validateMutationScopes_reports hwf hac fun task htask scope hscope =>
        isRepositoryFile_sampleFile (hcanonical task htask scope hscope)

end BuildConductor.Planning
