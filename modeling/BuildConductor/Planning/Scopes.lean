import BuildConductor.Base.OrderedRecord
import BuildConductor.Domain.DagOrder
import BuildConductor.Domain.TaskPlans
import Mathlib.Data.List.Pairwise
import Mathlib.Logic.Relation

/-!
# Mutation scopes

Tasks that no dependency orders may run at the same time, so their approved paths must not meet.
`src/src/planning/plan-repository-validation.ts:44-186`.
-/

namespace BuildConductor.Planning

open Base Domain

/-- `src/src/planning/plan-repository-validation.ts:4-9`. -/
inductive PlanRepositoryIssueCode
  | unknownPath | undetectedCommand | conflictingMutationScopes
deriving DecidableEq, Repr

/-- The issues of a scope check are errors. `src/src/planning/plan-repository-validation.ts:12-18`. -/
structure PlanRepositoryIssue where
  code : PlanRepositoryIssueCode
  message : String
  taskIds : List String
deriving DecidableEq, Repr

/-- Whether two approved scopes can touch one file.
`src/src/planning/plan-repository-validation.ts:44-56`. -/
def mutationScopesOverlap (left right : String) : Bool :=
  left = right || (endsWith left "/" && startsWith right left) ||
    (endsWith right "/" && startsWith left right)

/-- The sets `reachabilityFrom` fills, each as the list of its ids in insertion order. -/
abbrev Reachability := OrderedRecord String (List String)

/-- `collected.add(id)` on the set of `owner`. -/
def collect (owner : String) (reachable : Reachability) (id : String) : Reachability :=
  let collected := (reachable.get? owner).getD []
  if id ∈ collected then reachable else reachable.set owner (collected ++ [id])

/-- One step of the loop over the dependencies of `owner`: the dependency, and everything its
visit collects. -/
def collectDependency (visit : Reachability → String → Reachability) (owner : String)
    (reachable : Reachability) (dependency : String) : Reachability :=
  let visited := visit (collect owner reachable dependency) dependency
  ((visited.get? dependency).getD []).foldl (collect owner) visited

/-- `visit`. Every visit that goes deeper adds a key, so the fuel bounds its depth.
`src/src/planning/plan-repository-validation.ts:63-78`. -/
def visitReachable (nodes : List (Node String)) : Nat → Reachability → String → Reachability
  | 0, reachable, _ => reachable
  | fuel + 1, reachable, id =>
    if (reachable.get? id).isSome then reachable
    else (dependenciesOf nodes id).foldl (collectDependency (visitReachable nodes fuel) id)
      (reachable.set id [])

/-- `src/src/planning/plan-repository-validation.ts:58-83`. -/
def reachabilityFrom (nodes : List (Node String)) : Reachability :=
  (Node.ids nodes).foldl (visitReachable nodes (nodes.length + 1)) .empty

/-- The pairs of paths two tasks share. `src/src/planning/plan-repository-validation.ts:167-174`. -/
def overlappingPaths (left right : TaskDefinition) : List (String × String) :=
  left.allowedPaths.flatMap fun leftPath =>
    (right.allowedPaths.filter (mutationScopesOverlap leftPath)).map fun rightPath =>
      (leftPath, rightPath)

/-- The issue of one pair of tasks. `src/src/planning/plan-repository-validation.ts:160-183`. -/
def scopeIssue (reachable : Reachability) (left right : TaskDefinition) :
    List PlanRepositoryIssue :=
  if right.id ∈ (reachable.get? left.id).getD [] ∨ left.id ∈ (reachable.get? right.id).getD [] then
    []
  else if overlappingPaths left right = [] then []
  else
    let overlaps := (overlappingPaths left right).map fun (l, r) => s!"{l} vs {r}"
    [{ code := .conflictingMutationScopes
       message :=
         s!"tasks {left.id} and {right.id} may run concurrently (no dependency orders them) but their allowed paths overlap: " ++
           String.intercalate "; " overlaps
       taskIds := [left.id, right.id] }]

/-- Every task against the tasks after it. -/
def scopeIssues (reachable : Reachability) : List TaskDefinition → List PlanRepositoryIssue
  | [] => []
  | left :: rest => rest.flatMap (scopeIssue reachable left) ++ scopeIssues reachable rest

/-- `src/src/planning/plan-repository-validation.ts:152-186`. -/
def validateMutationScopes (plan : TaskPlan) : List PlanRepositoryIssue :=
  scopeIssues (reachabilityFrom plan.nodes) plan.tasks

/-! ## What the sets hold -/

/-- A node of the graph declares a dependency. -/
def Edge (nodes : List (Node String)) (id dependency : String) : Prop :=
  ∃ n ∈ nodes, n.id = id ∧ dependency ∈ n.dependencies

/-- One id depends on another, directly or through others. -/
def Reaches (nodes : List (Node String)) : String → String → Prop := Relation.TransGen (Edge nodes)

/-- The stored set of an id is everything it reaches. -/
def Complete (nodes : List (Node String)) (reachable : Reachability) (id : String) : Prop :=
  ∀ collected, reachable.get? id = some collected → ∀ x, x ∈ collected ↔ Reaches nodes id x

section Collect

variable {reachable : Reachability} {owner : String}

private theorem get?_collect_of_ne (id : String) {x : String} (h : x ≠ owner) :
    (collect owner reachable id).get? x = reachable.get? x := by
  simp only [collect]
  split
  · rfl
  · exact OrderedRecord.get?_set_of_ne _ _ h

private theorem get?_collect {collected : List String} (h : reachable.get? owner = some collected)
    (id : String) : ∃ grown, (collect owner reachable id).get? owner = some grown ∧
      ∀ x, x ∈ grown ↔ x ∈ collected ∨ x = id := by
  by_cases hid : id ∈ collected
  · refine ⟨collected, ?_, ?_⟩
    · simp only [collect, h, Option.getD_some, if_pos hid]
    · intro x
      constructor
      · exact Or.inl
      · rintro (hx | rfl)
        · exact hx
        · exact hid
  · refine ⟨collected ++ [id], ?_, ?_⟩
    · simp only [collect, h, Option.getD_some, if_neg hid, OrderedRecord.get?_set_self]
    · intro x
      simp

private theorem get?_collectAll_of_ne (ids : List String) {x : String} (h : x ≠ owner) :
    (ids.foldl (collect owner) reachable).get? x = reachable.get? x := by
  induction ids generalizing reachable with
  | nil => rfl
  | cons id rest ih => rw [List.foldl_cons, ih, get?_collect_of_ne id h]

private theorem get?_collectAll {collected : List String}
    (h : reachable.get? owner = some collected) (ids : List String) :
    ∃ grown, (ids.foldl (collect owner) reachable).get? owner = some grown ∧
      ∀ x, x ∈ grown ↔ x ∈ collected ∨ x ∈ ids := by
  induction ids generalizing reachable collected with
  | nil => exact ⟨collected, h, by simp⟩
  | cons id rest ih =>
    obtain ⟨first, hfirst, hfirstmem⟩ := get?_collect h id
    obtain ⟨grown, hgrown, hmem⟩ := ih hfirst
    refine ⟨grown, hgrown, ?_⟩
    intro x
    rw [hmem, hfirstmem, List.mem_cons, or_assoc]

end Collect

variable {nodes : List (Node String)}

/-- A visit starting at `id` leaves every set it found alone, completes every set it adds, and
adds one for `id`. -/
structure Visited (nodes : List (Node String)) (before after : Reachability) (id : String) :
    Prop where
  kept : ∀ x, (before.get? x).isSome → after.get? x = before.get? x
  complete : ∀ x, before.get? x = none → Complete nodes after x
  found : (after.get? id).isSome

/-- What the loop over the dependencies of `owner` has done after some of them. -/
private structure Collecting (nodes : List (Node String)) (before after : Reachability)
    (owner : String) (done : List String) : Prop where
  kept : ∀ x, x ≠ owner → (before.get? x).isSome → after.get? x = before.get? x
  complete : ∀ x, x ≠ owner → before.get? x = none → Complete nodes after x
  collected : ∃ set, after.get? owner = some set ∧
    ∀ x, x ∈ set ↔ ∃ d ∈ done, x = d ∨ Reaches nodes d x

private theorem Collecting.step {before after : Reachability} {owner dependency : String}
    {done : List String} {below : String → Prop} {visit : Reachability → String → Reachability}
    (h : Collecting nodes before after owner done) (howner : ¬ below owner) (hbelow : below dependency)
    (hcomplete : ∀ x, below x → Complete nodes before x)
    (hvisit : ∀ reachable, (∀ x, below x → Complete nodes reachable x) →
      Visited nodes reachable (visit reachable dependency) dependency) :
    Collecting nodes before (collectDependency visit owner after dependency) owner
      (done ++ [dependency]) := by
  obtain ⟨set, hset, hmem⟩ := h.collected
  obtain ⟨grown, hgrown, hgrownmem⟩ := get?_collect hset dependency
  have hcollected : ∀ x, below x → Complete nodes (collect owner after dependency) x := by
    intro x hx found hfound
    have hne : x ≠ owner := fun hxo => howner (hxo ▸ hx)
    rw [get?_collect_of_ne dependency hne] at hfound
    cases hbefore : before.get? x with
    | none => exact h.complete x hne hbefore found hfound
    | some known =>
      rw [h.kept x hne (by rw [hbefore]; rfl)] at hfound
      exact hcomplete x hx found hfound
  have hvisited := hvisit _ hcollected
  obtain ⟨reached, hreached⟩ := Option.isSome_iff_exists.mp hvisited.found
  have hreachedmem : ∀ x, x ∈ reached ↔ Reaches nodes dependency x := by
    by_cases hknown : ((collect owner after dependency).get? dependency).isSome
    · rw [hvisited.kept dependency hknown] at hreached
      exact hcollected dependency hbelow reached hreached
    · exact hvisited.complete dependency (by simpa using hknown) reached hreached
  have hkept : (visit (collect owner after dependency) dependency).get? owner = some grown := by
    rw [hvisited.kept owner (by rw [hgrown]; rfl), hgrown]
  obtain ⟨final, hfinal, hfinalmem⟩ := get?_collectAll hkept reached
  have heq : collectDependency visit owner after dependency =
      reached.foldl (collect owner) (visit (collect owner after dependency) dependency) := by
    simp only [collectDependency, hreached, Option.getD_some]
  rw [heq]
  refine ⟨?_, ?_, final, hfinal, ?_⟩
  · intro x hx hknown
    have hafter := h.kept x hx hknown
    rw [get?_collectAll_of_ne reached hx, hvisited.kept x, get?_collect_of_ne dependency hx, hafter]
    rw [get?_collect_of_ne dependency hx, hafter]
    exact hknown
  · intro x hx hnew found hfound
    rw [get?_collectAll_of_ne reached hx] at hfound
    by_cases hknown : ((collect owner after dependency).get? x).isSome
    · rw [hvisited.kept x hknown, get?_collect_of_ne dependency hx] at hfound
      exact h.complete x hx hnew found hfound
    · exact hvisited.complete x (by simpa using hknown) found hfound
  · intro x
    rw [hfinalmem, hgrownmem, hmem, hreachedmem]
    constructor
    · rintro ((⟨d, hd, hx⟩ | rfl) | hx)
      · exact ⟨d, List.mem_append_left _ hd, hx⟩
      · exact ⟨x, by simp, Or.inl rfl⟩
      · exact ⟨dependency, by simp, Or.inr hx⟩
    · rintro ⟨d, hd, hx⟩
      rcases List.mem_append.mp hd with hd | hd
      · exact Or.inl (Or.inl ⟨d, hd, hx⟩)
      · obtain rfl : d = dependency := by simpa using hd
        rcases hx with rfl | hx
        · exact Or.inl (Or.inr rfl)
        · exact Or.inr hx

private theorem Collecting.foldl {before after : Reachability} {owner : String}
    {done dependencies : List String} {below : String → Prop}
    {visit : Reachability → String → Reachability}
    (h : Collecting nodes before after owner done) (howner : ¬ below owner)
    (hbelow : ∀ d ∈ dependencies, below d) (hcomplete : ∀ x, below x → Complete nodes before x)
    (hvisit : ∀ d ∈ dependencies, ∀ reachable, (∀ x, below x → Complete nodes reachable x) →
      Visited nodes reachable (visit reachable d) d) :
    Collecting nodes before (dependencies.foldl (collectDependency visit owner) after) owner
      (done ++ dependencies) := by
  induction dependencies generalizing after done with
  | nil => simpa using h
  | cons dependency rest ih =>
    have hstep := h.step howner (hbelow dependency (by simp)) hcomplete (hvisit dependency (by simp))
    have hrest := ih hstep (fun d hd => hbelow d (List.mem_cons_of_mem _ hd))
      fun d hd => hvisit d (List.mem_cons_of_mem _ hd)
    simpa using hrest

/-- The ids an id reaches are its dependencies and what these reach. -/
theorem reaches_iff (hwf : Node.WellFormed nodes) {n : Node String} (hn : n ∈ nodes) {x : String} :
    Reaches nodes n.id x ↔ ∃ d ∈ n.dependencies, x = d ∨ Reaches nodes d x := by
  have hunique : ∀ m ∈ nodes, m.id = n.id → m = n :=
    fun m hm hid => List.inj_on_of_nodup_map hwf.nodup_ids hm hn hid
  constructor
  · intro h
    rcases Relation.TransGen.head'_iff.mp h with ⟨d, ⟨m, hm, hid, hd⟩, hrest⟩
    rw [hunique m hm hid] at hd
    refine ⟨d, hd, ?_⟩
    rcases Relation.reflTransGen_iff_eq_or_transGen.mp hrest with hx | hx
    · exact Or.inl hx
    · exact Or.inr hx
  · rintro ⟨d, hd, hx⟩
    have hedge : Edge nodes n.id d := ⟨n, hn, rfl, hd⟩
    rcases hx with rfl | hx
    · exact Relation.TransGen.single hedge
    · exact Relation.TransGen.head hedge hx

/-- A visit completes what it adds, when its fuel exceeds the rank of its id and the sets it finds
below that rank are complete. -/
private theorem visitReachable_visited (hwf : Node.WellFormed nodes) {rank : String → Nat}
    (hrank : ∀ n ∈ nodes, ∀ d ∈ n.dependencies, rank d < rank n.id) {fuel : Nat} {id : String}
    (hid : id ∈ Node.ids nodes) (hfuel : rank id < fuel) {reachable : Reachability}
    (hcomplete : ∀ x, rank x ≤ rank id → Complete nodes reachable x) :
    Visited nodes reachable (visitReachable nodes fuel reachable id) id := by
  induction fuel generalizing id reachable with
  | zero => omega
  | succ fuel ih =>
    rw [visitReachable]
    split
    · next hfound =>
      refine ⟨fun _ _ => rfl, ?_, hfound⟩
      intro x hnone found hsome
      rw [hnone] at hsome
      cases hsome
    · next hnew =>
      obtain ⟨n, hn, rfl⟩ := List.mem_map.mp hid
      have hnone : reachable.get? n.id = none := by simpa using hnew
      rw [dependenciesOf_of_mem hwf.distinct hn]
      have hstart : Collecting nodes reachable (reachable.set n.id []) n.id [] := by
        refine ⟨?_, ?_, [], OrderedRecord.get?_set_self _ _ _, by simp⟩
        · intro x hx _
          exact OrderedRecord.get?_set_of_ne _ _ hx
        · intro x hx hxnone found hsome
          rw [OrderedRecord.get?_set_of_ne _ _ hx, hxnone] at hsome
          cases hsome
      have hloop := @Collecting.foldl nodes reachable (reachable.set n.id []) n.id [] n.dependencies
        (fun x => rank x < rank n.id) (visitReachable nodes fuel) hstart (lt_irrefl _) (hrank n hn)
        (fun x hx => hcomplete x hx.le) (by
          intro d hd found hfound
          have hlt := hrank n hn d hd
          exact ih (hwf.known n hn d hd) (by omega) fun x hx => hfound x (by omega))
      obtain ⟨collected, hcollected, hmem⟩ := hloop.collected
      refine ⟨?_, ?_, by rw [hcollected]; rfl⟩
      · intro x hx
        have hne : x ≠ n.id := by
          rintro rfl
          rw [hnone] at hx
          cases hx
        exact hloop.kept x hne hx
      · intro x hx
        by_cases hne : x = n.id
        · subst hne
          intro found hfound y
          rw [hcollected, Option.some.injEq] at hfound
          rw [← hfound, hmem, List.nil_append, reaches_iff hwf hn]
        · exact hloop.complete x hne hx

/-- The ranks of an acyclic graph can be taken below the number of its nodes. -/
private theorem exists_rank_lt (hwf : Node.WellFormed nodes) (hac : Node.Acyclic nodes) :
    ∃ rank : String → Nat, (∀ n ∈ nodes, ∀ d ∈ n.dependencies, rank d < rank n.id) ∧
      ∀ id ∈ Node.ids nodes, rank id < nodes.length := by
  obtain ⟨rank, hrank⟩ := hac
  refine ⟨fun id => (nodes.filter fun m => rank m.id < rank id).length, ?_, ?_⟩
  · intro n hn d hd
    have hlt := hrank n hn d hd
    obtain ⟨m, hm, rfl⟩ := List.mem_map.mp (hwf.known n hn d hd)
    have hsub : nodes.filter (fun k => rank k.id < rank m.id) =
        (nodes.filter fun k => rank k.id < rank n.id).filter fun k => rank k.id < rank m.id := by
      rw [List.filter_filter]
      refine List.filter_congr fun k _ => ?_
      simp only [← Bool.decide_and, decide_eq_decide]
      omega
    show (nodes.filter fun k => rank k.id < rank m.id).length < _
    rw [hsub, List.length_filter_lt_length_iff_exists]
    refine ⟨m, ?_, by simp⟩
    rw [List.mem_filter]
    exact ⟨hm, by simpa using hlt⟩
  · intro id hid
    obtain ⟨m, hm, rfl⟩ := List.mem_map.mp hid
    show (nodes.filter fun k => rank k.id < rank m.id).length < _
    rw [List.length_filter_lt_length_iff_exists]
    exact ⟨m, hm, by simp⟩

/-- The sets of an acyclic graph are its transitive dependencies. -/
theorem reachabilityFrom_complete (hwf : Node.WellFormed nodes) (hac : Node.Acyclic nodes)
    {id : String} (hid : id ∈ Node.ids nodes) :
    ∃ collected, (reachabilityFrom nodes).get? id = some collected ∧
      ∀ x, x ∈ collected ↔ Reaches nodes id x := by
  obtain ⟨rank, hrank, hbound⟩ := exists_rank_lt hwf hac
  have hfold : ∀ (ids : List String) (reachable : Reachability), (∀ x ∈ ids, x ∈ Node.ids nodes) →
      (∀ x, Complete nodes reachable x) →
      let after := ids.foldl (visitReachable nodes (nodes.length + 1)) reachable
      (∀ x, Complete nodes after x) ∧
        ∀ x, x ∈ ids ∨ (reachable.get? x).isSome → (after.get? x).isSome := by
    intro ids
    induction ids with
    | nil => simp
    | cons first rest ih =>
      intro reachable hids hcomplete
      have hfirst := hids first (by simp)
      have hfuel : rank first < nodes.length + 1 := by
        have hlt := hbound first hfirst
        omega
      have hvisited := visitReachable_visited hwf hrank hfirst hfuel fun x _ => hcomplete x
      have hafter : ∀ x,
          Complete nodes (visitReachable nodes (nodes.length + 1) reachable first) x := by
        intro x found hfound
        by_cases hknown : (reachable.get? x).isSome
        · rw [hvisited.kept x hknown] at hfound
          exact hcomplete x found hfound
        · exact hvisited.complete x (by simpa using hknown) found hfound
      obtain ⟨hall, hfound⟩ := ih _ (fun x hx => hids x (List.mem_cons_of_mem _ hx)) hafter
      refine ⟨hall, ?_⟩
      intro x hx
      apply hfound
      by_cases hrest : x ∈ rest
      · exact Or.inl hrest
      · right
        by_cases hx' : x = first
        · rw [hx']
          exact hvisited.found
        · have hknown : (reachable.get? x).isSome := by simpa [hx', hrest] using hx
          rw [hvisited.kept x hknown]
          exact hknown
  obtain ⟨hall, hfound⟩ := hfold (Node.ids nodes) .empty (fun _ hx => hx) (by
    intro x found hx
    simp at hx)
  obtain ⟨collected, hcollected⟩ := Option.isSome_iff_exists.mp (hfound id (Or.inl hid))
  exact ⟨collected, hcollected, hall id collected hcollected⟩

/-! ## Plans without conflicts -/

/-- Two tasks share no path unless a dependency orders them. -/
def CompatibleScopes (plan : TaskPlan) (left right : TaskDefinition) : Prop :=
  ¬ Reaches plan.nodes left.id right.id → ¬ Reaches plan.nodes right.id left.id →
    ∀ l ∈ left.allowedPaths, ∀ r ∈ right.allowedPaths, mutationScopesOverlap l r = false

/-- Tasks that no dependency orders share no path. -/
def ScopesDisjoint (plan : TaskPlan) : Prop :=
  ∀ left ∈ plan.tasks, ∀ right ∈ plan.tasks, left.id ≠ right.id → CompatibleScopes plan left right

theorem mutationScopesOverlap_comm (left right : String) :
    mutationScopesOverlap left right = mutationScopesOverlap right left := by
  unfold mutationScopesOverlap
  rw [show decide (left = right) = decide (right = left) from decide_eq_decide.mpr eq_comm,
    Bool.or_assoc, Bool.or_assoc, Bool.or_comm (endsWith left "/" && startsWith right left)]

theorem CompatibleScopes.symm {plan : TaskPlan} {left right : TaskDefinition}
    (h : CompatibleScopes plan left right) : CompatibleScopes plan right left := by
  intro hright hleft r hr l hl
  rw [mutationScopesOverlap_comm]
  exact h hleft hright l hl r hr

theorem overlappingPaths_eq_nil_iff {left right : TaskDefinition} :
    overlappingPaths left right = [] ↔ ∀ l ∈ left.allowedPaths, ∀ r ∈ right.allowedPaths,
      mutationScopesOverlap l r = false := by
  simp [overlappingPaths, List.flatMap_eq_nil_iff]

private theorem scopeIssues_eq_nil_iff {reachable : Reachability} {tasks : List TaskDefinition} :
    scopeIssues reachable tasks = [] ↔
      tasks.Pairwise fun left right => scopeIssue reachable left right = [] := by
  induction tasks with
  | nil => simp [scopeIssues]
  | cons left rest ih =>
    simp [scopeIssues, List.flatMap_eq_nil_iff, ih]

/-- The set of a task holds what the task reaches. -/
private theorem mem_reachable_iff {plan : TaskPlan} (hwf : Node.WellFormed plan.nodes)
    (hac : Node.Acyclic plan.nodes) {task : TaskDefinition} (htask : task ∈ plan.tasks) (x : String) :
    x ∈ ((reachabilityFrom plan.nodes).get? task.id).getD [] ↔ Reaches plan.nodes task.id x := by
  have hid : task.id ∈ Node.ids plan.nodes := by
    unfold Node.ids TaskPlan.nodes
    rw [List.map_map]
    exact List.mem_map_of_mem htask
  obtain ⟨collected, hcollected, hmem⟩ := reachabilityFrom_complete hwf hac hid
  rw [hcollected, Option.getD_some, hmem]

/-- A pair of tasks raises no issue when its scopes are compatible. -/
theorem scopeIssue_eq_nil_iff {plan : TaskPlan} (hwf : Node.WellFormed plan.nodes)
    (hac : Node.Acyclic plan.nodes) {left right : TaskDefinition} (hleft : left ∈ plan.tasks)
    (hright : right ∈ plan.tasks) :
    scopeIssue (reachabilityFrom plan.nodes) left right = [] ↔ CompatibleScopes plan left right := by
  unfold CompatibleScopes
  rw [← overlappingPaths_eq_nil_iff, ← mem_reachable_iff hwf hac hleft,
    ← mem_reachable_iff hwf hac hright]
  unfold scopeIssue
  split
  · next hordered =>
    simp only [true_iff]
    intro hl hr
    exact absurd hordered (by simp [hl, hr])
  · next hordered =>
    rw [not_or] at hordered
    split
    · next hnone => simp [hnone]
    · next hsome => simp [hsome, hordered]

theorem nodup_taskIds {plan : TaskPlan} (h : Node.WellFormed plan.nodes) :
    (plan.tasks.map fun task => task.id).Nodup := by
  have hids := h.nodup_ids
  unfold Node.ids TaskPlan.nodes at hids
  rwa [List.map_map] at hids

/-- The scope check passes exactly the plans whose unordered tasks share no path. -/
theorem validateMutationScopes_eq_nil_iff {plan : TaskPlan} (h : ValidTaskPlan plan) :
    validateMutationScopes plan = [] ↔ ScopesDisjoint plan := by
  have hac := acyclic_of_findCycle h.wellFormed h.acyclic
  have hissue : ∀ left ∈ plan.tasks, ∀ right ∈ plan.tasks,
      (scopeIssue (reachabilityFrom plan.nodes) left right = [] ↔
        CompatibleScopes plan left right) :=
    fun left hleft right hright => scopeIssue_eq_nil_iff h.wellFormed hac hleft hright
  have hnodup := nodup_taskIds h.wellFormed
  rw [validateMutationScopes, scopeIssues_eq_nil_iff]
  constructor
  · intro hpairs
    have hsymm : Std.Symm (CompatibleScopes plan) := ⟨fun _ _ => CompatibleScopes.symm⟩
    have hcompatible : plan.tasks.Pairwise (CompatibleScopes plan) :=
      hpairs.imp_of_mem fun hl hr hissued => (hissue _ hl _ hr).mp hissued
    intro left hleft right hright hne
    exact hcompatible.forall hleft hright fun heq => hne (heq ▸ rfl)
  · intro hdisjoint
    have hdistinct := List.pairwise_map.mp hnodup
    exact hdistinct.imp_of_mem fun hl hr hne => (hissue _ hl _ hr).mpr (hdisjoint _ hl _ hr hne)

end BuildConductor.Planning
