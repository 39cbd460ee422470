import BuildConductor.Domain.Dag
import BuildConductor.Base.Checks

/-!
# The cycle search and the topological order

A search that finds no cycle visits every id after its dependencies, so the graph is
acyclic; and the counting loop of `topologicalIds` takes, at every pass, the first
declared node whose dependencies are sorted, so it computes the greedy order.
-/

namespace BuildConductor.Domain

open Base (Node)

variable {nodes : List (Node String)}

/-! ## Cycle search -/

/-- Every visited id follows its dependencies. -/
private def FollowsDependencies (nodes : List (Node String)) (visited : List String) : Prop :=
  ∀ pre id post, visited = pre ++ id :: post → ∀ d ∈ dependenciesOf nodes id, d ∈ pre

private theorem followsDependencies_append {visited : List String} {id : String}
    (h : FollowsDependencies nodes visited)
    (hid : ∀ d ∈ dependenciesOf nodes id, d ∈ visited) :
    FollowsDependencies nodes (visited ++ [id]) := by
  intro pre x post hsplit d hd
  rcases List.eq_nil_or_concat post with rfl | ⟨post, last, rfl⟩
  · have hends := List.append_inj' hsplit rfl
    obtain ⟨rfl, hx⟩ := hends
    cases hx
    exact hid d hd
  · have hfront : visited = pre ++ x :: post := by
      have hends : visited ++ [id] = (pre ++ x :: post) ++ [last] := by simpa using hsplit
      exact (List.append_inj' hends rfl).1
    exact h pre x post hfront d hd

private theorem foldlM_visit {f : List String → String → Except (List String) (List String)}
    (hf : ∀ visited id after, f visited id = .ok after → FollowsDependencies nodes visited →
      FollowsDependencies nodes after ∧ (∀ x ∈ visited, x ∈ after) ∧ id ∈ after)
    (ids : List String) (visited after : List String) (h : ids.foldlM f visited = .ok after)
    (hv : FollowsDependencies nodes visited) :
    FollowsDependencies nodes after ∧ (∀ x ∈ visited, x ∈ after) ∧ ∀ x ∈ ids, x ∈ after := by
  induction ids generalizing visited with
  | nil =>
    simp only [List.foldlM_nil, pure, Except.pure, Except.ok.injEq] at h
    subst h
    exact ⟨hv, fun _ hx => hx, by simp⟩
  | cons id rest ih =>
    rw [List.foldlM_cons, Base.bind_ok_iff] at h
    obtain ⟨mid, hmid, hrest⟩ := h
    obtain ⟨hgood, hkeep, hid⟩ := hf visited id mid hmid hv
    obtain ⟨hafter, hkeep', hall⟩ := ih mid hrest hgood
    refine ⟨hafter, fun x hx => hkeep' x (hkeep x hx), ?_⟩
    intro x hx
    rcases List.mem_cons.mp hx with rfl | hx
    · exact hkeep' _ hid
    · exact hall x hx

private theorem visit_ok (fuel : Nat) (path visited : List String) (id : String)
    (after : List String) (h : visit nodes fuel path visited id = .ok after)
    (hv : FollowsDependencies nodes visited) :
    FollowsDependencies nodes after ∧ (∀ x ∈ visited, x ∈ after) ∧ id ∈ after := by
  induction fuel generalizing path visited id after with
  | zero => simp [visit] at h
  | succ fuel ih =>
    rw [visit] at h
    split at h
    · cases h
    · split at h
      · next hmem =>
        cases h
        exact ⟨hv, fun _ hx => hx, hmem⟩
      · rw [Base.bind_ok_iff] at h
        obtain ⟨inner, hinner, hlast⟩ := h
        cases hlast
        obtain ⟨hgood, hkeep, hdeps⟩ := foldlM_visit
          (fun v x a hx hvx => ih (path ++ [id]) v x a hx hvx) _ visited inner hinner hv
        refine ⟨followsDependencies_append hgood hdeps, ?_, by simp⟩
        intro x hx
        exact List.mem_append_left _ (hkeep x hx)

/-- A declared node's dependencies are the ones it declares. -/
theorem dependenciesOf_of_mem (hwf : Node.Distinct nodes) {n : Node String} (hn : n ∈ nodes) :
    dependenciesOf nodes n.id = n.dependencies := by
  unfold dependenciesOf
  rw [List.findRev?_eq_find?_reverse]
  cases hfind : nodes.reverse.find? fun m => m.id = n.id with
  | none =>
    have := List.find?_eq_none.mp hfind n (List.mem_reverse.mpr hn)
    simp at this
  | some m =>
    have hm := List.mem_reverse.mp (List.mem_of_find?_eq_some hfind)
    have hid : m.id = n.id := by simpa using List.find?_some hfind
    rw [List.inj_on_of_nodup_map hwf.nodup_ids hm hn hid]

/-- A search that finds no cycle proves the graph acyclic. -/
theorem acyclic_of_findCycle (hwf : Node.WellFormed nodes) (h : findCycle nodes = none) :
    Node.Acyclic nodes := by
  unfold findCycle at h
  split at h
  · cases h
  · next visited hvisit =>
    obtain ⟨hfollows, -, hall⟩ := foldlM_visit
      (fun v x a hx hvx => visit_ok (nodes.length + 1) [] v x a hx hvx) _ [] visited hvisit
      (by intro pre id post hsplit; simp at hsplit)
    refine ⟨fun id => visited.idxOf id, ?_⟩
    intro n hn d hd
    obtain ⟨pre, post, hsplit, hpre⟩ :=
      List.eq_append_cons_of_mem (hall n.id (List.mem_map.mpr ⟨n, hn, rfl⟩))
    have hdpre : d ∈ pre :=
      hfollows pre n.id post hsplit d (by rwa [dependenciesOf_of_mem hwf.distinct hn])
    subst hsplit
    change (pre ++ n.id :: post).idxOf d < (pre ++ n.id :: post).idxOf n.id
    rw [List.idxOf_append_of_mem hdpre, List.idxOf_append_of_notMem hpre, List.idxOf_cons_self]
    have := List.idxOf_lt_length_of_mem hdpre
    omega

private theorem foldlM_ok {f : List String → String → Except (List String) (List String)}
    {ids : List String} (hf : ∀ id ∈ ids, ∀ visited, ∃ after, f visited id = .ok after)
    (visited : List String) : ∃ after, ids.foldlM f visited = .ok after := by
  induction ids generalizing visited with
  | nil => exact ⟨visited, rfl⟩
  | cons id rest ih =>
    obtain ⟨mid, hmid⟩ := hf id (List.mem_cons_self ..) visited
    obtain ⟨after, hafter⟩ := ih (fun x hx => hf x (List.mem_cons_of_mem _ hx)) mid
    refine ⟨after, ?_⟩
    rw [List.foldlM_cons, Base.bind_ok_iff]
    exact ⟨mid, hmid, hafter⟩

/-- A visit returns when every id of its path ranks above the one it visits: the path then holds
distinct declared ids, so the fuel lasts. -/
private theorem visit_total (hwf : Node.WellFormed nodes) {rank : String → Nat}
    (hrank : ∀ n ∈ nodes, ∀ d ∈ n.dependencies, rank d < rank n.id) (fuel : Nat)
    (path visited : List String) (id : String) (hid : id ∈ Node.ids nodes) (hnodup : path.Nodup)
    (hpath : ∀ x ∈ path, x ∈ Node.ids nodes ∧ rank id < rank x)
    (hfuel : nodes.length + 1 ≤ fuel + path.length) :
    ∃ after, visit nodes fuel path visited id = .ok after := by
  have hlength : path.length ≤ nodes.length := by
    have hsub := hnodup.subperm fun x hx => (hpath x hx).1
    have hle := hsub.length_le
    rwa [Node.ids, List.length_map] at hle
  induction fuel generalizing path visited id with
  | zero => omega
  | succ fuel ih =>
    rw [visit]
    have hfresh : id ∉ path := fun hmem => absurd (hpath id hmem).2 (Nat.lt_irrefl _)
    rw [if_neg hfresh]
    by_cases hvisited : id ∈ visited
    · rw [if_pos hvisited]
      exact ⟨visited, rfl⟩
    · rw [if_neg hvisited]
      obtain ⟨n, hn, rfl⟩ := List.mem_map.mp hid
      rw [dependenciesOf_of_mem hwf.distinct hn]
      have hextended : (path ++ [n.id]).Nodup := by
        rw [List.nodup_append_comm]
        exact List.nodup_cons.mpr ⟨hfresh, hnodup⟩
      have hdeclared : ∀ x ∈ path ++ [n.id], x ∈ Node.ids nodes ∧
          ∀ d ∈ n.dependencies, rank d < rank x := by
        intro x hx
        rcases List.mem_append.mp hx with hx | hx
        · exact ⟨(hpath x hx).1, fun d hd => (hrank n hn d hd).trans (hpath x hx).2⟩
        · rw [List.mem_singleton.mp hx]
          exact ⟨hid, hrank n hn⟩
      have hvisits : ∀ d ∈ n.dependencies, ∀ visited, ∃ after,
          visit nodes fuel (path ++ [n.id]) visited d = .ok after := by
        intro d hd visited
        apply ih (path ++ [n.id]) visited d (hwf.known n hn d hd) hextended
        · exact fun x hx => ⟨(hdeclared x hx).1, (hdeclared x hx).2 d hd⟩
        · rw [List.length_append, List.length_singleton]
          omega
        · have hsub := hextended.subperm fun x hx => (hdeclared x hx).1
          have hle := hsub.length_le
          rwa [Node.ids, List.length_map] at hle
      obtain ⟨after, hafter⟩ := foldlM_ok hvisits visited
      refine ⟨after ++ [n.id], ?_⟩
      rw [Base.bind_ok_iff]
      exact ⟨after, hafter, rfl⟩

/-- The search finds no cycle in an acyclic graph. -/
theorem findCycle_of_acyclic (hwf : Node.WellFormed nodes) (h : Node.Acyclic nodes) :
    findCycle nodes = none := by
  obtain ⟨rank, hrank⟩ := h
  have hvisits : ∀ id ∈ Node.ids nodes, ∀ visited, ∃ after,
      visit nodes (nodes.length + 1) [] visited id = .ok after := by
    intro id hid visited
    exact visit_total hwf hrank (nodes.length + 1) [] visited id hid List.nodup_nil (by simp) (by simp)
  obtain ⟨after, hafter⟩ := foldlM_ok hvisits []
  unfold findCycle
  rw [hafter]

/-! ## The counting loop -/

private theorem declarationOrder_foldl (ns : List (Node String)) (id : String) (start k : Nat) :
    (id ∉ Node.ids ns →
      (ns.zipIdx k).foldl (fun order e => if e.1.id = id then e.2 else order) start = start) ∧
    (∀ pre n post, ns = pre ++ n :: post → n.id = id → (Node.ids ns).Nodup →
      (ns.zipIdx k).foldl (fun order e => if e.1.id = id then e.2 else order) start =
        k + pre.length) := by
  induction ns generalizing start k with
  | nil =>
    constructor
    · intro _
      rfl
    · intro pre n post hsplit
      simp at hsplit
  | cons m rest ih =>
    simp only [List.zipIdx_cons, List.foldl_cons]
    constructor
    · intro hnot
      simp only [Node.ids, List.map_cons, List.mem_cons, not_or] at hnot
      rw [if_neg (Ne.symm hnot.1)]
      exact (ih start (k + 1)).1 hnot.2
    · intro pre n post hsplit hid hnodup
      simp only [Node.ids, List.map_cons, List.nodup_cons] at hnodup
      cases pre with
      | nil =>
        obtain ⟨rfl, rfl⟩ : m = n ∧ rest = post := by simpa using hsplit
        rw [if_pos hid]
        exact (ih k (k + 1)).1 (by rw [← hid]; exact hnodup.1)
      | cons p pre =>
        obtain ⟨rfl, htail⟩ : m = p ∧ rest = pre ++ n :: post := by simpa using hsplit
        have hrec := (ih (if m.id = id then k else start) (k + 1)).2 pre n post htail hid hnodup.2
        rw [hrec]
        simp only [List.length_cons]
        omega

/-- A node declared at a position has that declaration order. -/
theorem declarationOrder_eq (hwf : Node.Distinct nodes) {pre post : List (Node String)}
    {n : Node String} (h : nodes = pre ++ n :: post) : declarationOrder nodes n.id = pre.length := by
  have := (declarationOrder_foldl nodes n.id 0 0).2 pre n post h rfl hwf.nodup_ids
  simpa [declarationOrder] using this

private theorem filter_eq_of_nodup {ds : List String} (h : ds.Nodup) (id : String) :
    ds.filter (· = id) = if id ∈ ds then [id] else [] := by
  rw [List.filter_eq]
  split
  · next hmem => rw [List.count_eq_one_of_mem h hmem]; rfl
  · next hmem => rw [List.count_eq_zero_of_not_mem hmem]; rfl

/-- The dependents of an id are the declared nodes depending on it. -/
theorem dependentsOf_eq (hwf : Node.Distinct nodes) (id : String) :
    dependentsOf nodes id = Node.ids (nodes.filter fun n => id ∈ n.dependencies) := by
  obtain ⟨-, hdeps⟩ := hwf
  unfold dependentsOf Node.ids
  induction nodes with
  | nil => rfl
  | cons n rest ih =>
    rw [List.flatMap_cons, ih fun m hm => hdeps m (List.mem_cons_of_mem _ hm),
      filter_eq_of_nodup (hdeps n (List.mem_cons_self ..)), List.filter_cons]
    by_cases h : id ∈ n.dependencies <;> simp [h]

private theorem settleDependency_foldl (ds : List String) (hnodup : ds.Nodup)
    (loop : TopologicalLoop) :
    (ds.foldl settleDependency loop).sorted = loop.sorted ∧
    (∀ x, (ds.foldl settleDependency loop).remainingDependencies x =
      loop.remainingDependencies x - if x ∈ ds then 1 else 0) ∧
    (ds.foldl settleDependency loop).ready =
      loop.ready ++ ds.filter fun x => loop.remainingDependencies x = 1 := by
  induction ds generalizing loop with
  | nil => simp
  | cons d rest ih =>
    rw [List.nodup_cons] at hnodup
    obtain ⟨hsorted, hremaining, hready⟩ := ih hnodup.2 (settleDependency loop d)
    rw [List.foldl_cons]
    refine ⟨hsorted, ?_, ?_⟩
    · intro x
      rw [hremaining]
      by_cases hx : x = d
      · subst hx
        simp [settleDependency, hnodup.1]
      · simp [settleDependency, hx]
    · rw [hready]
      have hsame : rest.filter (fun x => (settleDependency loop d).remainingDependencies x = 1) =
          rest.filter fun x => loop.remainingDependencies x = 1 := by
        apply List.filter_congr
        intro x hx
        have hne : x ≠ d := fun hxd => hnodup.1 (hxd ▸ hx)
        simp [settleDependency, hne]
      rw [hsame, List.filter_cons]
      by_cases hone : loop.remainingDependencies d = 1
      · simp [settleDependency, hone]
      · have hne : loop.remainingDependencies d - 1 ≠ 0 := by omega
        simp [settleDependency, hone, hne]

/-- The dependencies of a node that are not sorted yet. -/
private def unsorted (sorted : List String) (n : Node String) : List String :=
  n.dependencies.filter (· ∉ sorted)

/-- What holds of the loop variables at every pass: the counters count unsorted dependencies
and `ready` holds exactly the nodes the greedy order may take. -/
private structure LoopInvariant (nodes : List (Node String)) (loop : TopologicalLoop) : Prop where
  nodup_sorted : loop.sorted.Nodup
  sorted_declared : ∀ x ∈ loop.sorted, x ∈ Node.ids nodes
  sorted_closed : ∀ n ∈ nodes, n.id ∈ loop.sorted → ∀ d ∈ n.dependencies, d ∈ loop.sorted
  remaining : ∀ n ∈ nodes,
    loop.remainingDependencies n.id = ((unsorted loop.sorted n).length : Int)
  nodup_ready : loop.ready.Nodup
  mem_ready : ∀ x, x ∈ loop.ready ↔
    ∃ n ∈ nodes, n.id = x ∧ Node.isReady loop.sorted n = true

private theorem unsorted_eq_nil_iff {sorted : List String} {n : Node String} :
    unsorted sorted n = [] ↔ ∀ d ∈ n.dependencies, d ∈ sorted := by
  simp [unsorted, List.filter_eq_nil_iff]

private theorem unsorted_append (hwf : Node.Distinct nodes) {sorted : List String} {id : String}
    (hid : id ∉ sorted) {n : Node String} (hn : n ∈ nodes) :
    ((unsorted (sorted ++ [id]) n).length : Int) =
      (unsorted sorted n).length - if id ∈ n.dependencies then 1 else 0 := by
  have hnodup := (hwf.nodup_dependencies n hn).filter (· ∉ sorted)
  have herase : unsorted (sorted ++ [id]) n = (unsorted sorted n).erase id := by
    rw [unsorted, unsorted, hnodup.erase_eq_filter, List.filter_filter]
    apply List.filter_congr
    intro x _
    by_cases hx : x = id
    · simp [hx]
    · simp [hx]
  rw [herase]
  by_cases hmem : id ∈ n.dependencies
  · have hin : id ∈ unsorted sorted n := by simp [unsorted, hmem, hid]
    have hpos := List.length_pos_of_mem hin
    rw [List.length_erase_of_mem hin, if_pos hmem]
    omega
  · have hnot : id ∉ unsorted sorted n := by simp [unsorted, hmem]
    rw [List.erase_of_not_mem hnot, if_neg hmem]
    omega

private theorem mem_dependentsOf (hwf : Node.Distinct nodes) {id x : String} :
    x ∈ dependentsOf nodes id ↔ ∃ n ∈ nodes, n.id = x ∧ id ∈ n.dependencies := by
  rw [dependentsOf_eq hwf]
  simp only [Node.ids, List.mem_map, List.mem_filter, decide_eq_true_eq]
  constructor
  · rintro ⟨n, ⟨hn, hid⟩, hx⟩
    exact ⟨n, hn, hx, hid⟩
  · rintro ⟨n, hn, hx, hid⟩
    exact ⟨n, ⟨hn, hid⟩, hx⟩

private theorem nodup_dependentsOf (hwf : Node.Distinct nodes) (id : String) :
    (dependentsOf nodes id).Nodup := by
  rw [dependentsOf_eq hwf]
  exact (List.filter_sublist.map Node.id).nodup hwf.nodup_ids

/-- One pass: taking a ready node from the front of `ready` keeps the invariant. -/
private theorem loopInvariant_pass (hwf : Node.Distinct nodes) {loop : TopologicalLoop}
    (hinv : LoopInvariant nodes loop) {n : Node String} {rest : List String} (hn : n ∈ nodes)
    (hready : Node.isReady loop.sorted n = true) (hperm : loop.ready.Perm (n.id :: rest)) :
    LoopInvariant nodes ((dependentsOf nodes n.id).foldl settleDependency
      { loop with ready := rest, sorted := loop.sorted ++ [n.id] }) := by
  obtain ⟨hsorted, hremaining, hnewready⟩ := settleDependency_foldl (dependentsOf nodes n.id)
    (nodup_dependentsOf hwf n.id) { loop with ready := rest, sorted := loop.sorted ++ [n.id] }
  rw [Node.isReady_iff] at hready
  obtain ⟨hfresh, hdeps⟩ := hready
  have hnodup := hperm.nodup_iff.mp hinv.nodup_ready
  rw [List.nodup_cons] at hnodup
  have hrest : ∀ x ∈ rest, ∃ m ∈ nodes, m.id = x ∧ x ≠ n.id ∧
      Node.isReady loop.sorted m = true := by
    intro x hx
    obtain ⟨m, hm, hmx, hmr⟩ := (hinv.mem_ready x).mp
      (hperm.mem_iff.mpr (List.mem_cons_of_mem _ hx))
    exact ⟨m, hm, hmx, fun hxn => hnodup.1 (hxn ▸ hx), hmr⟩
  constructor
  · rw [hsorted, List.nodup_append]
    refine ⟨hinv.nodup_sorted, by simp, ?_⟩
    intro x hx y hy hxy
    rw [List.mem_singleton] at hy
    subst hy hxy
    exact hfresh hx
  · intro x hx
    rw [hsorted, List.mem_append, List.mem_singleton] at hx
    rcases hx with hx | rfl
    · exact hinv.sorted_declared x hx
    · exact List.mem_map.mpr ⟨n, hn, rfl⟩
  · intro m hm hms d hd
    rw [hsorted, List.mem_append, List.mem_singleton] at hms ⊢
    rcases hms with hms | hms
    · exact Or.inl (hinv.sorted_closed m hm hms d hd)
    · have hmn := List.inj_on_of_nodup_map hwf.nodup_ids hm hn hms
      subst hmn
      exact Or.inl (hdeps d hd)
  · intro m hm
    rw [hremaining, hsorted, unsorted_append hwf hfresh hm, hinv.remaining m hm]
    have hiff : m.id ∈ dependentsOf nodes n.id ↔ n.id ∈ m.dependencies := by
      rw [mem_dependentsOf hwf]
      constructor
      · rintro ⟨k, hk, hkm, hid⟩
        rwa [List.inj_on_of_nodup_map hwf.nodup_ids hk hm hkm] at hid
      · exact fun hid => ⟨m, hm, rfl, hid⟩
    simp only [hiff]
  · rw [hnewready, List.nodup_append]
    refine ⟨hnodup.2, (nodup_dependentsOf hwf n.id).filter _, ?_⟩
    intro x hx y hy hxy
    subst hxy
    obtain ⟨m, hm, rfl, -, hmr⟩ := hrest x hx
    rw [Node.isReady_iff] at hmr
    have hzero : unsorted loop.sorted m = [] := unsorted_eq_nil_iff.mpr hmr.2
    have hone := (List.mem_filter.mp hy).2
    simp only [decide_eq_true_eq, hinv.remaining m hm, hzero, List.length_nil] at hone
    omega
  · intro x
    rw [hnewready, hsorted, List.mem_append, List.mem_filter, mem_dependentsOf hwf]
    constructor
    · rintro (hx | ⟨⟨m, hm, rfl, hid⟩, hone⟩)
      · obtain ⟨m, hm, hmx, hne, hmr⟩ := hrest x hx
        rw [Node.isReady_iff] at hmr
        refine ⟨m, hm, hmx, ?_⟩
        rw [Node.isReady_iff, List.mem_append, List.mem_singleton, hmx]
        refine ⟨?_, fun d hd => List.mem_append_left _ (hmr.2 d hd)⟩
        rw [hmx] at hmr
        rintro (h | h)
        · exact hmr.1 h
        · exact hne h
      · refine ⟨m, hm, rfl, ?_⟩
        simp only [decide_eq_true_eq, hinv.remaining m hm] at hone
        have hcount := unsorted_append hwf hfresh hm
        rw [if_pos hid, hone] at hcount
        have hnil : unsorted (loop.sorted ++ [n.id]) m = [] := by
          rw [← List.length_eq_zero_iff]
          omega
        rw [Node.isReady_iff, List.mem_append, List.mem_singleton]
        refine ⟨?_, unsorted_eq_nil_iff.mp hnil⟩
        rintro (h | h)
        · exact hfresh (hinv.sorted_closed m hm h n.id hid)
        · have hmn := List.inj_on_of_nodup_map hwf.nodup_ids hm hn h
          subst hmn
          exact hfresh (hdeps _ hid)
    · rintro ⟨m, hm, rfl, hmr⟩
      rw [Node.isReady_iff, List.mem_append, List.mem_singleton, not_or] at hmr
      obtain ⟨⟨hms, hmn⟩, hmdeps⟩ := hmr
      by_cases hid : n.id ∈ m.dependencies
      · right
        refine ⟨⟨m, hm, rfl, hid⟩, ?_⟩
        have hnil := unsorted_eq_nil_iff.mpr hmdeps
        have hcount := unsorted_append hwf hfresh hm
        rw [if_pos hid, hnil] at hcount
        simp only [decide_eq_true_eq, hinv.remaining m hm]
        simp only [List.length_nil] at hcount
        omega
      · left
        have hold : Node.isReady loop.sorted m = true := by
          rw [Node.isReady_iff]
          refine ⟨hms, fun d hd => ?_⟩
          rcases List.mem_append.mp (hmdeps d hd) with h | h
          · exact h
          · rw [List.mem_singleton] at h
            subst h
            exact absurd hd hid
        have hin := hperm.mem_iff.mp ((hinv.mem_ready m.id).mpr ⟨m, hm, rfl, hold⟩)
        exact (List.mem_cons.mp hin).resolve_left hmn

/-- The front of the sorted `ready` list is the first declared ready node. -/
private theorem sortReady_head (hwf : Node.Distinct nodes) {loop : TopologicalLoop}
    (hinv : LoopInvariant nodes loop) {id : String} {rest : List String}
    (h : sortReady nodes loop.ready = id :: rest) :
    ∃ n, Node.nextReady nodes loop.sorted = some n ∧ n.id = id := by
  have hperm : loop.ready.Perm (id :: rest) := by
    rw [← h]
    exact (List.perm_insertionSort _ _).symm
  obtain ⟨n, hn, hid, hready⟩ := (hinv.mem_ready id).mp (hperm.mem_iff.mpr (List.mem_cons_self ..))
  have hsome : (Node.nextReady nodes loop.sorted).isSome := by
    unfold Node.nextReady
    rw [List.find?_isSome]
    exact ⟨n, hn, hready⟩
  obtain ⟨m, hm⟩ := Option.isSome_iff_exists.mp hsome
  refine ⟨m, hm, ?_⟩
  obtain ⟨hmready, pre, post, hsplit, hpre⟩ := List.find?_eq_some_iff_append.mp hm
  have hmin : declarationOrder nodes id ≤ declarationOrder nodes m.id := by
    have hsorted : (sortReady nodes loop.ready).Pairwise
        fun left right => declarationOrder nodes left ≤ declarationOrder nodes right := by
      have : Std.Total fun left right : String =>
          declarationOrder nodes left ≤ declarationOrder nodes right :=
        ⟨fun a b => Nat.le_total _ _⟩
      have : IsTrans String fun left right =>
          declarationOrder nodes left ≤ declarationOrder nodes right :=
        ⟨fun _ _ _ => Nat.le_trans⟩
      exact List.pairwise_insertionSort _ _
    rw [h, List.pairwise_cons] at hsorted
    have hmem : m.id ∈ id :: rest := hperm.mem_iff.mp
      ((hinv.mem_ready m.id).mpr ⟨m, (Node.nextReady_mem hm).1, rfl, hmready⟩)
    rcases List.mem_cons.mp hmem with heq | hin
    · rw [heq]
    · exact hsorted.1 _ hin
  have hnpost : n ∈ m :: post := by
    rw [hsplit] at hn
    rcases List.mem_append.mp hn with hin | hin
    · have := hpre n hin
      simp [hready] at this
    · exact hin
  rcases List.mem_cons.mp hnpost with heq | hin
  · rw [← heq, hid]
  · obtain ⟨before, after, hpost⟩ := List.append_of_mem hin
    have hmorder := declarationOrder_eq hwf hsplit
    have hsplit' : nodes = (pre ++ m :: before) ++ n :: after := by rw [hsplit, hpost]; simp
    have hnorder := declarationOrder_eq hwf hsplit'
    rw [← hid, hmorder, hnorder, List.length_append, List.length_cons] at hmin
    omega

private theorem topologicalLoop_greedy (hwf : Node.Distinct nodes)
    (hne : ∀ n ∈ nodes, n.id ≠ "") (fuel : Nat) (loop : TopologicalLoop)
    (hinv : LoopInvariant nodes loop) (hfuel : nodes.length ≤ loop.sorted.length + fuel) :
    ∃ rest, topologicalLoop nodes fuel loop = loop.sorted ++ rest ∧
      Node.GreedyFrom nodes loop.sorted rest := by
  induction fuel generalizing loop with
  | zero =>
    refine ⟨[], by simp [topologicalLoop], .done ?_⟩
    unfold Node.nextReady
    rw [List.find?_eq_none]
    intro n hn hready
    rw [Node.isReady_iff] at hready
    -- Every declared id is sorted already, by counting.
    have hsub : loop.sorted ⊆ Node.ids nodes := hinv.sorted_declared
    have hperm := (hinv.nodup_sorted.subperm hsub).perm_of_length_le
      (by simpa [Node.ids] using hfuel)
    exact hready.1 (hperm.mem_iff.mpr (List.mem_map.mpr ⟨n, hn, rfl⟩))
  | succ fuel ih =>
    rw [topologicalLoop]
    split
    · next hnil =>
      refine ⟨[], by simp, .done ?_⟩
      unfold Node.nextReady
      rw [List.find?_eq_none]
      intro n hn hready
      have hin := (hinv.mem_ready n.id).mpr ⟨n, hn, rfl, hready⟩
      have hperm : (sortReady nodes loop.ready).Perm loop.ready := List.perm_insertionSort _ _
      rw [hnil] at hperm
      rw [← hperm.mem_iff] at hin
      cases hin
    · next id rest hsort =>
      obtain ⟨n, hnext, rfl⟩ := sortReady_head hwf hinv hsort
      obtain ⟨hn, hready⟩ := Node.nextReady_mem hnext
      rw [if_neg (hne n hn)]
      have hperm : loop.ready.Perm (n.id :: rest) := by
        rw [← hsort]
        exact (List.perm_insertionSort _ _).symm
      have hpass := loopInvariant_pass hwf hinv hn hready hperm
      have hsorted := (settleDependency_foldl (dependentsOf nodes n.id)
        (nodup_dependentsOf hwf n.id)
        { loop with ready := rest, sorted := loop.sorted ++ [n.id] }).1
      obtain ⟨tail, htail, hgreedy⟩ := ih _ hpass (by rw [hsorted]; simp; omega)
      rw [hsorted] at htail hgreedy
      exact ⟨n.id :: tail, by rw [htail]; simp, .take hnext hgreedy⟩

/-- The counting loop computes the greedy order. -/
theorem topologicalIds_greedy (hwf : Node.Distinct nodes) (hne : ∀ n ∈ nodes, n.id ≠ "") :
    Node.GreedyFrom nodes [] (topologicalIds nodes) := by
  have hinv : LoopInvariant nodes
      { ready := nodes.flatMap fun n => if n.dependencies = [] then [n.id] else []
        sorted := []
        remainingDependencies := declaredDependencies nodes } := by
    have hready : (nodes.flatMap fun n => if n.dependencies = [] then [n.id] else []) =
        Node.ids (nodes.filter fun n => n.dependencies = []) := by
      clear hwf hne
      induction nodes with
      | nil => rfl
      | cons n rest ih =>
        rw [List.flatMap_cons, ih, List.filter_cons]
        by_cases h : n.dependencies = [] <;> simp [h, Node.ids]
    constructor
    · exact List.nodup_nil
    · simp
    · simp
    · intro n hn
      simp [declaredDependencies, dependenciesOf_of_mem hwf hn, unsorted]
    · rw [hready]
      exact (List.filter_sublist.map Node.id).nodup hwf.nodup_ids
    · intro x
      rw [hready]
      simp only [Node.ids, List.mem_map, List.mem_filter, decide_eq_true_eq, Node.isReady_iff]
      constructor
      · rintro ⟨n, ⟨hn, hnil⟩, hx⟩
        exact ⟨n, hn, hx, by simp, by simp [hnil]⟩
      · rintro ⟨n, hn, hx, -, hdeps⟩
        exact ⟨n, ⟨hn, List.eq_nil_iff_forall_not_mem.mpr fun d hd => by simpa using hdeps d hd⟩, hx⟩
  obtain ⟨rest, heq, hgreedy⟩ := topologicalLoop_greedy hwf hne (2 * nodes.length) _ hinv
    (by simp; omega)
  unfold topologicalIds
  rw [heq]
  exact hgreedy

/-- The topological order lists declared ids once each, and the dependencies of what it lists. -/
theorem topologicalIds_closed (hdistinct : Node.Distinct nodes) (hne : ∀ n ∈ nodes, n.id ≠ "") :
    (topologicalIds nodes).Nodup ∧ (∀ x ∈ topologicalIds nodes, x ∈ Node.ids nodes) ∧
      ∀ n ∈ nodes, n.id ∈ topologicalIds nodes → ∀ d ∈ n.dependencies, d ∈ topologicalIds nodes :=
  (topologicalIds_greedy hdistinct hne).closed hdistinct

/-- On an acyclic graph the topological order lists every id after its dependencies. -/
theorem topologicalIds_linearizes (hwf : Node.WellFormed nodes) (hne : ∀ n ∈ nodes, n.id ≠ "")
    (hac : Node.Acyclic nodes) : Node.Linearizes nodes (topologicalIds nodes) :=
  (topologicalIds_greedy hwf.distinct hne).linearizes hwf hac

/-- Appending nodes appends to the topological order. -/
theorem topologicalIds_append {more : List (Node String)} (hwf : Node.WellFormed nodes)
    (hac : Node.Acyclic nodes) (hwf' : Node.WellFormed (nodes ++ more))
    (hac' : Node.Acyclic (nodes ++ more)) (hne : ∀ n ∈ nodes ++ more, n.id ≠ "") :
    ∃ added, topologicalIds (nodes ++ more) = topologicalIds nodes ++ added ∧
      added.Perm (Node.ids more) := by
  have hne' : ∀ n ∈ nodes, n.id ≠ "" := fun n hn => hne n (List.mem_append_left _ hn)
  exact (topologicalIds_greedy hwf.distinct hne').append hwf' hac'
    (topologicalIds_linearizes hwf hne' hac) (topologicalIds_greedy hwf'.distinct hne)

end BuildConductor.Domain
