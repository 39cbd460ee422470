import Mathlib.Data.List.Chain
import BuildConductor.Domain.DagOrder

/-!
# Cycles and the topological order

A cycle the search reports is a closed path along dependencies, because the search only ever
extends its path by a dependency of the path's end. The search and the topological order agree:
one finds no cycle exactly when the other lists every id, and the order is then the first one by
declaration. `src/src/domain/dag.ts:309-348`, `src/src/domain/dag.ts:483-522`.
-/

namespace BuildConductor.Domain

open Base (Node)

variable {nodes : List (Node String)}

/-! ## Reported cycles -/

/-- A declared node depends on an id. -/
def DependsOn (nodes : List (Node String)) (id dependency : String) : Prop :=
  ∃ n ∈ nodes, n.id = id ∧ dependency ∈ n.dependencies

/-- A path along dependencies, of one step at least, that ends where it starts. -/
structure ClosedPath (nodes : List (Node String)) (cycle : List String) : Prop where
  steps : 2 ≤ cycle.length
  closed : cycle.head? = cycle.getLast?
  along : cycle.IsChain (DependsOn nodes)

/-- A failed fold failed on some element. -/
private theorem foldlM_error {f : List String → String → Except (List String) (List String)}
    {ids visited cycle : List String} (h : ids.foldlM f visited = .error cycle) :
    ∃ before, ∃ id ∈ ids, f before id = .error cycle := by
  induction ids generalizing visited with
  | nil => cases h
  | cons id rest ih =>
    rw [List.foldlM_cons] at h
    cases hfirst : f visited id with
    | error found =>
      rw [hfirst] at h
      cases h
      exact ⟨visited, id, List.mem_cons_self, hfirst⟩
    | ok after =>
      rw [hfirst] at h
      obtain ⟨before, x, hx, herror⟩ := ih h
      exact ⟨before, x, List.mem_cons_of_mem _ hx, herror⟩

/-- The part of a path from an id it holds on, closed with that id. -/
private theorem closedPath_drop {path : List String} {id : String} (hmem : id ∈ path)
    (hchain : (path ++ [id]).IsChain (DependsOn nodes)) :
    ClosedPath nodes (path.drop (path.idxOf id) ++ [id]) := by
  have hlt := List.idxOf_lt_length_of_mem hmem
  have hhead : path[path.idxOf id] = id := List.getElem_idxOf hlt
  have hdrop : path.drop (path.idxOf id) = id :: path.drop (path.idxOf id + 1) := by
    rw [List.drop_eq_getElem_cons hlt, hhead]
  constructor
  · rw [hdrop]
    simp
  · rw [List.getLast?_concat, hdrop]
    rfl
  · rw [← List.drop_append_of_le_length (Nat.le_of_lt hlt)]
    exact hchain.drop _

/-- A visit that fails found a closed path, when its path is one along dependencies. -/
private theorem visit_error (hwf : Node.WellFormed nodes) {fuel : Nat}
    {path visited cycle : List String} {id : String} (hid : id ∈ Node.ids nodes)
    (hchain : (path ++ [id]).IsChain (DependsOn nodes)) (hnodup : path.Nodup)
    (hpath : ∀ x ∈ path, x ∈ Node.ids nodes) (hfuel : nodes.length + 1 ≤ fuel + path.length)
    (h : visit nodes fuel path visited id = .error cycle) : ClosedPath nodes cycle := by
  have hlength : path.length ≤ nodes.length := by
    have hle := (hnodup.subperm hpath).length_le
    rwa [Node.ids, List.length_map] at hle
  induction fuel generalizing path visited id with
  | zero => omega
  | succ fuel ih =>
    rw [visit] at h
    by_cases hmem : id ∈ path
    · rw [if_pos hmem] at h
      cases h
      exact closedPath_drop hmem hchain
    · rw [if_neg hmem] at h
      by_cases hvisited : id ∈ visited
      · rw [if_pos hvisited] at h
        cases h
      · rw [if_neg hvisited] at h
        obtain ⟨n, hn, rfl⟩ := List.mem_map.mp hid
        rw [dependenciesOf_of_mem hwf.distinct hn] at h
        cases hfold : n.dependencies.foldlM (visit nodes fuel (path ++ [n.id])) visited with
        | ok after =>
          rw [hfold] at h
          cases h
        | error found =>
          rw [hfold] at h
          cases h
          obtain ⟨before, d, hd, herror⟩ := foldlM_error hfold
          have hextended : (path ++ [n.id]).Nodup := by
            rw [List.nodup_append_comm]
            exact List.nodup_cons.mpr ⟨hmem, hnodup⟩
          have hdeclared : ∀ x ∈ path ++ [n.id], x ∈ Node.ids nodes := by
            intro x hx
            rw [List.mem_append, List.mem_singleton] at hx
            rcases hx with hx | rfl
            · exact hpath x hx
            · exact hid
          have hbound : (path ++ [n.id]).length ≤ nodes.length := by
            have hle := (hextended.subperm hdeclared).length_le
            rwa [Node.ids, List.length_map] at hle
          apply ih (hwf.known n hn d hd) _ hextended hdeclared _ herror hbound
          · rw [List.isChain_append]
            refine ⟨hchain, List.isChain_singleton d, ?_⟩
            intro x hx y hy
            rw [List.getLast?_concat, Option.mem_some_iff] at hx
            rw [List.head?_cons, Option.mem_some_iff] at hy
            subst hx hy
            exact ⟨n, hn, rfl, hd⟩
          · rw [List.length_append, List.length_singleton]
            omega

/-- Every cycle the search reports is a closed path along dependencies. -/
theorem findCycle_closedPath (hwf : Node.WellFormed nodes) {cycle : List String}
    (h : findCycle nodes = some cycle) : ClosedPath nodes cycle := by
  unfold findCycle at h
  cases hfold : (Node.ids nodes).foldlM (visit nodes (nodes.length + 1) []) [] with
  | ok visited =>
    rw [hfold] at h
    cases h
  | error found =>
    rw [hfold] at h
    cases h
    obtain ⟨before, id, hid, herror⟩ := foldlM_error hfold
    exact visit_error hwf hid (List.isChain_singleton id) List.nodup_nil (by simp) (by simp) herror

/-! ## Agreement -/

/-- Declaration orders grow along the declaration. -/
theorem declarationOrder_pairwise (hwf : Node.WellFormed nodes) :
    nodes.Pairwise fun n m => declarationOrder nodes n.id < declarationOrder nodes m.id := by
  rw [List.pairwise_iff_getElem]
  intro i j hi hj hij
  have horder : ∀ (k : Nat) (hk : k < nodes.length), declarationOrder nodes nodes[k].id = k := by
    intro k hk
    have hsplit : nodes = nodes.take k ++ nodes[k] :: nodes.drop (k + 1) := by
      rw [← List.drop_eq_getElem_cons hk, List.take_append_drop]
    rw [declarationOrder_eq hwf.distinct hsplit, List.length_take]
    omega
  rw [horder i hi, horder j hj]
  exact hij

/-- The cycle search and the topological order agree on graphs whose ids are not empty, and the
order is the first one by declaration. -/
theorem findCycle_agrees (hwf : Node.WellFormed nodes) (hne : ∀ n ∈ nodes, n.id ≠ "") :
    (findCycle nodes = none ↔ ∀ id ∈ Node.ids nodes, id ∈ topologicalIds nodes) ∧
      (∀ cycle, findCycle nodes = some cycle → ClosedPath nodes cycle) ∧
      (findCycle nodes = none → Node.Linearizes nodes (topologicalIds nodes) ∧
        ∀ order, Node.Linearizes nodes order →
          (topologicalIds nodes).map (declarationOrder nodes) = order.map (declarationOrder nodes) ∨
            List.Lex (· < ·) ((topologicalIds nodes).map (declarationOrder nodes))
              (order.map (declarationOrder nodes))) := by
  have hgreedy := topologicalIds_greedy hwf.distinct hne
  refine ⟨⟨?_, ?_⟩, fun cycle hcycle => findCycle_closedPath hwf hcycle, ?_⟩
  · intro hnone id hid
    have hlinear := topologicalIds_linearizes hwf hne (acyclic_of_findCycle hwf hnone)
    exact hlinear.perm.mem_iff.mpr hid
  · intro hall
    exact findCycle_of_acyclic hwf (hgreedy.linearizes_of_mem hwf hall).acyclic
  · intro hnone
    refine ⟨topologicalIds_linearizes hwf hne (acyclic_of_findCycle hwf hnone), ?_⟩
    intro order horder
    exact hgreedy.le_of_linearizes (declarationOrder_pairwise hwf) hwf.nodup_ids horder

/-- Two tasks of which the later declared comes first. -/
theorem findCycle_agrees_two :
    Node.Linearizes [⟨"ship", ["build"]⟩, ⟨"build", []⟩]
      (topologicalIds [⟨"ship", ["build"]⟩, ⟨"build", []⟩]) :=
  ((findCycle_agrees ⟨by decide, by decide, by decide⟩ (by decide)).2.2 (by decide +kernel)).1

/-- A node of the empty id ends the order before it is listed, though there is no cycle. -/
theorem topologicalIds_empty_id :
    Node.WellFormed [(⟨"", []⟩ : Node String), ⟨"build", []⟩] ∧
      findCycle [⟨"", []⟩, ⟨"build", []⟩] = none ∧
      topologicalIds [⟨"", []⟩, ⟨"build", []⟩] = [] :=
  ⟨⟨by decide, by decide, by decide⟩, by decide +kernel, by decide +kernel⟩

end BuildConductor.Domain
