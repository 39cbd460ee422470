import Mathlib.Algebra.Order.BigOperators.Group.List
import Mathlib.Algebra.Order.Ring.Nat
import Mathlib.Data.List.Basic
import Mathlib.Data.List.Nodup
import Mathlib.Data.List.Perm.Basic
import Mathlib.Data.List.Perm.Subperm

/-!
# Greedy topological order

Nodes that declare their dependencies, and the order that always takes the first
declared node whose dependencies are all taken. On an acyclic graph the order lists
every node once, each after its dependencies, and appending nodes to the declaration
appends them to the order.
-/

namespace BuildConductor.Base

universe u

/-- A node naming the nodes it depends on. -/
structure Node (ι : Type u) where
  id : ι
  dependencies : List ι

namespace Node

variable {ι : Type u}

/-- The declared identifiers, in declaration order. -/
def ids (nodes : List (Node ι)) : List ι := nodes.map Node.id

/-- Identifiers and dependencies are unique and every dependency is declared. -/
structure WellFormed (nodes : List (Node ι)) : Prop where
  nodup_ids : (ids nodes).Nodup
  nodup_dependencies : ∀ n ∈ nodes, n.dependencies.Nodup
  known : ∀ n ∈ nodes, ∀ d ∈ n.dependencies, d ∈ ids nodes

/-- Identifiers and dependencies are unique. -/
structure Distinct (nodes : List (Node ι)) : Prop where
  nodup_ids : (ids nodes).Nodup
  nodup_dependencies : ∀ n ∈ nodes, n.dependencies.Nodup

theorem WellFormed.distinct {nodes : List (Node ι)} (h : WellFormed nodes) : Distinct nodes :=
  ⟨h.nodup_ids, h.nodup_dependencies⟩

/-- Dependencies can be ranked below their dependents. -/
def Acyclic (nodes : List (Node ι)) : Prop :=
  ∃ rank : ι → Nat, ∀ n ∈ nodes, ∀ d ∈ n.dependencies, rank d < rank n.id

/-- An order listing every node once, each after all its dependencies. -/
structure Linearizes (nodes : List (Node ι)) (order : List ι) : Prop where
  perm : order.Perm (ids nodes)
  precede : ∀ pre id post, order = pre ++ id :: post →
    ∀ n ∈ nodes, n.id = id → ∀ d ∈ n.dependencies, d ∈ pre

/-- Nodes listed after the known ones they depend on, each of them new. -/
def Follows (known : List ι) : List (Node ι) → Prop
  | [] => True
  | n :: rest =>
    n.id ∉ known ∧ n.dependencies.Nodup ∧ (∀ d ∈ n.dependencies, d ∈ known) ∧
      Follows (known ++ [n.id]) rest

theorem ids_append (front back : List (Node ι)) : ids (front ++ back) = ids front ++ ids back :=
  List.map_append

private theorem WellFormed.append {front : List (Node ι)} (h : WellFormed front) {n : Node ι}
    (hnew : n.id ∉ ids front) (hnodup : n.dependencies.Nodup)
    (hknown : ∀ d ∈ n.dependencies, d ∈ ids front) : WellFormed (front ++ [n]) where
  nodup_ids := by
    rw [ids_append, List.nodup_append_comm]
    exact List.nodup_cons.mpr ⟨hnew, h.nodup_ids⟩
  nodup_dependencies := by
    intro m hm
    rcases List.mem_append.mp hm with hm | hm
    · exact h.nodup_dependencies m hm
    · rw [List.mem_singleton.mp hm]
      exact hnodup
  known := by
    intro m hm d hd
    rw [ids_append, List.mem_append]
    rcases List.mem_append.mp hm with hm | hm
    · exact Or.inl (h.known m hm d hd)
    · rw [List.mem_singleton.mp hm] at hd
      exact Or.inl (hknown d hd)

/-- A new node ranks above the sum of the ranks there were. -/
private theorem Acyclic.append {front : List (Node ι)} (h : Acyclic front) (hwf : WellFormed front)
    {n : Node ι} (hnew : n.id ∉ ids front) (hknown : ∀ d ∈ n.dependencies, d ∈ ids front) :
    Acyclic (front ++ [n]) := by
  classical
  obtain ⟨rank, hrank⟩ := h
  refine ⟨fun id => if id = n.id then ((ids front).map rank).sum + 1 else rank id, ?_⟩
  intro m hm d hd
  have hdeclared : d ∈ ids front := by
    rcases List.mem_append.mp hm with hm | hm
    · exact hwf.known m hm d hd
    · rw [List.mem_singleton.mp hm] at hd
      exact hknown d hd
  have hne : d ≠ n.id := fun heq => hnew (heq ▸ hdeclared)
  dsimp only
  rw [if_neg hne]
  rcases List.mem_append.mp hm with hm | hm
  · have hother : m.id ≠ n.id := fun heq => hnew (heq ▸ List.mem_map_of_mem hm)
    rw [if_neg hother]
    exact hrank m hm d hd
  · rw [List.mem_singleton.mp hm, if_pos rfl]
    have hle := List.single_le_sum (by simp) _ (List.mem_map_of_mem (f := rank) hdeclared)
    omega

/-- Nodes that follow a well-formed graph extend it. -/
theorem Follows.wellFormed {front back : List (Node ι)} (hwf : WellFormed front)
    (h : Follows (ids front) back) : WellFormed (front ++ back) := by
  induction back generalizing front with
  | nil => rwa [List.append_nil]
  | cons n rest ih =>
    obtain ⟨hnew, hnodup, hknown, hrest⟩ := h
    rw [List.append_cons]
    apply ih (hwf.append hnew hnodup hknown)
    rw [ids_append]
    exact hrest

/-- Nodes that follow an acyclic graph close no cycle. -/
theorem Follows.acyclic {front back : List (Node ι)} (hwf : WellFormed front)
    (hacyclic : Acyclic front) (h : Follows (ids front) back) : Acyclic (front ++ back) := by
  induction back generalizing front with
  | nil => rwa [List.append_nil]
  | cons n rest ih =>
    obtain ⟨hnew, hnodup, hknown, hrest⟩ := h
    rw [List.append_cons]
    apply ih (hwf.append hnew hnodup hknown) (hacyclic.append hwf hnew hknown)
    rw [ids_append]
    exact hrest

/-- Nodes that follow what they depend on still follow it among more known ones. -/
theorem Follows.extend {extra known : List ι} {back : List (Node ι)} (h : Follows known back)
    (hnew : ∀ n ∈ back, n.id ∉ extra) : Follows (extra ++ known) back := by
  induction back generalizing known with
  | nil => trivial
  | cons n rest ih =>
    obtain ⟨hfresh, hnodup, hknown, hrest⟩ := h
    refine ⟨?_, hnodup, fun d hd => List.mem_append_right _ (hknown d hd), ?_⟩
    · rw [List.mem_append, not_or]
      exact ⟨hnew n (List.mem_cons_self ..), hfresh⟩
    · rw [List.append_assoc]
      exact ih hrest fun m hm => hnew m (List.mem_cons_of_mem _ hm)

theorem Follows.append {known : List ι} {xs ys : List (Node ι)} (hxs : Follows known xs)
    (hys : Follows (known ++ ids xs) ys) : Follows known (xs ++ ys) := by
  induction xs generalizing known with
  | nil =>
    rw [ids, List.map_nil, List.append_nil] at hys
    exact hys
  | cons n rest ih =>
    obtain ⟨hfresh, hnodup, hknown, hrest⟩ := hxs
    refine ⟨hfresh, hnodup, hknown, ih hrest ?_⟩
    rw [List.append_assoc]
    exact hys

/-- Distinct new nodes that depend on the same known ones follow them. -/
theorem follows_fan {known dependencies new : List ι} (hnodup : dependencies.Nodup)
    (hknown : ∀ d ∈ dependencies, d ∈ known) (hnew : new.Nodup) (hfresh : ∀ id ∈ new, id ∉ known) :
    Follows known (new.map fun id => ⟨id, dependencies⟩) := by
  induction new generalizing known with
  | nil => trivial
  | cons id rest ih =>
    rw [List.nodup_cons] at hnew
    refine ⟨hfresh id (List.mem_cons_self ..), hnodup, hknown, ?_⟩
    refine ih (fun d hd => List.mem_append_left _ (hknown d hd)) hnew.2 ?_
    intro other hother
    rw [List.mem_append, List.mem_singleton, not_or]
    refine ⟨hfresh other (List.mem_cons_of_mem _ hother), ?_⟩
    rintro rfl
    exact hnew.1 hother

private theorem exists_rank_minimal {p : Node ι → Prop} (rank : ι → Nat) (n : Node ι) (hn : p n) :
    ∃ m, p m ∧ ∀ k, p k → rank m.id ≤ rank k.id := by
  induction hr : rank n.id using Nat.strongRecOn generalizing n with
  | ind r ih =>
    by_cases hmin : ∀ k, p k → rank n.id ≤ rank k.id
    · exact ⟨n, hn, hmin⟩
    · push Not at hmin
      obtain ⟨k, hk, hlt⟩ := hmin
      exact ih (rank k.id) (by omega) k hk rfl

variable [DecidableEq ι]

instance Follows.decidable : (known : List ι) → (back : List (Node ι)) →
    Decidable (Follows known back)
  | _, [] => isTrue trivial
  | known, n :: rest =>
    have := Follows.decidable (known ++ [n.id]) rest
    inferInstanceAs (Decidable (n.id ∉ known ∧ n.dependencies.Nodup ∧
      (∀ d ∈ n.dependencies, d ∈ known) ∧ Follows (known ++ [n.id]) rest))

/-- Not taken yet, with every dependency taken. -/
def isReady (taken : List ι) (n : Node ι) : Bool :=
  n.id ∉ taken && n.dependencies.all (· ∈ taken)

/-- The first declared node that is ready. -/
def nextReady (nodes : List (Node ι)) (taken : List ι) : Option (Node ι) :=
  nodes.find? (isReady taken)

/-- The order obtained by always taking the first ready node. -/
inductive GreedyFrom (nodes : List (Node ι)) : List ι → List ι → Prop
  | done {taken} : nextReady nodes taken = none → GreedyFrom nodes taken []
  | take {taken n rest} : nextReady nodes taken = some n →
      GreedyFrom nodes (taken ++ [n.id]) rest → GreedyFrom nodes taken (n.id :: rest)

theorem isReady_iff {taken : List ι} {n : Node ι} :
    isReady taken n = true ↔ n.id ∉ taken ∧ ∀ d ∈ n.dependencies, d ∈ taken := by
  simp [isReady]

theorem nextReady_mem {nodes : List (Node ι)} {taken : List ι} {n : Node ι}
    (h : nextReady nodes taken = some n) : n ∈ nodes ∧ isReady taken n = true :=
  ⟨List.mem_of_find?_eq_some h, List.find?_some h⟩

/-- The greedy order is unique. -/
theorem GreedyFrom.unique {nodes : List (Node ι)} {taken first second : List ι}
    (h : GreedyFrom nodes taken first) : GreedyFrom nodes taken second → first = second := by
  induction h generalizing second with
  | done hnone =>
    intro h
    cases h with
    | done => rfl
    | take hsome _ => rw [hnone] at hsome; cases hsome
  | take hsome _ ih =>
    intro h
    cases h with
    | done hnone => rw [hnone] at hsome; cases hsome
    | take hsome' hrest =>
      rw [hsome] at hsome'
      cases hsome'
      rw [ih hrest]

/-- While a node is missing, some node is ready. -/
theorem exists_nextReady {nodes : List (Node ι)} (hwf : WellFormed nodes) (hac : Acyclic nodes)
    {taken : List ι} {n : Node ι} (hn : n ∈ nodes) (hmissing : n.id ∉ taken) :
    ∃ m, nextReady nodes taken = some m := by
  obtain ⟨rank, hrank⟩ := hac
  obtain ⟨m, ⟨hm, hmt⟩, hmin⟩ :=
    exists_rank_minimal (p := fun k => k ∈ nodes ∧ k.id ∉ taken) rank n ⟨hn, hmissing⟩
  have hready : isReady taken m = true := by
    rw [isReady_iff]
    refine ⟨hmt, fun d hd => ?_⟩
    by_contra hdt
    obtain ⟨k, hk, hkd⟩ := List.mem_map.mp (hwf.known m hm d hd)
    have hle := hmin k ⟨hk, by rwa [hkd]⟩
    have hlt := hrank m hm d hd
    rw [hkd] at hle
    omega
  cases hfind : nextReady nodes taken with
  | some k => exact ⟨k, rfl⟩
  | none =>
    have hnone := List.find?_eq_none.mp hfind m hm
    exact absurd hready hnone

/-- A greedy order extends the taken nodes without repetition, respecting dependencies. -/
private theorem GreedyFrom.sound {nodes : List (Node ι)} (hwf : Distinct nodes)
    {taken rest : List ι} (h : GreedyFrom nodes taken rest)
    (hnodup : taken.Nodup) (hsub : ∀ x ∈ taken, x ∈ ids nodes)
    (hprec : ∀ pre id post, taken = pre ++ id :: post →
      ∀ n ∈ nodes, n.id = id → ∀ d ∈ n.dependencies, d ∈ pre) :
    (taken ++ rest).Nodup ∧ (∀ x ∈ taken ++ rest, x ∈ ids nodes) ∧
      (∀ pre id post, taken ++ rest = pre ++ id :: post →
        ∀ n ∈ nodes, n.id = id → ∀ d ∈ n.dependencies, d ∈ pre) ∧
      nextReady nodes (taken ++ rest) = none := by
  induction h with
  | done hnone =>
    rw [List.append_nil]
    exact ⟨hnodup, hsub, hprec, hnone⟩
  | @take taken n rest hsome _ ih =>
    obtain ⟨hn, hready⟩ := nextReady_mem hsome
    rw [isReady_iff] at hready
    rw [show taken ++ n.id :: rest = taken ++ [n.id] ++ rest by simp]
    apply ih
    · rw [List.nodup_append]
      refine ⟨hnodup, by simp, ?_⟩
      intro x hx y hy hxy
      rw [List.mem_singleton] at hy
      subst hy hxy
      exact hready.1 hx
    · intro x hx
      rcases List.mem_append.mp hx with h | h
      · exact hsub x h
      · rw [List.mem_singleton] at h
        subst h
        exact List.mem_map.mpr ⟨n, hn, rfl⟩
    · intro pre id post hsplit m hm hmid d hd
      rcases List.eq_nil_or_concat post with rfl | ⟨post, last, rfl⟩
      · obtain ⟨rfl, hid⟩ : taken = pre ∧ n.id = id := by
          have := List.append_inj' hsplit rfl
          simpa using this
        have hmn : m = n := by
          apply List.inj_on_of_nodup_map hwf.nodup_ids hm hn
          rw [hmid, hid]
        subst hmn
        exact hready.2 d hd
      · have hfront : taken = pre ++ id :: post := by
          have hends : taken ++ [n.id] = (pre ++ id :: post) ++ [last] := by simpa using hsplit
          exact (List.append_inj' hends rfl).1
        exact hprec pre id post hfront m hm hmid d hd

/-- A greedy order lists declared nodes once each, and the dependencies of what it lists. -/
theorem GreedyFrom.closed {nodes : List (Node ι)} (hdistinct : Distinct nodes) {order : List ι}
    (h : GreedyFrom nodes [] order) :
    order.Nodup ∧ (∀ x ∈ order, x ∈ ids nodes) ∧
      ∀ n ∈ nodes, n.id ∈ order → ∀ d ∈ n.dependencies, d ∈ order := by
  obtain ⟨hnodup, hsub, hprec, -⟩ := h.sound hdistinct List.nodup_nil (by simp) (by simp)
  simp only [List.nil_append] at hnodup hsub hprec
  refine ⟨hnodup, hsub, fun n hn hmem d hd => ?_⟩
  obtain ⟨pre, post, hsplit⟩ := List.append_of_mem hmem
  rw [hsplit]
  exact List.mem_append_left _ (hprec pre n.id post hsplit n hn rfl d hd)

/-- On an acyclic graph the greedy order lists every node after its dependencies. -/
theorem GreedyFrom.linearizes {nodes : List (Node ι)} (hwf : WellFormed nodes)
    (hac : Acyclic nodes) {order : List ι} (h : GreedyFrom nodes [] order) :
    Linearizes nodes order := by
  obtain ⟨hnodup, hsub, hprec, hnone⟩ := h.sound hwf.distinct List.nodup_nil (by simp) (by simp)
  simp only [List.nil_append] at hnodup hsub hprec hnone
  refine ⟨?_, hprec⟩
  rw [List.perm_ext_iff_of_nodup hnodup hwf.nodup_ids]
  intro x
  refine ⟨hsub x, fun hx => ?_⟩
  obtain ⟨n, hn, rfl⟩ := List.mem_map.mp hx
  by_contra hmissing
  obtain ⟨m, hm⟩ := exists_nextReady hwf hac hn hmissing
  rw [hnone] at hm
  cases hm

/-- A greedy order that misses no node lists every node after its dependencies. -/
theorem GreedyFrom.linearizes_of_mem {nodes : List (Node ι)} (hwf : WellFormed nodes)
    {order : List ι} (h : GreedyFrom nodes [] order) (hall : ∀ x ∈ ids nodes, x ∈ order) :
    Linearizes nodes order := by
  obtain ⟨hnodup, hsub, hprec, -⟩ := h.sound hwf.distinct List.nodup_nil (by simp) (by simp)
  simp only [List.nil_append] at hnodup hsub hprec
  refine ⟨?_, hprec⟩
  rw [List.perm_ext_iff_of_nodup hnodup hwf.nodup_ids]
  exact fun x => ⟨hsub x, hall x⟩

/-- Nodes that can be listed after their dependencies are acyclic: the positions rank them. -/
theorem Linearizes.acyclic {nodes : List (Node ι)} {order : List ι} (h : Linearizes nodes order) :
    Acyclic nodes := by
  refine ⟨fun x => order.idxOf x, fun n hn d hd => ?_⟩
  have hmem : n.id ∈ order := h.perm.mem_iff.mpr (List.mem_map.mpr ⟨n, hn, rfl⟩)
  obtain ⟨pre, post, hsplit, hfresh⟩ := List.eq_append_cons_of_mem hmem
  have hdpre : d ∈ pre := h.precede pre n.id post hsplit n hn rfl d hd
  have hposition : order.idxOf n.id = pre.length := by
    rw [hsplit, List.idxOf_append_of_notMem hfresh, List.idxOf_cons_self, Nat.add_zero]
  have hearlier : order.idxOf d < pre.length := by
    rw [hsplit, List.idxOf_append_of_mem hdpre]
    exact List.idxOf_lt_length_of_mem hdpre
  show order.idxOf d < order.idxOf n.id
  omega

/-- The first ready node ranks lowest among the ready ones when ranks grow along the declaration. -/
private theorem nextReady_rank_le {nodes : List (Node ι)} {rank : ι → Nat}
    (hrank : nodes.Pairwise fun n m => rank n.id < rank m.id) {taken : List ι} {n m : Node ι}
    (hnext : nextReady nodes taken = some n) (hm : m ∈ nodes) (hready : isReady taken m = true) :
    n = m ∨ rank n.id < rank m.id := by
  obtain ⟨-, pre, post, hsplit, hpre⟩ := List.find?_eq_some_iff_append.mp hnext
  rw [hsplit, List.pairwise_append, List.pairwise_cons] at hrank
  rw [hsplit, List.mem_append, List.mem_cons] at hm
  rcases hm with hm | rfl | hm
  · have hnot := hpre m hm
    rw [hready] at hnot
    cases hnot
  · exact Or.inl rfl
  · exact Or.inr (hrank.2.1.1 m hm)

/-- Of all the orders that list nodes after their dependencies, the greedy one is the first by
ranks that grow along the declaration: where another order first differs from it, that order took a
ready node of a higher rank. -/
theorem GreedyFrom.le_of_linearizes {nodes : List (Node ι)} {rank : ι → Nat}
    (hrank : nodes.Pairwise fun n m => rank n.id < rank m.id) {taken rest other : List ι}
    (h : GreedyFrom nodes taken rest) (hnodup : (ids nodes).Nodup)
    (hother : Linearizes nodes (taken ++ other)) :
    rest.map rank = other.map rank ∨ List.Lex (· < ·) (rest.map rank) (other.map rank) := by
  induction h generalizing other with
  | done _ =>
    cases other with
    | nil => exact Or.inl rfl
    | cons x others => exact Or.inr List.Lex.nil
  | @take taken n rest hnext _ ih =>
    obtain ⟨hn, hready⟩ := nextReady_mem hnext
    cases other with
    | nil =>
      have hmem : n.id ∈ taken ++ [] := hother.perm.mem_iff.mpr (List.mem_map.mpr ⟨n, hn, rfl⟩)
      rw [List.append_nil] at hmem
      exact absurd hmem (isReady_iff.mp hready).1
    | cons x others =>
      have hx : x ∈ ids nodes := hother.perm.mem_iff.mp (by simp)
      obtain ⟨m, hm, rfl⟩ := List.mem_map.mp hx
      have hdistinct : (taken ++ m.id :: others).Nodup := hother.perm.nodup_iff.mpr hnodup
      have hmready : isReady taken m = true := by
        rw [isReady_iff]
        constructor
        · intro hmem
          exact (List.disjoint_of_nodup_append hdistinct) hmem List.mem_cons_self
        · exact hother.precede taken m.id others rfl m hm rfl
      rcases nextReady_rank_le hrank hnext hm hmready with rfl | hlt
      · have hothers : Linearizes nodes (taken ++ [n.id] ++ others) := by
          rwa [List.append_assoc, List.singleton_append]
        rw [List.map_cons, List.map_cons]
        rcases ih hothers with heq | hlex
        · exact Or.inl (by rw [heq])
        · exact Or.inr (List.Lex.cons hlex)
      · exact Or.inr (List.Lex.rel hlt)

/-- Growing the declaration grows the greedy order at its end. -/
private theorem GreedyFrom.prefix_of_append {nodes more : List (Node ι)} {taken old : List ι}
    (h : GreedyFrom nodes taken old) :
    ∀ {new}, GreedyFrom (nodes ++ more) taken new → old <+: new := by
  induction h with
  | done _ => exact fun _ => List.nil_prefix
  | @take taken n rest hsome _ ih =>
    intro new hnew
    have hfirst : nextReady (nodes ++ more) taken = some n := by
      unfold nextReady at hsome ⊢
      rw [List.find?_append, hsome]
      rfl
    cases hnew with
    | done hnone => rw [hfirst] at hnone; cases hnone
    | take hsome' hrest =>
      rw [hfirst] at hsome'
      cases hsome'
      rw [List.cons_prefix_cons]
      exact ⟨rfl, ih hrest⟩

/-- Appended nodes follow every earlier node in the greedy order, which is otherwise kept. -/
theorem GreedyFrom.append {nodes more : List (Node ι)} (hwf : WellFormed (nodes ++ more))
    (hac : Acyclic (nodes ++ more)) {old new : List ι} (hold : GreedyFrom nodes [] old)
    (hlin : Linearizes nodes old) (hnew : GreedyFrom (nodes ++ more) [] new) :
    ∃ added, new = old ++ added ∧ added.Perm (ids more) := by
  obtain ⟨added, rfl⟩ := hold.prefix_of_append hnew
  refine ⟨added, rfl, ?_⟩
  have hperm := (hnew.linearizes hwf hac).perm
  have hsplit : ids (nodes ++ more) = ids nodes ++ ids more := by simp [ids]
  rw [hsplit] at hperm
  exact (List.perm_append_left_iff (ids nodes)).mp ((hlin.perm.append_right added).symm.trans hperm)

end Node
end BuildConductor.Base
