import Mathlib.Data.List.Sort
import BuildConductor.Base.TopologicalOrder
import BuildConductor.Domain.Types
import BuildConductor.Domain.Paths

/-!
# Dependency graphs

The readers of command objects, the cycle search and the deterministic topological
order that plans, integration and scheduling share. `src/src/domain/dag.ts`.
-/

namespace BuildConductor.Domain

open Base (Node)

/-- A command as the object a document holds. -/
def ValidationCommand.toJson (c : ValidationCommand) : Json :=
  .obj [("command", .str c.command), ("args", Json.strings c.args)]

namespace Reading

/-- One argument of a command. `src/src/domain/dag.ts:217-237`. -/
def readCommandArgument (itemPath : String) (index : Nat) (argument : Json) : Reading String :=
  let argumentPath := s!"{itemPath}.args[{index}]"
  match argument with
  | .str text => do
    issueIf (includes text "\x00") "nul_byte" argumentPath
      s!"{argumentPath} cannot contain a NUL byte"
    pure text
  | _ => do
    addIssue "command_arg" argumentPath s!"{argumentPath} must be a string"
    pure ""

/-- `src/src/domain/dag.ts:181-239`. -/
def readCommandObject (item : Option Json) (itemPath : String) : Reading ValidationCommand :=
  match item with
  | some (.obj fields) => do
    let command ← readNonEmptyString (Json.field fields "command") s!"{itemPath}.command"
    issueIf (includes command "\x00") "nul_byte" s!"{itemPath}.command"
      s!"{itemPath}.command cannot contain a NUL byte"
    match Json.field fields "args" with
    | some (.arr items) => do
      let args ← readEach (readCommandArgument itemPath) 0 items
      pure ⟨command, args⟩
    | _ => do
      addIssue "command_args" s!"{itemPath}.args" s!"{itemPath}.args must be an array of strings"
      pure ⟨command, []⟩
  | _ => do
    addIssue "command_object" itemPath s!"{itemPath} must be an object"
    pure ⟨"", []⟩

/-- `src/src/domain/dag.ts:241-258`. -/
def readValidationCommands (value : Option Json) (path : String) :
    Reading (List ValidationCommand) :=
  match value with
  | some (.arr (item :: rest)) =>
    readEach (fun index entry => readCommandObject (some entry) s!"{path}[{index}]") 0
      (item :: rest)
  | _ => do
    addIssue "required_commands" path s!"{path} must be a non-empty array of command objects"
    pure []

end Reading

/-! ## Cycle search -/

/-- The dependencies of an id, none for an id no node declares. -/
def dependenciesOf (nodes : List (Node String)) (id : String) : List String :=
  match nodes.findRev? fun n => n.id = id with
  | some n => n.dependencies
  | none => []

/-- One visit of the depth-first search: a cycle, or the ids visited once it returns. The
path holds the ids being visited; each nested visit extends it by a declared id, so as much
fuel as there are nodes, plus one, is never used up. `src/src/domain/dag.ts:319-339`. -/
def visit (nodes : List (Node String)) : Nat → List String → List String → String →
    Except (List String) (List String)
  | 0, path, _, _ => .error path
  | fuel + 1, path, visited, id =>
    if id ∈ path then .error (path.drop (path.idxOf id) ++ [id])
    else if id ∈ visited then .ok visited
    else do
      let after ← (dependenciesOf nodes id).foldlM (visit nodes fuel (path ++ [id])) visited
      pure (after ++ [id])

/-- A dependency cycle, if one exists. `src/src/domain/dag.ts:309-348`. -/
def findCycle (nodes : List (Node String)) : Option (List String) :=
  match (Node.ids nodes).foldlM (visit nodes (nodes.length + 1) []) [] with
  | .error cycle => some cycle
  | .ok _ => none

/-! ## Topological order -/

/-- The position a node was declared at; a repeated id keeps its last one.
`src/src/domain/dag.ts:486-488`. -/
def declarationOrder (nodes : List (Node String)) (id : String) : Nat :=
  nodes.zipIdx.foldl (fun order e => if e.1.id = id then e.2 else order) 0

/-- The nodes that depend on an id, in declaration order. `src/src/domain/dag.ts:491-498`. -/
def dependentsOf (nodes : List (Node String)) (id : String) : List String :=
  nodes.flatMap fun n => (n.dependencies.filter (· = id)).map fun _ => n.id

/-- How many dependencies each node declares. -/
def declaredDependencies (nodes : List (Node String)) (id : String) : Int :=
  (dependenciesOf nodes id).length

/-- The loop variables of `topologicalIds`. -/
structure TopologicalLoop where
  ready : List String
  sorted : List String
  remainingDependencies : String → Int

/-- Count one dependency of a dependent as sorted. `src/src/domain/dag.ts:513-519`. -/
def settleDependency (loop : TopologicalLoop) (dependent : String) : TopologicalLoop :=
  let remaining := loop.remainingDependencies dependent - 1
  { loop with
    remainingDependencies := fun id =>
      if id = dependent then remaining else loop.remainingDependencies id
    ready := if remaining = 0 then loop.ready ++ [dependent] else loop.ready }

/-- `ready.sort(...)`: stable, by declaration order. -/
def sortReady (nodes : List (Node String)) (ready : List String) : List String :=
  ready.insertionSort fun left right => declarationOrder nodes left ≤ declarationOrder nodes right

/-- The loop of `topologicalIds`. `src/src/domain/dag.ts:503-520`. -/
def topologicalLoop (nodes : List (Node String)) : Nat → TopologicalLoop → List String
  | 0, loop => loop.sorted
  | fuel + 1, loop =>
    match sortReady nodes loop.ready with
    | [] => loop.sorted
    | id :: rest =>
      if id = "" then loop.sorted
      else
        topologicalLoop nodes fuel
          ((dependentsOf nodes id).foldl settleDependency
            { loop with ready := rest, sorted := loop.sorted ++ [id] })

/-- Deterministic topological order, declaration order breaking ties. Every pass sorts one id,
and an id enters `ready` at most once at the start and once when its count reaches zero, so
twice the number of nodes bounds the passes. `src/src/domain/dag.ts:483-522`. -/
def topologicalIds (nodes : List (Node String)) : List String :=
  topologicalLoop nodes (2 * nodes.length)
    { ready := nodes.flatMap fun n => if n.dependencies = [] then [n.id] else []
      sorted := []
      remainingDependencies := declaredDependencies nodes }

/-! ## Checked graphs -/

/-- Values are distinct exactly when each is fresh at its place. -/
theorem nodup_map_iff_fresh {α β : Type} {f : α → β} {xs : List α} :
    (xs.map f).Nodup ↔ ∀ (i : Nat) x, xs[i]? = some x → f x ∉ (xs.take i).map f := by
  rw [List.Nodup, List.pairwise_map, List.pairwise_iff_getElem]
  constructor
  · intro h i x hx hmem
    obtain ⟨hi, rfl⟩ := List.getElem?_eq_some_iff.mp hx
    obtain ⟨y, hy, heq⟩ := List.mem_map.mp hmem
    rw [List.mem_take_iff_getElem] at hy
    obtain ⟨j, hj, rfl⟩ := hy
    exact h j i (by omega) hi (by omega) heq
  · intro h i j hi hj hij heq
    apply h j xs[j] (List.getElem?_eq_getElem hj)
    rw [List.mem_map]
    refine ⟨xs[i], ?_, heq⟩
    rw [List.mem_take_iff_getElem]
    exact ⟨i, by omega, rfl⟩

/-- The identity and dependency checks of a plan, over its items in turn, are those of its graph. -/
theorem checkedGraph_iff {α : Type} {node : α → Node String} {xs : List α} :
    ((∀ (i : Nat) x, xs[i]? = some x → matchesIdPattern (node x).id = true ∧
        (node x).id ∉ (xs.take i).map (fun y => (node y).id) ∧ (node x).dependencies.Nodup ∧
        (node x).id ∉ (node x).dependencies) ∧
      ∀ (i : Nat) x, xs[i]? = some x → ∀ d ∈ (node x).dependencies, d ∈ xs.map fun y => (node y).id) ↔
    Node.WellFormed (xs.map node) ∧ (∀ x ∈ xs, matchesIdPattern (node x).id = true) ∧
      ∀ x ∈ xs, (node x).id ∉ (node x).dependencies := by
  have hids : Node.ids (xs.map node) = xs.map fun x => (node x).id := List.map_map
  constructor
  · rintro ⟨hidentity, hknown⟩
    have hmem : ∀ x ∈ xs, ∃ i, xs[i]? = some x := fun x hx => List.mem_iff_getElem?.mp hx
    refine ⟨⟨?_, ?_, ?_⟩, ?_, ?_⟩
    · rw [hids, nodup_map_iff_fresh]
      exact fun i x hx => (hidentity i x hx).2.1
    · intro n hn
      obtain ⟨x, hx, rfl⟩ := List.mem_map.mp hn
      obtain ⟨i, hi⟩ := hmem x hx
      exact (hidentity i x hi).2.2.1
    · intro n hn d hd
      obtain ⟨x, hx, rfl⟩ := List.mem_map.mp hn
      obtain ⟨i, hi⟩ := hmem x hx
      rw [hids]
      exact hknown i x hi d hd
    · intro x hx
      obtain ⟨i, hi⟩ := hmem x hx
      exact (hidentity i x hi).1
    · intro x hx
      obtain ⟨i, hi⟩ := hmem x hx
      exact (hidentity i x hi).2.2.2
  · rintro ⟨hwf, hpattern, hirreflexive⟩
    have hfresh := nodup_map_iff_fresh.mp (hids ▸ hwf.nodup_ids)
    constructor
    · intro i x hi
      have hx := List.mem_of_getElem? hi
      exact ⟨hpattern x hx, hfresh i x hi,
        hwf.nodup_dependencies _ (List.mem_map_of_mem hx), hirreflexive x hx⟩
    · intro i x hi d hd
      have hx := List.mem_of_getElem? hi
      have hknown := hwf.known _ (List.mem_map_of_mem hx) d hd
      rwa [hids] at hknown

/-! ## Reading again -/

namespace Reading

private theorem readCommandArgument_again {itemPath : String} {index : Nat} {argument : Json}
    {text : String} (h : readCommandArgument itemPath index argument = ⟨text, []⟩) :
    readCommandArgument itemPath index (.str text) = ⟨text, []⟩ := by
  unfold readCommandArgument at h
  split at h
  · next t =>
    simp only [bind_eq_clean_iff, pure_eq_clean_iff] at h
    obtain ⟨u, hnul, rfl⟩ := h
    simp only [readCommandArgument, bind_eq_clean_iff, pure_eq_clean_iff]
    exact ⟨u, hnul, trivial⟩
  · simp [bind_eq_clean_iff] at h

/-- A command read without issue reads back as itself. -/
theorem readCommandObject_again {item : Option Json} {itemPath : String} {c : ValidationCommand}
    (h : readCommandObject item itemPath = ⟨c, []⟩) :
    readCommandObject (some c.toJson) itemPath = ⟨c, []⟩ := by
  unfold readCommandObject at h
  split at h
  · next fields =>
    simp only [bind_eq_clean_iff] at h
    obtain ⟨command, hcommand, u, hnul, h⟩ := h
    split at h
    · next items _ =>
      simp only [bind_eq_clean_iff, pure_eq_clean_iff] at h
      obtain ⟨args, hargs, rfl⟩ := h
      have hcommand' := (readNonEmptyString_again hcommand s!"{itemPath}.command").1
      have hargs' := readEach_again hargs fun _ _ _ => readCommandArgument_again
      simp only [readCommandObject, ValidationCommand.toJson, bind_eq_clean_iff]
      refine ⟨command, hcommand', u, hnul, ?_⟩
      change (readEach _ 0 (args.map Json.str) >>= _) = _
      simp only [bind_eq_clean_iff, pure_eq_clean_iff]
      exact ⟨args, hargs', rfl⟩
    · simp [bind_eq_clean_iff] at h
  · simp [bind_eq_clean_iff] at h

/-- Commands read without issue read back as themselves. -/
theorem readValidationCommands_again {value : Option Json} {path : String}
    {cs : List ValidationCommand} (h : readValidationCommands value path = ⟨cs, []⟩) :
    readValidationCommands (some (.arr (cs.map ValidationCommand.toJson))) path = ⟨cs, []⟩ ∧
      cs ≠ [] := by
  unfold readValidationCommands at h
  split at h
  · next item rest =>
    have hagain : readEach (fun index entry => readCommandObject (some entry) s!"{path}[{index}]") 0
        (cs.map ValidationCommand.toJson) = ⟨cs, []⟩ :=
      readEach_again h fun _ _ _ => readCommandObject_again
    cases cs with
    | nil =>
      rw [readEach_eq_clean_iff] at h
      simp at h
    | cons c cs => exact ⟨hagain, by simp⟩
  · simp [bind_eq_clean_iff] at h

end Reading
end BuildConductor.Domain
