import BuildConductor.Base.OrderedRecord
import BuildConductor.Base.ThreeWayMerge
import BuildConductor.Domain.JsonText
import BuildConductor.Domain.TaskPlans

/-!
# Merging concurrent plan changes

A candidate that could not be saved is merged with the plan another session stored meanwhile. Order
and content of the tasks are merged on their own, and values are compared by their texts.
`src/src/planning/plan-editor.ts:95-207`.
-/

namespace BuildConductor.Planning

open Base Domain

/-! ## The code -/

/-- The part of the editor's state that a merge reads. `src/src/planning/plan-editor.ts:27-32`. -/
structure PlanEditorSnapshot where
  plan : TaskPlan
  maxConcurrentWorkers : Nat
  planRevision : Nat
deriving DecidableEq

/-- A merged value and the conflicts found on the way. -/
structure Merging (α : Type) where
  value : α
  conflicts : List String
deriving DecidableEq

instance : Monad Merging where
  pure a := ⟨a, []⟩
  bind m f := ⟨(f m.value).value, m.conflicts ++ (f m.value).conflicts⟩

/-- `conflicts.push(conflict)`. -/
def report (conflict : String) : Merging Unit := ⟨(), [conflict]⟩

/-- `JSON.stringify(value)`, of a value that may be undefined. -/
def stringify (value : Option Json) : Option String := value.map (jsonText .compact)

/-- `src/src/planning/plan-editor.ts:95-97`. -/
def valuesEqual (left right : Option Json) : Bool := stringify left = stringify right

/-- `src/src/planning/plan-editor.ts:99-101`. -/
def displayedValue (value : Option Json) : String := (stringify value).getD "(absent)"

/-- The text of a conflict. -/
def conflictText (path : String) (candidate latest : Option Json) : String :=
  s!"{path}: latest={displayedValue latest}, yours={displayedValue candidate}"

/-- Values are compared and shown as documents. `src/src/planning/plan-editor.ts:103-121`. -/
def mergeValue {α : Type} (document : α → Option Json) (path : String)
    (base candidate latest : α) : Merging α :=
  if valuesEqual (document candidate) (document base) then pure latest
  else if valuesEqual (document latest) (document base) ||
      valuesEqual (document candidate) (document latest) then pure candidate
  else do
    report (conflictText path (document candidate) (document latest))
    pure candidate

/-- The tasks by their ids. -/
def tasksById (tasks : List TaskDefinition) : OrderedRecord String TaskDefinition :=
  .ofList (tasks.map fun task => (task.id, task))

/-- The document of a task that may be missing. -/
def taskDocument (task : Option TaskDefinition) : Option Json := task.map TaskDefinition.toJson

/-- The loop over the ids. `src/src/planning/plan-editor.ts:144-156`. -/
def mergeById (baseById candidateById latestById : OrderedRecord String TaskDefinition) :
    List String → OrderedRecord String TaskDefinition →
      Merging (OrderedRecord String TaskDefinition)
  | [], mergedById => pure mergedById
  | id :: rest, mergedById => do
    let merged ← mergeValue taskDocument s!"task {id}" (baseById.get? id) (candidateById.get? id)
      (latestById.get? id)
    match merged with
    | some task => mergeById baseById candidateById latestById rest (mergedById.set id task)
    | none => mergeById baseById candidateById latestById rest mergedById

/-- The ids of some tasks, in their order. -/
def taskOrder (tasks : List TaskDefinition) : List String := tasks.map fun task => task.id

/-- The document of a list of ids. -/
def orderDocument (ids : List String) : Option Json := some (Json.strings ids)

/-- `src/src/planning/plan-editor.ts:123-163`. -/
def mergeTasks (base candidate latest : List TaskDefinition) : Merging (List TaskDefinition) := do
  let mergedOrder ← mergeValue orderDocument "task order" (taskOrder base) (taskOrder candidate)
    (taskOrder latest)
  let allIds := (taskOrder latest ++ taskOrder candidate ++ taskOrder base).eraseDups
  let mergedById ← mergeById (tasksById base) (tasksById candidate) (tasksById latest) allIds .empty
  pure ((mergedOrder ++ allIds).eraseDups.filterMap mergedById.get?)

/-- The document of a text. -/
def textDocument (text : String) : Option Json := some (.str text)

/-- The document of some commands. -/
def commandsDocument (commands : List ValidationCommand) : Option Json :=
  some (.arr (commands.map ValidationCommand.toJson))

/-- The document of a number. -/
def countDocument (count : Nat) : Option Json := some (.number count)

/-- A merged plan with its worker limit. -/
structure MergedCandidate where
  plan : TaskPlan
  maxConcurrentWorkers : Nat
deriving DecidableEq

/-- `src/src/planning/plan-editor.ts:165-207`. -/
def mergeConcurrentCandidate (base : PlanEditorSnapshot) (candidate : TaskPlan)
    (candidateWorkerLimit : Nat) (latest : PlanEditorSnapshot) : Merging MergedCandidate := do
  let title ← mergeValue textDocument "title" base.plan.title candidate.title latest.plan.title
  let tasks ← mergeTasks base.plan.tasks candidate.tasks latest.plan.tasks
  let finalValidationCommands ← mergeValue commandsDocument "final validation commands"
    base.plan.finalValidationCommands candidate.finalValidationCommands
    latest.plan.finalValidationCommands
  let maxConcurrentWorkers ← mergeValue countDocument "worker limit" base.maxConcurrentWorkers
    candidateWorkerLimit latest.maxConcurrentWorkers
  pure ⟨⟨title, tasks, finalValidationCommands⟩, maxConcurrentWorkers⟩

/-! ## Values and their texts -/

@[simp] theorem Merging.bind_value {α β : Type} (m : Merging α) (f : α → Merging β) :
    (m >>= f).value = (f m.value).value := rfl

@[simp] theorem Merging.bind_conflicts {α β : Type} (m : Merging α) (f : α → Merging β) :
    (m >>= f).conflicts = m.conflicts ++ (f m.value).conflicts := rfl

@[simp] theorem Merging.pure_value {α : Type} (a : α) : (pure a : Merging α).value = a := rfl

@[simp] theorem Merging.pure_conflicts {α : Type} (a : α) :
    (pure a : Merging α).conflicts = [] := rfl

/-- Values that can be written and have equal texts are equal. -/
private theorem jsonText_inj {left right : Json} (hleft : left.Writable) (hright : right.Writable)
    (h : jsonText .compact left = jsonText .compact right) : left = right := by
  have hread : ∀ {value : Json}, value.Writable →
      parseJson (jsonText .compact value ++ String.ofList []) = some value := fun hvalue =>
    parseJson_jsonText .compact hvalue [] (by simp)
  have hsame := hread hleft
  rw [h, hread hright, Option.some.injEq] at hsame
  exact hsame.symm

/-- A document is equal to another in its text exactly when the values are equal. -/
structure Distinguishes {α : Type} (document : α → Option Json) : Prop where
  writable : ∀ a value, document a = some value → value.Writable
  injective : ∀ a b, document a = document b → a = b

theorem Distinguishes.valuesEqual_iff {α : Type} {document : α → Option Json}
    (h : Distinguishes document) {a b : α} :
    valuesEqual (document a) (document b) = true ↔ a = b := by
  unfold valuesEqual
  rw [decide_eq_true_eq]
  refine ⟨fun heq => h.injective a b ?_, fun heq => by rw [heq]⟩
  unfold stringify at heq
  cases ha : document a with
  | none =>
    cases hb : document b with
    | none => rfl
    | some right =>
      rw [ha, hb] at heq
      cases heq
  | some left =>
    cases hb : document b with
    | none =>
      rw [ha, hb] at heq
      cases heq
    | some right =>
      rw [ha, hb, Option.map_some, Option.map_some, Option.some.injEq] at heq
      rw [jsonText_inj (h.writable a left ha) (h.writable b right hb) heq]

private theorem textDocument_distinguishes : Distinguishes textDocument := by
  constructor
  · intro text value hvalue
    cases hvalue
    trivial
  · intro a b hsame
    cases hsame
    rfl

private theorem countDocument_distinguishes : Distinguishes countDocument := by
  constructor
  · intro count value hvalue
    cases hvalue
    trivial
  · intro a b hsame
    unfold countDocument at hsame
    rw [Option.some.injEq, Json.number.injEq] at hsame
    omega

private theorem strings_inj {xs ys : List String} (h : Json.strings xs = Json.strings ys) :
    xs = ys := by
  unfold Json.strings at h
  rw [Json.arr.injEq] at h
  exact List.map_injective_iff.mpr (fun _ _ hsame => Json.str.inj hsame) h

private theorem orderDocument_distinguishes : Distinguishes orderDocument := by
  constructor
  · intro ids value hvalue
    cases hvalue
    exact Json.strings_writable ids
  · intro a b hsame
    exact strings_inj (Option.some.inj hsame)

private theorem command_toJson_inj {a b : ValidationCommand} (h : a.toJson = b.toJson) : a = b := by
  obtain ⟨command, args⟩ := a
  obtain ⟨command', args'⟩ := b
  simp only [ValidationCommand.toJson, Json.obj.injEq, List.cons.injEq, Prod.mk.injEq, true_and,
    and_true, Json.str.injEq] at h
  rw [h.1, strings_inj h.2]

private theorem commands_writable (commands : List ValidationCommand) :
    (Json.arr (commands.map ValidationCommand.toJson)).Writable := by
  unfold Json.Writable
  rw [Json.writableItems_iff, List.forall_mem_map]
  intro command _
  unfold ValidationCommand.toJson
  simp [Json.Writable, Json.WritableFields]

private theorem commands_inj {a b : List ValidationCommand}
    (h : Json.arr (a.map ValidationCommand.toJson) = Json.arr (b.map ValidationCommand.toJson)) :
    a = b := by
  rw [Json.arr.injEq] at h
  exact List.map_injective_iff.mpr (fun _ _ hsame => command_toJson_inj hsame) h

private theorem commandsDocument_distinguishes : Distinguishes commandsDocument := by
  constructor
  · intro commands value hvalue
    cases hvalue
    exact commands_writable commands
  · intro a b hsame
    exact commands_inj (Option.some.inj hsame)

private theorem taskDocument_distinguishes : Distinguishes taskDocument := by
  constructor
  · intro task value hvalue
    obtain ⟨task, -, rfl⟩ := Option.map_eq_some_iff.mp hvalue
    have hcommands := commands_writable task.validationCommands
    unfold TaskDefinition.toJson
    simp [Json.Writable, Json.WritableFields] at hcommands ⊢
    exact hcommands
  · intro a b hsame
    refine Option.map_injective ?_ hsame
    intro task other heq
    obtain ⟨id, title, description, dependencies, criteria, paths, commands⟩ := task
    obtain ⟨id', title', description', dependencies', criteria', paths', commands'⟩ := other
    simp only [TaskDefinition.toJson, Json.obj.injEq, List.cons.injEq, Prod.mk.injEq, true_and,
      and_true, Json.str.injEq] at heq
    obtain ⟨hid, htitle, hdescription, hdependencies, hcriteria, hpaths, hcommands⟩ := heq
    rw [hid, htitle, hdescription, strings_inj hdependencies, strings_inj hcriteria,
      strings_inj hpaths, commands_inj hcommands]

/-! ## Merging a value -/

section Values

variable {α : Type} [DecidableEq α] {document : α → Option Json} (h : Distinguishes document)
  (path : String) (base candidate latest : α)

include h

theorem mergeValue_value :
    (mergeValue document path base candidate latest).value = preferOurs base candidate latest := by
  unfold mergeValue preferOurs
  by_cases hsame : candidate = base
  · rw [if_pos (h.valuesEqual_iff.mpr hsame), if_pos hsame]
    rfl
  · rw [if_neg (fun heq => hsame (h.valuesEqual_iff.mp heq)), if_neg hsame]
    split
    · rfl
    · rfl

theorem mergeValue_conflicts :
    (mergeValue document path base candidate latest).conflicts =
      if Disagree base candidate latest then
        [conflictText path (document candidate) (document latest)]
      else [] := by
  unfold mergeValue
  by_cases hsame : candidate = base
  · rw [if_pos (h.valuesEqual_iff.mpr hsame), if_neg (fun hboth => hboth.1 hsame)]
    rfl
  · rw [if_neg (fun heq => hsame (h.valuesEqual_iff.mp heq))]
    by_cases hagree : latest = base ∨ candidate = latest
    · rw [if_pos (by rwa [Bool.or_eq_true, h.valuesEqual_iff, h.valuesEqual_iff]), if_neg]
      · rfl
      · rintro ⟨-, hlatest, hdifferent⟩
        exact hagree.elim hlatest hdifferent
    · rw [if_neg (by rwa [Bool.or_eq_true, h.valuesEqual_iff, h.valuesEqual_iff]), if_pos]
      · rfl
      · rw [not_or] at hagree
        exact ⟨hsame, hagree.1, hagree.2⟩

end Values

/-! ## Finding tasks -/

/-- The task with an id. -/
def findTask (tasks : List TaskDefinition) (id : String) : Option TaskDefinition :=
  tasks.find? fun task => decide (task.id = id)

theorem findTask_eq_some_iff {tasks : List TaskDefinition} (h : (taskOrder tasks).Nodup)
    {id : String} {task : TaskDefinition} :
    findTask tasks id = some task ↔ task ∈ tasks ∧ task.id = id := by
  induction tasks with
  | nil => simp [findTask]
  | cons first rest ih =>
    unfold taskOrder at h
    rw [List.map_cons, List.nodup_cons] at h
    unfold findTask
    by_cases hfirst : first.id = id
    · rw [List.find?_cons_of_pos (by simpa using hfirst), Option.some.injEq, List.mem_cons]
      constructor
      · rintro rfl
        exact ⟨Or.inl rfl, hfirst⟩
      · rintro ⟨rfl | hrest, hid⟩
        · rfl
        · have hmem : task.id ∈ rest.map fun task => task.id := List.mem_map_of_mem hrest
          rw [hid, ← hfirst] at hmem
          exact absurd hmem h.1
    · rw [List.find?_cons_of_neg (by simpa using hfirst)]
      refine (ih h.2).trans ?_
      rw [List.mem_cons]
      constructor
      · exact fun hfound => ⟨Or.inr hfound.1, hfound.2⟩
      · rintro ⟨rfl | hrest, hid⟩
        · exact absurd hid hfirst
        · exact ⟨hrest, hid⟩

theorem isSome_findTask_iff {tasks : List TaskDefinition} {id : String} :
    id ∈ taskOrder tasks ↔ (findTask tasks id).isSome := by
  unfold taskOrder findTask
  rw [List.find?_isSome, List.mem_map]
  simp only [decide_eq_true_eq]

theorem get?_tasksById {tasks : List TaskDefinition} (h : (taskOrder tasks).Nodup) (id : String) :
    (tasksById tasks).get? id = findTask tasks id := by
  unfold tasksById OrderedRecord.ofList
  rw [List.foldl_map]
  cases hfound : findTask tasks id with
  | some task =>
    obtain ⟨hmem, rfl⟩ := (findTask_eq_some_iff h).mp hfound
    exact OrderedRecord.get?_foldl_set_of_mem TaskDefinition.id (fun task => task) h hmem _
  | none =>
    have hmissing : id ∉ tasks.map TaskDefinition.id := by
      intro hmem
      have hsome := isSome_findTask_iff.mp hmem
      rw [hfound] at hsome
      cases hsome
    exact OrderedRecord.get?_foldl_set_of_not_mem TaskDefinition.id (fun task => task) hmissing _

/-- Tasks with the same ids in the same order and the same task for each id are the same. -/
private theorem tasks_ext {tasks others : List TaskDefinition} (h : (taskOrder tasks).Nodup)
    (horder : taskOrder tasks = taskOrder others)
    (hfound : ∀ id, findTask tasks id = findTask others id) : tasks = others := by
  have hothers : (taskOrder others).Nodup := horder ▸ h
  unfold taskOrder at horder
  apply List.ext_getElem
  · rw [← List.length_map (fun task : TaskDefinition => task.id), horder, List.length_map]
  · intro i hi hi'
    have hid : tasks[i].id = others[i].id := by
      have hsame := congrArg (fun ids => ids[i]?) horder
      rwa [List.getElem?_map, List.getElem?_map, List.getElem?_eq_getElem hi,
        List.getElem?_eq_getElem hi', Option.map_some, Option.map_some, Option.some.injEq] at hsame
    have hours := (findTask_eq_some_iff h).mpr ⟨List.getElem_mem hi, rfl⟩
    have htheirs := (findTask_eq_some_iff hothers).mpr ⟨List.getElem_mem hi', rfl⟩
    rw [hfound, hid, htheirs, Option.some.injEq] at hours
    exact hours.symm

/-! ## Merging the tasks -/

section Tasks

variable (baseById candidateById latestById : OrderedRecord String TaskDefinition)

/-- The conflicts of one id. -/
private def taskConflicts (id : String) : List String :=
  if Disagree (baseById.get? id) (candidateById.get? id) (latestById.get? id) then
    [conflictText s!"task {id}" (taskDocument (candidateById.get? id))
      (taskDocument (latestById.get? id))]
  else []

private theorem mergeById_conflicts (ids : List String)
    (mergedById : OrderedRecord String TaskDefinition) :
    (mergeById baseById candidateById latestById ids mergedById).conflicts =
      ids.flatMap (taskConflicts baseById candidateById latestById) := by
  induction ids generalizing mergedById with
  | nil => rfl
  | cons id rest ih =>
    rw [mergeById, Merging.bind_conflicts, mergeValue_conflicts taskDocument_distinguishes,
      List.flatMap_cons]
    have hrest : ∀ merged : Option TaskDefinition,
        (match merged with
          | some task => mergeById baseById candidateById latestById rest (mergedById.set id task)
          | none => mergeById baseById candidateById latestById rest mergedById).conflicts =
          rest.flatMap (taskConflicts baseById candidateById latestById) := by
      intro merged
      cases merged with
      | none => exact ih mergedById
      | some task => exact ih _
    rw [hrest]
    rfl

private theorem mergeById_get? (ids : List String)
    (mergedById : OrderedRecord String TaskDefinition) (id : String) :
    (mergeById baseById candidateById latestById ids mergedById).value.get? id =
      if id ∈ ids then
        (preferOurs (baseById.get? id) (candidateById.get? id) (latestById.get? id)).or
          (mergedById.get? id)
      else mergedById.get? id := by
  induction ids generalizing mergedById with
  | nil => rfl
  | cons first rest ih =>
    rw [mergeById, Merging.bind_value, mergeValue_value taskDocument_distinguishes]
    cases hmerged : preferOurs (baseById.get? first) (candidateById.get? first)
        (latestById.get? first) with
    | none =>
      dsimp only
      rw [ih]
      by_cases hid : id = first
      · rw [hid, hmerged, Option.none_or, if_pos List.mem_cons_self]
        exact ite_self _
      · simp only [List.mem_cons, hid, false_or]
    | some task =>
      dsimp only
      rw [ih, OrderedRecord.get?_set]
      by_cases hid : id = first
      · rw [if_pos hid, hid, hmerged, Option.some_or, Option.some_or, if_pos List.mem_cons_self]
        exact ite_self _
      · simp only [List.mem_cons, hid, false_or, if_false]

end Tasks

section Merge

variable {base candidate latest : List TaskDefinition}

/-- The order of the merged tasks, before those no longer there are left out. -/
private def orderOf (base candidate latest : List TaskDefinition) : List String :=
  preferOurs (taskOrder base) (taskOrder candidate) (taskOrder latest)

/-- The merged task with an id. -/
private def mergedTask (base candidate latest : List TaskDefinition) (id : String) :
    Option TaskDefinition :=
  preferOurs (findTask base id) (findTask candidate id) (findTask latest id)

private theorem mergedTask_id (hcandidate : (taskOrder candidate).Nodup)
    (hlatest : (taskOrder latest).Nodup) {id : String} {task : TaskDefinition}
    (h : mergedTask base candidate latest id = some task) : task.id = id := by
  unfold mergedTask preferOurs at h
  split at h
  · exact ((findTask_eq_some_iff hlatest).mp h).2
  · exact ((findTask_eq_some_iff hcandidate).mp h).2

/-- All ids of the three lists. -/
private def idsOf (base candidate latest : List TaskDefinition) : List String :=
  (taskOrder latest ++ taskOrder candidate ++ taskOrder base).eraseDups

private theorem mem_idsOf {id : String} (h : (mergedTask base candidate latest id).isSome) :
    id ∈ idsOf base candidate latest := by
  unfold idsOf
  rw [List.mem_eraseDups, List.mem_append, List.mem_append]
  unfold mergedTask preferOurs at h
  split at h
  · exact Or.inl (Or.inl (isSome_findTask_iff.mpr h))
  · exact Or.inl (Or.inr (isSome_findTask_iff.mpr h))

private theorem mergeTasks_value (hbase : (taskOrder base).Nodup)
    (hcandidate : (taskOrder candidate).Nodup) (hlatest : (taskOrder latest).Nodup) :
    (mergeTasks base candidate latest).value =
      (orderOf base candidate latest ++ idsOf base candidate latest).eraseDups.filterMap
        (mergedTask base candidate latest) := by
  unfold mergeTasks
  simp only [Merging.bind_value, Merging.pure_value, mergeValue_value orderDocument_distinguishes]
  unfold orderOf idsOf
  apply List.filterMap_congr
  intro id hid
  rw [mergeById_get?, get?_tasksById hbase, get?_tasksById hcandidate, get?_tasksById hlatest,
    OrderedRecord.get?_empty, Option.or_none]
  by_cases hlisted : id ∈ (taskOrder latest ++ taskOrder candidate ++ taskOrder base).eraseDups
  · rw [if_pos hlisted]
    rfl
  · rw [if_neg hlisted]
    cases hmerged : mergedTask base candidate latest id with
    | none => rfl
    | some task => exact absurd (mem_idsOf (by rw [hmerged]; rfl)) hlisted

/-- Merged tasks have their places by their ids. -/
private theorem taskOrder_filterMap {find : String → Option TaskDefinition}
    (h : ∀ id task, find id = some task → task.id = id) (ids : List String) :
    taskOrder (ids.filterMap find) = ids.filter fun id => (find id).isSome := by
  induction ids with
  | nil => rfl
  | cons id rest ih =>
    cases hfound : find id with
    | none => rw [List.filterMap_cons_none hfound, List.filter_cons_of_neg (by simp [hfound]), ih]
    | some task =>
      rw [List.filterMap_cons_some hfound, List.filter_cons_of_pos (by simp [hfound]), ← ih]
      unfold taskOrder
      rw [List.map_cons, h id task hfound]

theorem mergeTasks_nodup (hbase : (taskOrder base).Nodup)
    (hcandidate : (taskOrder candidate).Nodup) (hlatest : (taskOrder latest).Nodup) :
    (taskOrder (mergeTasks base candidate latest).value).Nodup := by
  rw [mergeTasks_value hbase hcandidate hlatest,
    taskOrder_filterMap fun id task => mergedTask_id hcandidate hlatest]
  exact (nodup_eraseDups _).filter _

theorem findTask_mergeTasks (hbase : (taskOrder base).Nodup)
    (hcandidate : (taskOrder candidate).Nodup) (hlatest : (taskOrder latest).Nodup) (id : String) :
    findTask (mergeTasks base candidate latest).value id =
      preferOurs (findTask base id) (findTask candidate id) (findTask latest id) := by
  show _ = mergedTask base candidate latest id
  ext task
  rw [findTask_eq_some_iff (mergeTasks_nodup hbase hcandidate hlatest),
    mergeTasks_value hbase hcandidate hlatest, List.mem_filterMap]
  constructor
  · rintro ⟨⟨other, -, hfound⟩, hid⟩
    rwa [← hid, mergedTask_id hcandidate hlatest hfound]
  · intro hfound
    refine ⟨⟨id, ?_, hfound⟩, mergedTask_id hcandidate hlatest hfound⟩
    rw [List.mem_eraseDups, List.mem_append]
    exact Or.inr (mem_idsOf (by rw [hfound]; rfl))

private theorem eraseDups_of_nodup {ids : List String} (h : ids.Nodup) : ids.eraseDups = ids := by
  induction ids with
  | nil => rfl
  | cons id rest ih =>
    rw [List.nodup_cons] at h
    have hkept : rest.filter (fun other => !other == id) = rest := by
      rw [List.filter_eq_self]
      intro other hother
      have hne : other ≠ id := fun heq => h.1 (heq ▸ hother)
      simpa using hne
    rw [List.eraseDups_cons, hkept, ih h.2]

/-- Without a conflict the merged tasks are those of the merged order. -/
theorem taskOrder_mergeTasks (hbase : (taskOrder base).Nodup)
    (hcandidate : (taskOrder candidate).Nodup) (hlatest : (taskOrder latest).Nodup)
    (horder : ¬ Disagree (taskOrder base) (taskOrder candidate) (taskOrder latest))
    (htasks : ∀ id, ¬ Disagree (findTask base id) (findTask candidate id) (findTask latest id)) :
    taskOrder (mergeTasks base candidate latest).value =
      preferOurs (taskOrder base) (taskOrder candidate) (taskOrder latest) := by
  have hpresent : ∀ id, (mergedTask base candidate latest id).isSome ↔
      id ∈ orderOf base candidate latest := fun id =>
    isSome_preferOurs_iff (fun _ => isSome_findTask_iff) (fun _ => isSome_findTask_iff)
      (fun _ => isSome_findTask_iff) horder htasks id
  have hnodup : (orderOf base candidate latest).Nodup := by
    unfold orderOf preferOurs
    split
    · exact hlatest
    · exact hcandidate
  rw [mergeTasks_value hbase hcandidate hlatest,
    taskOrder_filterMap fun id task => mergedTask_id hcandidate hlatest,
    List.eraseDups_append, List.filter_append]
  have hordered : (orderOf base candidate latest).filter
      (fun id => (mergedTask base candidate latest id).isSome) = orderOf base candidate latest := by
    rw [List.filter_eq_self]
    exact fun id hid => (hpresent id).mpr hid
  have hothers : (((idsOf base candidate latest).removeAll
      (orderOf base candidate latest)).eraseDups).filter
        (fun id => (mergedTask base candidate latest id).isSome) = [] := by
    rw [List.filter_eq_nil_iff]
    intro id hid hsome
    unfold List.removeAll at hid
    rw [List.mem_eraseDups, List.mem_filter] at hid
    have hmem := (hpresent id).mp hsome
    simp [hmem] at hid
  rw [eraseDups_of_nodup hnodup, hordered, hothers, List.append_nil]
  rfl

private theorem mem_mergeTasks_conflicts (hbase : (taskOrder base).Nodup)
    (hcandidate : (taskOrder candidate).Nodup) (hlatest : (taskOrder latest).Nodup)
    {conflict : String} :
    conflict ∈ (mergeTasks base candidate latest).conflicts ↔
      (Disagree (taskOrder base) (taskOrder candidate) (taskOrder latest) ∧
        conflict = conflictText "task order" (orderDocument (taskOrder candidate))
          (orderDocument (taskOrder latest))) ∨
      ∃ id, Disagree (findTask base id) (findTask candidate id) (findTask latest id) ∧
        conflict = conflictText s!"task {id}" (taskDocument (findTask candidate id))
          (taskDocument (findTask latest id)) := by
  unfold mergeTasks
  simp only [Merging.bind_conflicts, Merging.pure_conflicts, List.append_nil,
    mergeValue_conflicts orderDocument_distinguishes, mergeById_conflicts]
  rw [List.mem_append, List.mem_ite_nil_right, List.mem_singleton, List.mem_flatMap]
  refine or_congr Iff.rfl ?_
  unfold taskConflicts
  simp only [get?_tasksById hbase, get?_tasksById hcandidate, get?_tasksById hlatest,
    List.mem_ite_nil_right, List.mem_singleton]
  constructor
  · rintro ⟨id, -, hdisagree, htext⟩
    exact ⟨id, hdisagree, htext⟩
  · rintro ⟨id, hdisagree, htext⟩
    refine ⟨id, ?_, hdisagree, htext⟩
    rw [List.mem_eraseDups, List.mem_append, List.mem_append]
    by_contra hmissing
    simp only [not_or, isSome_findTask_iff, Option.not_isSome_iff_eq_none] at hmissing
    exact hdisagree.1 (hmissing.1.2.trans hmissing.2.symm)

end Merge

/-! ## Merging a candidate -/

/-- A plan and a worker limit hold what each side changed. The tasks come in the merged order, and
none is left for after them. -/
structure MergesPlans (base : PlanEditorSnapshot) (candidate : TaskPlan) (workerLimit : Nat)
    (latest : PlanEditorSnapshot) (merged : MergedCandidate) : Prop where
  title : Merges base.plan.title candidate.title latest.plan.title merged.plan.title
  commands : Merges base.plan.finalValidationCommands candidate.finalValidationCommands
    latest.plan.finalValidationCommands merged.plan.finalValidationCommands
  workers : Merges base.maxConcurrentWorkers workerLimit latest.maxConcurrentWorkers
    merged.maxConcurrentWorkers
  tasks : ∀ id, Merges (findTask base.plan.tasks id) (findTask candidate.tasks id)
    (findTask latest.plan.tasks id) (findTask merged.plan.tasks id)
  once : (taskOrder merged.plan.tasks).Nodup
  order : Merges (taskOrder base.plan.tasks) (taskOrder candidate.tasks)
    (taskOrder latest.plan.tasks) (taskOrder merged.plan.tasks)

/-- Every item both sides changed differently is named in a conflict. -/
structure ReportsDisagreements (base : PlanEditorSnapshot) (candidate : TaskPlan)
    (workerLimit : Nat) (latest : PlanEditorSnapshot) (conflicts : List String) : Prop where
  title : Disagree base.plan.title candidate.title latest.plan.title →
    conflictText "title" (textDocument candidate.title) (textDocument latest.plan.title) ∈ conflicts
  order : Disagree (taskOrder base.plan.tasks) (taskOrder candidate.tasks)
      (taskOrder latest.plan.tasks) →
    conflictText "task order" (orderDocument (taskOrder candidate.tasks))
      (orderDocument (taskOrder latest.plan.tasks)) ∈ conflicts
  tasks : ∀ id, Disagree (findTask base.plan.tasks id) (findTask candidate.tasks id)
      (findTask latest.plan.tasks id) →
    conflictText s!"task {id}" (taskDocument (findTask candidate.tasks id))
      (taskDocument (findTask latest.plan.tasks id)) ∈ conflicts
  commands : Disagree base.plan.finalValidationCommands candidate.finalValidationCommands
      latest.plan.finalValidationCommands →
    conflictText "final validation commands" (commandsDocument candidate.finalValidationCommands)
      (commandsDocument latest.plan.finalValidationCommands) ∈ conflicts
  workers : Disagree base.maxConcurrentWorkers workerLimit latest.maxConcurrentWorkers →
    conflictText "worker limit" (countDocument workerLimit)
      (countDocument latest.maxConcurrentWorkers) ∈ conflicts

section Candidates

variable {base latest : PlanEditorSnapshot} {candidate : TaskPlan} {workerLimit : Nat}

theorem mergeConcurrentCandidate_reports (hbase : (taskOrder base.plan.tasks).Nodup)
    (hcandidate : (taskOrder candidate.tasks).Nodup)
    (hlatest : (taskOrder latest.plan.tasks).Nodup) :
    ReportsDisagreements base candidate workerLimit latest
      (mergeConcurrentCandidate base candidate workerLimit latest).conflicts := by
  unfold mergeConcurrentCandidate
  simp only [Merging.bind_conflicts, Merging.pure_conflicts, List.append_nil,
    mergeValue_conflicts textDocument_distinguishes,
    mergeValue_conflicts commandsDocument_distinguishes,
    mergeValue_conflicts countDocument_distinguishes]
  constructor
  · intro hdisagree
    simp [hdisagree]
  · intro hdisagree
    have hmem := (mem_mergeTasks_conflicts hbase hcandidate hlatest).mpr (Or.inl ⟨hdisagree, rfl⟩)
    simp [hmem]
  · intro id hdisagree
    have hmem := (mem_mergeTasks_conflicts hbase hcandidate hlatest).mpr
      (Or.inr ⟨id, hdisagree, rfl⟩)
    simp only [List.mem_append]
    exact Or.inr (Or.inl hmem)
  · intro hdisagree
    simp [hdisagree]
  · intro hdisagree
    simp [hdisagree]

theorem mergeConcurrentCandidate_merges_of_clean (hbase : (taskOrder base.plan.tasks).Nodup)
    (hcandidate : (taskOrder candidate.tasks).Nodup)
    (hlatest : (taskOrder latest.plan.tasks).Nodup)
    (hclean : (mergeConcurrentCandidate base candidate workerLimit latest).conflicts = []) :
    MergesPlans base candidate workerLimit latest
      (mergeConcurrentCandidate base candidate workerLimit latest).value := by
  have hreports : ReportsDisagreements base candidate workerLimit latest _ :=
    mergeConcurrentCandidate_reports hbase hcandidate hlatest
  rw [hclean] at hreports
  have horder := fun hdisagree => List.not_mem_nil (hreports.order hdisagree)
  have htasks := fun id hdisagree => List.not_mem_nil (hreports.tasks id hdisagree)
  unfold mergeConcurrentCandidate
  simp only [Merging.bind_value, Merging.pure_value, mergeValue_value textDocument_distinguishes,
    mergeValue_value commandsDocument_distinguishes, mergeValue_value countDocument_distinguishes]
  constructor
  · exact merges_preferOurs fun hdisagree => List.not_mem_nil (hreports.title hdisagree)
  · exact merges_preferOurs fun hdisagree => List.not_mem_nil (hreports.commands hdisagree)
  · exact merges_preferOurs fun hdisagree => List.not_mem_nil (hreports.workers hdisagree)
  · intro id
    rw [findTask_mergeTasks hbase hcandidate hlatest]
    exact merges_preferOurs (htasks id)
  · exact mergeTasks_nodup hbase hcandidate hlatest
  · rw [taskOrder_mergeTasks hbase hcandidate hlatest horder htasks]
    exact merges_preferOurs horder

/-- Merging tasks that one side left alone gives those of the other side, without a conflict. -/
private theorem mergeTasks_unchanged {base candidate latest merged : List TaskDefinition}
    (hbase : (taskOrder base).Nodup) (hcandidate : (taskOrder candidate).Nodup)
    (hlatest : (taskOrder latest).Nodup)
    (h : candidate = base ∧ merged = latest ∨ latest = base ∧ merged = candidate) :
    mergeTasks base candidate latest = ⟨merged, []⟩ := by
  have horder : ¬ Disagree (taskOrder base) (taskOrder candidate) (taskOrder latest) := by
    rintro ⟨hours, htheirs, -⟩
    rcases h with ⟨rfl, -⟩ | ⟨rfl, -⟩
    · exact hours rfl
    · exact htheirs rfl
  have htasks : ∀ id,
      ¬ Disagree (findTask base id) (findTask candidate id) (findTask latest id) := by
    rintro id ⟨hours, htheirs, -⟩
    rcases h with ⟨rfl, -⟩ | ⟨rfl, -⟩
    · exact hours rfl
    · exact htheirs rfl
  have hvalue : (mergeTasks base candidate latest).value = merged := by
    apply tasks_ext (mergeTasks_nodup hbase hcandidate hlatest)
    · rw [taskOrder_mergeTasks hbase hcandidate hlatest horder htasks]
      rcases h with ⟨rfl, rfl⟩ | ⟨rfl, rfl⟩
      · exact preferOurs_base _ _
      · exact preferOurs_unchanged _ _
    · intro id
      rw [findTask_mergeTasks hbase hcandidate hlatest]
      rcases h with ⟨rfl, rfl⟩ | ⟨rfl, rfl⟩
      · exact preferOurs_base _ _
      · exact preferOurs_unchanged _ _
  have hconflicts : (mergeTasks base candidate latest).conflicts = [] := by
    rw [List.eq_nil_iff_forall_not_mem]
    intro conflict hconflict
    rcases (mem_mergeTasks_conflicts hbase hcandidate hlatest).mp hconflict with
      ⟨hdisagree, -⟩ | ⟨id, hdisagree, -⟩
    · exact horder hdisagree
    · exact htasks id hdisagree
  rw [← hvalue, ← hconflicts]

theorem mergeConcurrentCandidate_base (hbase : (taskOrder base.plan.tasks).Nodup)
    (hlatest : (taskOrder latest.plan.tasks).Nodup) :
    mergeConcurrentCandidate base base.plan base.maxConcurrentWorkers latest =
      ⟨⟨latest.plan, latest.maxConcurrentWorkers⟩, []⟩ := by
  have htasks := mergeTasks_unchanged hbase hbase hlatest (Or.inl ⟨rfl, rfl⟩)
  have hvalue : ∀ {α : Type} [DecidableEq α] {document : α → Option Json},
      Distinguishes document → ∀ path (a b : α), mergeValue document path a a b = ⟨b, []⟩ := by
    intro α _ document hdocument path a b
    unfold mergeValue
    rw [if_pos (hdocument.valuesEqual_iff.mpr rfl)]
    rfl
  unfold mergeConcurrentCandidate
  rw [hvalue textDocument_distinguishes, htasks, hvalue commandsDocument_distinguishes,
    hvalue countDocument_distinguishes]
  rfl

theorem mergeConcurrentCandidate_latest (hbase : (taskOrder base.plan.tasks).Nodup)
    (hcandidate : (taskOrder candidate.tasks).Nodup) (hplan : latest.plan = base.plan)
    (hworkers : latest.maxConcurrentWorkers = base.maxConcurrentWorkers) :
    mergeConcurrentCandidate base candidate workerLimit latest = ⟨⟨candidate, workerLimit⟩, []⟩ := by
  have htasks := mergeTasks_unchanged hbase hcandidate hbase (Or.inr ⟨rfl, rfl⟩)
  have hvalue : ∀ {α : Type} [DecidableEq α] {document : α → Option Json},
      Distinguishes document → ∀ path (a b : α), mergeValue document path a b a = ⟨b, []⟩ := by
    intro α _ document hdocument path a b
    unfold mergeValue
    by_cases hsame : b = a
    · rw [if_pos (hdocument.valuesEqual_iff.mpr hsame), hsame]
      rfl
    · rw [if_neg (fun heq => hsame (hdocument.valuesEqual_iff.mp heq)), if_pos]
      · rfl
      · rw [Bool.or_eq_true]
        exact Or.inl (hdocument.valuesEqual_iff.mpr rfl)
  unfold mergeConcurrentCandidate
  rw [hplan, hworkers, hvalue textDocument_distinguishes, htasks,
    hvalue commandsDocument_distinguishes, hvalue countDocument_distinguishes]
  rfl

/-- A merge returns the other side where one side is the base, holds what each side changed where it
reports no conflict, and names every item the sides disagree on. -/
theorem mergeConcurrentCandidate_three_way (hbase : (taskOrder base.plan.tasks).Nodup)
    (hcandidate : (taskOrder candidate.tasks).Nodup)
    (hlatest : (taskOrder latest.plan.tasks).Nodup) :
    (candidate = base.plan → workerLimit = base.maxConcurrentWorkers →
      mergeConcurrentCandidate base candidate workerLimit latest =
        ⟨⟨latest.plan, latest.maxConcurrentWorkers⟩, []⟩) ∧
    (latest.plan = base.plan → latest.maxConcurrentWorkers = base.maxConcurrentWorkers →
      mergeConcurrentCandidate base candidate workerLimit latest =
        ⟨⟨candidate, workerLimit⟩, []⟩) ∧
    ((mergeConcurrentCandidate base candidate workerLimit latest).conflicts = [] →
      MergesPlans base candidate workerLimit latest
        (mergeConcurrentCandidate base candidate workerLimit latest).value) ∧
    ReportsDisagreements base candidate workerLimit latest
      (mergeConcurrentCandidate base candidate workerLimit latest).conflicts := by
  refine ⟨?_, ?_, mergeConcurrentCandidate_merges_of_clean hbase hcandidate hlatest,
    mergeConcurrentCandidate_reports hbase hcandidate hlatest⟩
  · rintro rfl rfl
    exact mergeConcurrentCandidate_base hbase hlatest
  · exact mergeConcurrentCandidate_latest hbase hcandidate

end Candidates

/-- A task with little in it. -/
private def smallTask (id : String) : TaskDefinition :=
  { id
    title := "Task"
    description := "Work"
    dependencies := []
    acceptanceCriteria := ["It works"]
    allowedPaths := ["src/"]
    validationCommands := [⟨"npm", ["test"]⟩] }

/-- A stored plan of small tasks. -/
private def smallSnapshot (title : String) (ids : List String) : PlanEditorSnapshot :=
  ⟨⟨title, ids.map smallTask, [⟨"npm", ["test"]⟩]⟩, 2, 1⟩

/-- A candidate that adds a task meets a plan with another title. -/
theorem added_task_meets_new_title :
    ((smallSnapshot "Plan" ["a", "b"]).plan = (smallSnapshot "Plan" ["a"]).plan →
      2 = (smallSnapshot "Plan" ["a"]).maxConcurrentWorkers →
      mergeConcurrentCandidate (smallSnapshot "Plan" ["a"]) (smallSnapshot "Plan" ["a", "b"]).plan 2
          (smallSnapshot "New" ["a"]) =
        ⟨⟨(smallSnapshot "New" ["a"]).plan, 2⟩, []⟩) ∧
    ((smallSnapshot "New" ["a"]).plan = (smallSnapshot "Plan" ["a"]).plan →
      2 = (smallSnapshot "Plan" ["a"]).maxConcurrentWorkers →
      mergeConcurrentCandidate (smallSnapshot "Plan" ["a"]) (smallSnapshot "Plan" ["a", "b"]).plan 2
          (smallSnapshot "New" ["a"]) =
        ⟨⟨(smallSnapshot "Plan" ["a", "b"]).plan, 2⟩, []⟩) ∧
    ((mergeConcurrentCandidate (smallSnapshot "Plan" ["a"]) (smallSnapshot "Plan" ["a", "b"]).plan 2
        (smallSnapshot "New" ["a"])).conflicts = [] →
      MergesPlans (smallSnapshot "Plan" ["a"]) (smallSnapshot "Plan" ["a", "b"]).plan 2
        (smallSnapshot "New" ["a"])
        (mergeConcurrentCandidate (smallSnapshot "Plan" ["a"])
          (smallSnapshot "Plan" ["a", "b"]).plan 2 (smallSnapshot "New" ["a"])).value) ∧
    ReportsDisagreements (smallSnapshot "Plan" ["a"]) (smallSnapshot "Plan" ["a", "b"]).plan 2
      (smallSnapshot "New" ["a"])
      (mergeConcurrentCandidate (smallSnapshot "Plan" ["a"])
        (smallSnapshot "Plan" ["a", "b"]).plan 2 (smallSnapshot "New" ["a"])).conflicts :=
  mergeConcurrentCandidate_three_way (by decide) (by decide) (by decide)

end BuildConductor.Planning
