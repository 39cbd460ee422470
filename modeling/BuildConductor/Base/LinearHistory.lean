import Mathlib.Data.List.Basic

/-!
# Linear histories

A branch grows by one commit at a time on top of its head, each commit with the source it was
made from. Notes taken along the way name the head after every turn; a turn may leave the branch
as it is. The notes determine the branch.
-/

namespace BuildConductor.Base.LinearHistory

universe u v

variable {σ : Type u} {γ : Type v} {base : γ}

/-- The newest commit of a branch, or the base it grows from. -/
def head (base : γ) (branch : List (σ × γ)) : γ := (branch.map Prod.snd).getLastD base

/-- Notes of a growing branch: each names the head after a turn, and the source of the commit the
turn appended, if any. -/
inductive Notes (base : γ) : List (Option σ × γ) → List (σ × γ) → Prop
  | nil : Notes base [] []
  | kept {notes : List (Option σ × γ)} {branch : List (σ × γ)} :
      Notes base notes branch → Notes base (notes ++ [(none, head base branch)]) branch
  | appended {notes : List (Option σ × γ)} {branch : List (σ × γ)} (source : σ) (commit : γ) :
      Notes base notes branch →
      Notes base (notes ++ [(some source, commit)]) (branch ++ [(source, commit)])

/-- The commits of a branch with their parents: the commit before, and the base for the first. -/
def linked (base : γ) : List γ → List (γ × γ)
  | [] => []
  | commit :: rest => (commit, base) :: linked commit rest

@[simp] theorem head_nil : head base ([] : List (σ × γ)) = base := rfl

@[simp] theorem head_append (branch : List (σ × γ)) (source : σ) (commit : γ) :
    head base (branch ++ [(source, commit)]) = commit := by
  simp [head]

theorem head_mem (branch : List (σ × γ)) : head base branch ∈ base :: branch.map Prod.snd := by
  unfold head
  cases hbranch : (branch.map Prod.snd).getLast? with
  | none =>
    rw [List.getLastD_eq_getLast?, hbranch]
    exact List.mem_cons_self ..
  | some commit =>
    rw [List.getLastD_eq_getLast?, hbranch]
    exact List.mem_cons_of_mem _ (List.mem_of_getLast? hbranch)

/-- The branch lists the turns that appended. -/
theorem Notes.branch_eq {notes : List (Option σ × γ)} {branch : List (σ × γ)}
    (h : Notes base notes branch) :
    branch = notes.filterMap fun note => note.1.map fun source => (source, note.2) := by
  induction h with
  | nil => rfl
  | kept _ ih =>
    rw [List.filterMap_append, ← ih]
    simp
  | appended source commit _ ih =>
    rw [List.filterMap_append, ← ih]
    rfl

/-- The last note names the head. -/
theorem Notes.head_eq {notes : List (Option σ × γ)} {branch : List (σ × γ)}
    (h : Notes base notes branch) : (notes.map Prod.snd).getLastD base = head base branch := by
  cases h with
  | nil => rfl
  | kept _ => simp
  | appended source commit _ => simp

theorem Notes.of_kept {notes : List (Option σ × γ)} {branch : List (σ × γ)} {commit : γ}
    (h : Notes base (notes ++ [(none, commit)]) branch) :
    Notes base notes branch ∧ commit = head base branch := by
  generalize hall : notes ++ [(none, commit)] = all at h
  cases h with
  | nil => simp at hall
  | kept h =>
    obtain ⟨rfl, hlast⟩ := List.append_inj' hall rfl
    cases hlast
    exact ⟨h, rfl⟩
  | appended source _ _ =>
    obtain ⟨-, hlast⟩ := List.append_inj' hall rfl
    cases hlast

theorem Notes.of_appended {notes : List (Option σ × γ)} {branch : List (σ × γ)} {source : σ}
    {commit : γ} (h : Notes base (notes ++ [(some source, commit)]) branch) :
    ∃ before, branch = before ++ [(source, commit)] ∧ Notes base notes before := by
  generalize hall : notes ++ [(some source, commit)] = all at h
  cases h with
  | nil => simp at hall
  | kept _ =>
    obtain ⟨-, hlast⟩ := List.append_inj' hall rfl
    cases hlast
  | appended _ _ h =>
    obtain ⟨rfl, hlast⟩ := List.append_inj' hall rfl
    cases hlast
    exact ⟨_, rfl, h⟩

/-- Every note names a commit of the branch, or its base. -/
theorem Notes.mem {notes : List (Option σ × γ)} {branch : List (σ × γ)}
    (h : Notes base notes branch) {note : Option σ × γ} (hnote : note ∈ notes) :
    note.2 ∈ base :: branch.map Prod.snd := by
  induction h with
  | nil => cases hnote
  | @kept notes branch _ ih =>
    rcases List.mem_append.mp hnote with hold | hnew
    · exact ih hold
    · rw [List.mem_singleton] at hnew
      rw [hnew]
      exact head_mem branch
  | @appended notes branch source commit _ ih =>
    rw [List.map_append, ← List.cons_append]
    rcases List.mem_append.mp hnote with hold | hnew
    · exact List.mem_append_left _ (ih hold)
    · rw [List.mem_singleton] at hnew
      rw [hnew]
      exact List.mem_append_right _ (List.mem_singleton_self _)

theorem linked_fst (commits : List γ) : (linked base commits).map Prod.fst = commits := by
  induction commits generalizing base with
  | nil => rfl
  | cons commit rest ih => rw [linked, List.map_cons, ih]

/-- The parent of a commit is the commit before it. -/
theorem linked_snd (commits : List γ) :
    (linked base commits).map Prod.snd = (base :: commits).take commits.length := by
  induction commits generalizing base with
  | nil => rfl
  | cons commit rest ih => rw [linked, List.map_cons, ih, List.length_cons, List.take_succ_cons]

end BuildConductor.Base.LinearHistory
