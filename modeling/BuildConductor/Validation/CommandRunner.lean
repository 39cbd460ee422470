import BuildConductor.Base.Utf8
import Mathlib.Data.List.DropRight

/-!
# The output of a validation command

A validation command may write more than is worth keeping, so the runner keeps the last bytes of
each of its two streams while they arrive. What it records does not depend on the chunks the
operating system delivered. `src/src/validation/command-runner.ts:113-330`.
-/

namespace BuildConductor.Validation

open Base

/-- `src/src/validation/command-runner.ts:113-121`. -/
def appendTail (current chunk : List UInt8) (maximum : Nat) : List UInt8 :=
  if maximum ≤ chunk.length then chunk.drop (chunk.length - maximum)
  else
    let combined := current ++ chunk
    if combined.length ≤ maximum then combined else combined.drop (combined.length - maximum)

/-- What the process reports while it runs. `src/src/validation/command-runner.ts:312-321`. -/
inductive OutputEvent
  | stdout (chunk : List UInt8)
  | stderr (chunk : List UInt8)
  | error (message : List Char)

/-- The buffers of a run. `src/src/validation/command-runner.ts:193-194`. -/
structure OutputTails where
  stdout : List UInt8
  stderr : List UInt8
deriving DecidableEq

/-- `src/src/validation/command-runner.ts:312-321`. -/
def OutputTails.record (outputTailBytes : Nat) (tails : OutputTails) : OutputEvent → OutputTails
  | .stdout chunk => { tails with stdout := appendTail tails.stdout chunk outputTailBytes }
  | .stderr chunk => { tails with stderr := appendTail tails.stderr chunk outputTailBytes }
  | .error message =>
    { tails with stderr := appendTail tails.stderr (utf8Bytes message) outputTailBytes }

/-- The recorded tails, as the result holds them. `src/src/validation/command-runner.ts:246-250`. -/
def recordedTails (outputTailBytes : Nat) (events : List OutputEvent) : List Char × List Char :=
  let tails := events.foldl (OutputTails.record outputTailBytes) ⟨[], []⟩
  (decodeUtf8 tails.stdout, decodeUtf8 tails.stderr)

/-! ## The end of a stream -/

/-- A bounded tail loses nothing that a longer stream ends with. -/
theorem rtake_append_rtake {α : Type} (xs ys : List α) (n : Nat) :
    (xs.rtake n ++ ys).rtake n = (xs ++ ys).rtake n := by
  rw [List.rtake_eq_reverse_take_reverse, List.rtake_eq_reverse_take_reverse,
    List.rtake_eq_reverse_take_reverse, List.reverse_append, List.reverse_append,
    List.reverse_reverse, List.take_append, List.take_append, List.take_take]
  have hleft : min (n - ys.reverse.length) n = n - ys.reverse.length := by omega
  rw [hleft]

/-- The two branches keep the end of the buffer with the chunk behind it. -/
theorem appendTail_eq_rtake (current chunk : List UInt8) (maximum : Nat) :
    appendTail current chunk maximum = (current ++ chunk).rtake maximum := by
  unfold appendTail List.rtake
  dsimp only
  rw [List.length_append]
  by_cases hlong : maximum ≤ chunk.length
  · have hskip : current.length + chunk.length - maximum =
        current.length + (chunk.length - maximum) := by omega
    rw [if_pos hlong, hskip, List.drop_append]
    have hall : current.drop (current.length + (chunk.length - maximum)) = [] := by
      apply List.drop_eq_nil_of_le
      omega
    rw [hall, List.nil_append, Nat.add_sub_cancel_left]
  · rw [if_neg hlong]
    split
    · next hshort =>
      have hzero : current.length + chunk.length - maximum = 0 := by omega
      rw [hzero, List.drop_zero]
    · rfl

/-- A buffer that holds the end of a stream still does once a chunk has arrived. -/
private theorem foldl_appendTail (maximum : Nat) (chunks : List (List UInt8)) (stream : List UInt8) :
    chunks.foldl (fun current chunk => appendTail current chunk maximum) (stream.rtake maximum) =
      (stream ++ chunks.flatten).rtake maximum := by
  induction chunks generalizing stream with
  | nil => rw [List.flatten_nil, List.append_nil, List.foldl_nil]
  | cons chunk rest ih =>
    rw [List.foldl_cons, appendTail_eq_rtake, rtake_append_rtake, ih, List.flatten_cons,
      List.append_assoc]

/-! ## Streams -/

/-- The bytes of standard output, in order. -/
def stdoutBytes (events : List OutputEvent) : List UInt8 :=
  events.flatMap fun event =>
    match event with
    | .stdout chunk => chunk
    | .stderr _ | .error _ => []

/-- The bytes of standard error, with the errors of the process itself, in order. -/
def stderrBytes (events : List OutputEvent) : List UInt8 :=
  events.flatMap fun event =>
    match event with
    | .stdout _ => []
    | .stderr chunk => chunk
    | .error message => utf8Bytes message

private theorem record_tails (maximum : Nat) (events : List OutputEvent) :
    events.foldl (OutputTails.record maximum) ⟨[], []⟩ =
      ⟨(stdoutBytes events).rtake maximum, (stderrBytes events).rtake maximum⟩ := by
  induction events using List.reverseRecOn with
  | nil => simp [stdoutBytes, stderrBytes]
  | append_singleton events event ih =>
    rw [List.foldl_append, ih, List.foldl_cons, List.foldl_nil]
    unfold stdoutBytes stderrBytes
    rw [List.flatMap_append, List.flatMap_append, List.flatMap_singleton, List.flatMap_singleton]
    cases event <;>
      simp only [OutputTails.record, appendTail_eq_rtake, rtake_append_rtake, List.append_nil]

/-- Folding over the chunks of a stream keeps exactly its last bytes, at most `maximum` of them,
and what is recorded of a process is the end of each of its two streams. -/
theorem tails_independent_of_chunks (maximum : Nat) :
    (∀ chunks : List (List UInt8),
      let tail := chunks.foldl (fun current chunk => appendTail current chunk maximum) []
      tail <:+ chunks.flatten ∧ tail.length = min maximum chunks.flatten.length) ∧
    ∀ events : List OutputEvent, recordedTails maximum events =
      (decodeUtf8 ((stdoutBytes events).rtake maximum),
        decodeUtf8 ((stderrBytes events).rtake maximum)) := by
  constructor
  · intro chunks tail
    have htail : tail = chunks.flatten.rtake maximum := by
      have hfold := foldl_appendTail maximum chunks []
      rw [List.rtake_nil, List.nil_append] at hfold
      exact hfold
    rw [htail]
    unfold List.rtake
    refine ⟨List.drop_suffix _ _, ?_⟩
    rw [List.length_drop]
    omega
  · intro events
    unfold recordedTails
    rw [record_tails]

/-- A tail of three bytes, whatever the chunks. -/
example : ([[1, 2], [], [3, 4], [5]].foldl (fun current chunk => appendTail current chunk 3) []) =
    [3, 4, 5] := by decide

end BuildConductor.Validation
