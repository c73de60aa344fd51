import Mathlib.Data.List.Basic

/-!
# Splitting a stream into its runs

`runs p xs` are the maximal non-empty stretches of `xs` without a separator, a separator being an
element with `p`.  A `Collector` finds them one element at a time, holding back the run that has
not ended; as it reads a stream by a fold, it does not see where the stream is cut
(`foldl_push_flatten`), and once it is finished it has handed out the runs (`finish_push`).
-/

namespace Runs

variable {α : Type*} (p : α → Bool)

/-- The maximal non-empty stretches of `xs` between elements with `p`. -/
def runs (xs : List α) : List (List α) := (xs.splitOnP p).filter fun run => !run.isEmpty

/-- The run that has not ended and the runs that were handed out, in order. -/
@[ext] structure Collector (α : Type*) where
  pending : List α
  emitted : List (List α)

namespace Collector

/-- Hand out the pending run, unless it is empty. -/
def emit (σ : Collector α) : Collector α :=
  ⟨[], if σ.pending = [] then σ.emitted else σ.emitted ++ [σ.pending]⟩

/-- Read one element. -/
def push (σ : Collector α) (x : α) : Collector α :=
  if p x then σ.emit else { σ with pending := σ.pending ++ [x] }

@[simp] theorem emit_pending (σ : Collector α) : σ.emit.pending = [] := rfl

/-- A separator after a separator changes nothing. -/
@[simp] theorem emit_emit (σ : Collector α) : σ.emit.emit = σ.emit := rfl

/-- Reading a stream in pieces is reading it whole. -/
theorem foldl_push_flatten (xss : List (List α)) (σ : Collector α) :
    xss.foldl (fun σ xs => xs.foldl (push p) σ) σ = xss.flatten.foldl (push p) σ := by
  induction xss generalizing σ with
  | nil => rfl
  | cons xs xss ih => rw [List.foldl_cons, ih, List.flatten_cons, List.foldl_append]

/-- Reading on from a pending run hands out the runs of that run and the rest. -/
theorem emit_foldl_push (xs : List α) {σ : Collector α} (hpending : ∀ x ∈ σ.pending, p x = false) :
    (xs.foldl (push p) σ).emit.emitted = σ.emitted ++ runs p (σ.pending ++ xs) := by
  induction xs generalizing σ with
  | nil =>
    rw [List.foldl_nil, List.append_nil, runs, List.splitOnP_eq_singleton hpending]
    by_cases hempty : σ.pending = []
    · simp [emit, hempty]
    · simp [emit, hempty]
  | cons x xs ih =>
    rw [List.foldl_cons]
    by_cases hx : p x
    · -- a separator ends the pending run, which is the first of the rest
      have hpush : σ.push p x = σ.emit := by simp [push, hx]
      rw [hpush, ih (by simp), runs, runs,
        List.splitOnP_append_cons_of_forall_mem hpending x hx, emit_pending, List.nil_append]
      by_cases hempty : σ.pending = []
      · simp [emit, hempty]
      · simp [emit, hempty]
    · have hpush : σ.push p x = { σ with pending := σ.pending ++ [x] } := by simp [push, hx]
      have hpending' : ∀ y ∈ σ.pending ++ [x], p y = false := by
        intro y hy
        rcases List.mem_append.mp hy with h | h
        · exact hpending y h
        · rw [List.mem_singleton.mp h]
          simpa using hx
      rw [hpush, ih hpending', List.append_assoc, List.singleton_append]

/-- A collector that starts with nothing hands out the runs of what it reads. -/
theorem finish_push (xs : List α) : (xs.foldl (push p) ⟨[], []⟩).emit.emitted = runs p xs := by
  rw [emit_foldl_push p xs (by simp)]
  simp

end Collector

end Runs
