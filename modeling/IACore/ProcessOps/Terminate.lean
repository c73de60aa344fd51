import IACore.ProcessOps.Handle
import Mathlib.Data.List.Basic

/-!
# `ProcessOps::terminate_process` against the watcher thread

Any number of `terminate_process` calls on one handle, interleaved with the watcher of its process.
One step is one load of an atomic or one `kill`.  Beside the handle and the calls a state records
each `kill` with the child that had not been waited for by then; no step reads the record.

Once the watcher's `waitpid` has returned, the process id is free for the system to give to another
process, so a `kill` then may hit that one.
-/

namespace IACore

namespace ProcessOps

/-- Where a call of `terminate_process` is: before the loads of `is_active`, before
`handle->id.load` or before `kill`. -/
inductive Terminate
  | isRunning
  | isNonzero
  | load
  | kill (pid : ℕ)
  | returned
  deriving DecidableEq, Repr

namespace Terminate

/-- The next step of a call, and the process id that it passes to `kill`. -/
def step (handle : ProcessHandle) : Terminate → Option (Terminate × Option ℕ)
  | .isRunning => some (if handle.isRunning then .isNonzero else .returned, none)
  | .isNonzero => some (if handle.id ≠ 0 then .load else .returned, none)
  | .load => some (if handle.id = 0 then .returned else .kill handle.id, none)
  | .kill pid => some (.returned, some pid)
  | .returned => none

/-- A handle, the calls on it, and each `kill` with the child at that time. -/
structure State where
  handle : ProcessHandle
  calls : List Terminate
  kills : List (ℕ × Option ℕ)
  deriving DecidableEq, Repr

inductive Event
  /-- The watcher forks; a process id is not zero. -/
  | fork (pid : Option ℕ)
  /-- The watcher's next step. -/
  | watch
  /-- A call of `terminate_process`. -/
  | call
  /-- The next step of call `i`. -/
  | advance (i : ℕ)
  deriving DecidableEq, Repr

/-- As `spawn_process_async` returns the handle. -/
def start : State := ⟨.spawned, [], []⟩

namespace State

def step (σ : State) : Event → Option State
  | .fork pid =>
    if pid = some 0 then none
    else (σ.handle.fork pid).map fun handle => { σ with handle := handle }
  | .watch => σ.handle.watch.map fun handle => { σ with handle := handle }
  | .call => some { σ with calls := σ.calls ++ [.isRunning] }
  | .advance i => do
    let call ← σ.calls[i]?
    let (call, killed) ← call.step σ.handle
    some { σ with
      calls := σ.calls.set i call
      kills := σ.kills ++ killed.toList.map fun pid => (pid, σ.handle.child) }

end State

/-- Every `kill` was of the child, which had not been waited for. -/
def OwnChild (σ : State) : Prop := ∀ kill ∈ σ.kills, kill.2 = some kill.1

/-- The same, also after the next step of a call that has passed its checks. -/
def Harmless (σ : State) : Prop :=
  OwnChild σ ∧ ∀ i pid σ', σ.calls[i]? = some (.kill pid) → σ.step (.advance i) = some σ' →
    OwnChild σ'

/-- `waitpid` does not return while a call is between its last load and its `kill`, and no call
makes its last load between `waitpid` and the store of zero. -/
def Timely (σ : State) : Event → Prop
  | .watch => ∀ child, σ.handle.watcher = .watching child → ∀ pid, .kill pid ∉ σ.calls
  | .advance i => σ.calls[i]? = some .load → σ.handle.watcher ≠ .reaped
  | _ => True

end Terminate

end ProcessOps

end IACore
