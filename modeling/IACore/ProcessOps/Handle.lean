import Mathlib.Data.Nat.Notation

/-!
# `ProcessHandle`

The two atomics that `ProcessOps::spawn_process_async` shares with the watcher thread of a process,
and that thread's accesses to them, each a step of its own.
-/

namespace IACore

/-- How far the watcher thread of a process is: before `fork`; before storing the process id; until
`waitpid` has returned; before storing 0; before clearing `is_running`; at its end. -/
inductive Watcher
  | starting
  | forked (pid : ℕ)
  | watching (pid : ℕ)
  | reaped
  | cleared
  | finished
  deriving DecidableEq, Repr

/-- `ProcessHandle`. -/
structure ProcessHandle where
  id : ℕ
  isRunning : Bool
  watcher : Watcher
  deriving DecidableEq, Repr

namespace ProcessHandle

/-- As `spawn_process_async` returns it. -/
def spawned : ProcessHandle := ⟨0, true, .starting⟩

/-- `is_active`.  The two loads are one step: `is_running` is cleared after `id`, so both hold when
the second does. -/
def isActive (h : ProcessHandle) : Bool := h.isRunning && h.id != 0

/-- The child process that has not been waited for. -/
def child (h : ProcessHandle) : Option ℕ :=
  match h.watcher with
  | .forked pid => some pid
  | .watching pid => some pid
  | _ => none

/-- The watcher's `fork`, which may fail. -/
def fork (h : ProcessHandle) (pid : Option ℕ) : Option ProcessHandle :=
  match h.watcher, pid with
  | .starting, some pid => some { h with watcher := .forked pid }
  | .starting, none => some { h with watcher := .cleared }
  | _, _ => none

/-- The watcher's next step after `fork`. -/
def watch (h : ProcessHandle) : Option ProcessHandle :=
  match h.watcher with
  | .starting => none
  | .forked pid => some { h with id := pid, watcher := .watching pid }
  | .watching _ => some { h with watcher := .reaped }
  | .reaped => some { h with id := 0, watcher := .cleared }
  | .cleared => some { h with isRunning := false, watcher := .finished }
  | .finished => none

end ProcessHandle

end IACore
