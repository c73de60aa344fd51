import IACore.Library.Interleaving
import IACore.Machine
import Mathlib.Logic.Function.Basic

/-!
# The task scheduler

Every access to what threads share (a counter operation, a critical section under `s_queue_mutex`, a
wait, a notification, a stop request) is a step of its own.  A function in progress is a frame of
the calling thread's stack; a task that a worker or a helping waiter has dequeued runs on top of it.
The critical section of `schedule_worker_loop` contains a wait and that of `cancel_tasks_of_tag` a
loop, so there the mutex is modelled; the two others are single steps that need it free.

A `Schedule` is named by its address.  `issued`, `started`, `finished` and `cancelled` record the
tasks counted up by `schedule_task`, dequeued to run, and counted down after running and by
`cancel_tasks_of_tag`; no step reads them, but for the number a new task gets.
-/

namespace IACore

open Interleaving

namespace AsyncOps

inductive Priority where
  | high
  | normal
  deriving DecidableEq, Repr

/-- What a client thread or a task does: calls of the scheduler, one after the other. -/
inductive Program where
  | finish
  | scheduleTask (tag : UInt64) (schedule : ℕ) (priority : Priority) (task rest : Program)
  | cancelTasksOfTag (tag : UInt64) (rest : Program)
  | waitForScheduleCompletion (schedule : ℕ) (rest : Program)
  | terminateScheduler (rest : Program)
  deriving DecidableEq, Repr

/-- A queued task; `id` tells equal tasks apart. -/
structure ScheduledTask where
  id : ℕ
  tag : UInt64
  scheduleHandle : ℕ
  task : Program
  deriving DecidableEq, Repr

structure Shared where
  mutexLocked : Bool
  highPriorityQueue : List ScheduledTask
  normalPriorityQueue : List ScheduledTask
  /-- The workers blocked on `s_wake_condition`. -/
  wakeCondition : List ℕ
  scheduleWorkers : List ℕ
  stopRequested : List ℕ
  exited : List ℕ
  counter : ℕ → ℤ
  /-- The threads blocked in `counter.wait`. -/
  waiters : ℕ → List ℕ
  issued : List ScheduledTask
  started : List ScheduledTask
  finished : List ScheduledTask
  cancelled : List ScheduledTask

inductive SchedulePc where
  | fetchAdd (tag : UInt64) (schedule : ℕ) (priority : Priority) (task : Program)
  | enqueue (t : ScheduledTask) (priority : Priority)
  | notifyOne
  deriving DecidableEq, Repr

inductive CancelPc where
  | lock
  | scan (queue : Priority) (it : ℕ)
  | erase (queue : Priority) (it : ℕ) (t : ScheduledTask)
  deriving DecidableEq, Repr

inductive WaitPc where
  | check
  | dequeue
  | reload
  | compare (currentVal : ℕ)
  | blocked (currentVal : ℕ)
  deriving DecidableEq, Repr

inductive WorkerPc where
  | head
  | lock
  | predicate
  | block
  | asleep
  | dequeue
  deriving DecidableEq, Repr

inductive TerminatePc where
  | requestStop (workers : List ℕ)
  | notifyAll
  | join (workers : List ℕ)
  deriving DecidableEq, Repr

/-- A function in progress.  `foundTask t` is the block `if (found_task) { … }`, the same in
`wait_for_schedule_completion` and `schedule_worker_loop`; `notifyAll` is the call that follows a
`fetch_sub` in it and in `cancel_tasks_of_tag`. -/
inductive Frame where
  | code (program : Program)
  | scheduleTask (pc : SchedulePc)
  | cancelTasksOfTag (tag : UInt64) (pc : CancelPc)
  | waitForScheduleCompletion (schedule : ℕ) (pc : WaitPc)
  | scheduleWorkerLoop (worker : ℕ) (pc : WorkerPc)
  | foundTask (t : ScheduledTask)
  | notifyAll (schedule : ℕ)
  | terminateScheduler (pc : TerminatePc)
  deriving DecidableEq, Repr

/-- The moves that a thread may be asked for: its next step, a `notify_one` that wakes the worker
`worker`, and waking up from a wait for no reason. -/
inductive Move where
  | advance
  | notifyOne (worker : ℕ)
  | spurious
  deriving DecidableEq, Repr

/-! ### Accesses to the shared state -/

namespace Shared

/-- The deque for a priority. -/
def queue (σ : Shared) : Priority → List ScheduledTask
  | .high => σ.highPriorityQueue
  | .normal => σ.normalPriorityQueue

def setQueue (σ : Shared) (priority : Priority) (ts : List ScheduledTask) : Shared :=
  { σ with
    highPriorityQueue := if priority = .high then ts else σ.highPriorityQueue
    normalPriorityQueue := if priority = .normal then ts else σ.normalPriorityQueue }

/-- Both deques, in the order in which they are served. -/
def queued (σ : Shared) : List ScheduledTask := σ.highPriorityQueue ++ σ.normalPriorityQueue

/-- `counter.fetch_add(1)` for a new task. -/
def fetchAdd (σ : Shared) (t : ScheduledTask) : Shared :=
  { σ with
    counter := Function.update σ.counter t.scheduleHandle (i32 (σ.counter t.scheduleHandle + 1))
    issued := σ.issued ++ [t] }

/-- `counter.fetch_sub(1)`. -/
def fetchSub (σ : Shared) (schedule : ℕ) : Shared :=
  { σ with counter := Function.update σ.counter schedule (i32 (σ.counter schedule - 1)) }

/-- Move the front of the queues into a local `task`. -/
def popFront (σ : Shared) : Option (ScheduledTask × Shared) :=
  match σ.highPriorityQueue with
  | t :: ts => some (t, { σ with highPriorityQueue := ts, started := σ.started ++ [t] })
  | [] =>
    match σ.normalPriorityQueue with
    | t :: ts => some (t, { σ with normalPriorityQueue := ts, started := σ.started ++ [t] })
    | [] => none

/-- A worker's `return`. -/
def leave (σ : Shared) (worker : ℕ) : Shared := { σ with exited := σ.exited ++ [worker] }

end Shared

/-- The frames after a `fetch_sub` that found `old`. -/
def notifyIfLast (old : ℤ) (schedule : ℕ) : List Frame :=
  if old = 1 then [.notifyAll schedule] else []

/-! ### The functions -/

/-- The statements of a client or task. -/
def codeStep (σ : Shared) : Program → Option (Shared × List Frame)
  | .finish => some (σ, [])
  | .scheduleTask tag schedule priority task rest =>
    -- `ensure` ends the program if there are no workers
    if σ.scheduleWorkers = [] then none
    else some (σ, [.scheduleTask (.fetchAdd tag schedule priority task), .code rest])
  | .cancelTasksOfTag tag rest => some (σ, [.cancelTasksOfTag tag .lock, .code rest])
  | .waitForScheduleCompletion schedule rest =>
    if σ.scheduleWorkers = [] then none
    else some (σ, [.waitForScheduleCompletion schedule .check, .code rest])
  | .terminateScheduler rest =>
    some (σ, [.terminateScheduler (.requestStop σ.scheduleWorkers), .code rest])

/-- `schedule_task`, after its `ensure`. -/
def scheduleTaskStep (σ : Shared) : SchedulePc → Option (Shared × List Frame)
  | .fetchAdd tag schedule priority task =>
    let t : ScheduledTask := ⟨σ.issued.length, tag, schedule, task⟩
    some (σ.fetchAdd t, [.scheduleTask (.enqueue t priority)])
  | .enqueue t priority =>
    if σ.mutexLocked then none
    else some (σ.setQueue priority (σ.queue priority ++ [t]), [.scheduleTask .notifyOne])
  -- with a worker blocked, the move says which one `notify_one` wakes
  | .notifyOne => if σ.wakeCondition = [] then some (σ, []) else none

/-- `cancel_tasks_of_tag`: the same loop over the high and then the normal priority queue. -/
def cancelTasksOfTagStep (σ : Shared) (tag : UInt64) : CancelPc → Option (Shared × List Frame)
  | .lock =>
    if σ.mutexLocked then none
    else some ({ σ with mutexLocked := true }, [.cancelTasksOfTag tag (.scan .high 0)])
  | .scan queue it =>
    match (σ.queue queue)[it]? with
    | some t =>
      -- the `fetch_sub` is a step before the erasure: the task is still queued, but counted off
      if t.tag = tag then
        some ({ σ.fetchSub t.scheduleHandle with cancelled := σ.cancelled ++ [t] },
          notifyIfLast (σ.counter t.scheduleHandle) t.scheduleHandle ++
            [.cancelTasksOfTag tag (.erase queue it t)])
      else some (σ, [.cancelTasksOfTag tag (.scan queue (it + 1))])
    | none =>
      match queue with
      | .high => some (σ, [.cancelTasksOfTag tag (.scan .normal 0)])
      | .normal => some ({ σ with mutexLocked := false }, [])
  | .erase queue it _ =>
    some (σ.setQueue queue ((σ.queue queue).eraseIdx it), [.cancelTasksOfTag tag (.scan queue it)])

/-- `wait_for_schedule_completion` on thread `i`, after its `ensure`. -/
def waitForScheduleCompletionStep (i : ℕ) (σ : Shared) (schedule : ℕ) :
    WaitPc → Option (Shared × List Frame)
  | .check =>
    if σ.counter schedule > 0 then some (σ, [.waitForScheduleCompletion schedule .dequeue])
    else some (σ, [])
  | .dequeue =>
    if σ.mutexLocked then none
    else
      match σ.popFront with
      | some (t, σ') =>
        some (σ', [.code t.task, .foundTask t, .waitForScheduleCompletion schedule .check])
      | none => some (σ, [.waitForScheduleCompletion schedule .reload])
  | .reload =>
    -- the `i32` is loaded into a `u32`
    let currentVal := (σ.counter schedule % 4294967296).toNat
    if currentVal > 0 then some (σ, [.waitForScheduleCompletion schedule (.compare currentVal)])
    else some (σ, [.waitForScheduleCompletion schedule .check])
  | .compare currentVal =>
    -- `wait` compares and blocks in one step; a thread that is woken compares again
    if σ.counter schedule = i32 currentVal then
      some ({ σ with waiters := Function.update σ.waiters schedule (i :: σ.waiters schedule) },
        [.waitForScheduleCompletion schedule (.blocked currentVal)])
    else some (σ, [.waitForScheduleCompletion schedule .check])
  | .blocked currentVal =>
    if i ∈ σ.waiters schedule then none
    else some (σ, [.waitForScheduleCompletion schedule (.compare currentVal)])

/-- `schedule_worker_loop`; `lock`, `predicate`, `block`, `asleep` are `s_wake_condition.wait`. -/
def scheduleWorkerLoopStep (σ : Shared) (worker : ℕ) : WorkerPc → Option (Shared × List Frame)
  | .head =>
    if worker ∈ σ.stopRequested then some (σ.leave worker, [])
    else some (σ, [.scheduleWorkerLoop worker .lock])
  | .lock =>
    if σ.mutexLocked then none
    else some ({ σ with mutexLocked := true }, [.scheduleWorkerLoop worker .predicate])
  | .predicate =>
    if σ.highPriorityQueue ≠ [] ∨ σ.normalPriorityQueue ≠ [] ∨ worker ∈ σ.stopRequested then
      some (σ, [.scheduleWorkerLoop worker .dequeue])
    else some (σ, [.scheduleWorkerLoop worker .block])
  -- releasing the mutex and blocking are one step
  | .block =>
    some ({ σ with mutexLocked := false, wakeCondition := worker :: σ.wakeCondition },
      [.scheduleWorkerLoop worker .asleep])
  | .asleep =>
    if worker ∈ σ.wakeCondition ∨ σ.mutexLocked then none
    else some ({ σ with mutexLocked := true }, [.scheduleWorkerLoop worker .predicate])
  | .dequeue =>
    -- the mutex is held from the predicate on, through this step
    if worker ∈ σ.stopRequested ∧ σ.highPriorityQueue = [] ∧ σ.normalPriorityQueue = [] then
      some ({ σ.leave worker with mutexLocked := false }, [])
    else
      match σ.popFront with
      | some (t, σ') =>
        some ({ σ' with mutexLocked := false },
          [.code t.task, .foundTask t, .scheduleWorkerLoop worker .head])
      | none => some ({ σ with mutexLocked := false }, [.scheduleWorkerLoop worker .head])

/-- `if (found_task) { … }`, once the task has returned. -/
def foundTaskStep (σ : Shared) (t : ScheduledTask) : Shared × List Frame :=
  ({ σ.fetchSub t.scheduleHandle with finished := σ.finished ++ [t] },
    notifyIfLast (σ.counter t.scheduleHandle) t.scheduleHandle)

/-- `terminate_scheduler`. -/
def terminateSchedulerStep (σ : Shared) : TerminatePc → Option (Shared × List Frame)
  | .requestStop (worker :: workers) =>
    some ({ σ with stopRequested := worker :: σ.stopRequested },
      [.terminateScheduler (.requestStop workers)])
  | .requestStop [] => some (σ, [.terminateScheduler .notifyAll])
  | .notifyAll =>
    some ({ σ with wakeCondition := [] }, [.terminateScheduler (.join σ.scheduleWorkers)])
  | .join (worker :: workers) =>
    if worker ∈ σ.exited then some (σ, [.terminateScheduler (.join workers)]) else none
  | .join [] => some ({ σ with scheduleWorkers := [] }, [])

/-- The next step of the function in progress on thread `i`. -/
def advance (i : ℕ) (σ : Shared) : Frame → Option (Shared × List Frame)
  | .code program => codeStep σ program
  | .scheduleTask pc => scheduleTaskStep σ pc
  | .cancelTasksOfTag tag pc => cancelTasksOfTagStep σ tag pc
  | .waitForScheduleCompletion schedule pc => waitForScheduleCompletionStep i σ schedule pc
  | .scheduleWorkerLoop worker pc => scheduleWorkerLoopStep σ worker pc
  | .foundTask t => some (foundTaskStep σ t)
  | .notifyAll schedule =>
    some ({ σ with waiters := Function.update σ.waiters schedule [] }, [])
  | .terminateScheduler pc => terminateSchedulerStep σ pc

/-- What thread `i` does when it is asked for a move. -/
def frameStep (i : ℕ) (move : Move) (σ : Shared) (f : Frame) : Option (Shared × List Frame) :=
  match move, f with
  | .advance, f => advance i σ f
  | .notifyOne worker, .scheduleTask .notifyOne =>
    if worker ∈ σ.wakeCondition then
      some ({ σ with wakeCondition := σ.wakeCondition.filter (· ≠ worker) }, [])
    else none
  | .spurious, .scheduleWorkerLoop worker .asleep =>
    some ({ σ with wakeCondition := σ.wakeCondition.filter (· ≠ worker) },
      [.scheduleWorkerLoop worker .asleep])
  | .spurious, .waitForScheduleCompletion schedule (.blocked currentVal) =>
    some ({ σ with
        waiters := Function.update σ.waiters schedule ((σ.waiters schedule).filter (· ≠ i)) },
      [.waitForScheduleCompletion schedule (.blocked currentVal)])
  | _, _ => none

/-! ### Runs -/

/-- After `initialize_scheduler` has started `workers` workers, with client threads beside them. -/
def start (workers : ℕ) (clients : List Program) : Config Shared Frame where
  shared :=
    { mutexLocked := false, highPriorityQueue := [], normalPriorityQueue := [],
      wakeCondition := [], scheduleWorkers := List.range workers, stopRequested := [],
      exited := [], counter := fun _ => 0, waiters := fun _ => [], issued := [], started := [],
      finished := [], cancelled := [] }
  threads := (List.range workers).map (fun w => [.scheduleWorkerLoop w .head]) ++
    clients.map fun p => [.code p]

/-- Any interleaving of the workers and clients. -/
abbrev Reachable (workers : ℕ) (clients : List Program) : Config Shared Frame → Prop :=
  Run frameStep (start workers clients)

end AsyncOps

end IACore
