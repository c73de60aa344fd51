import IACore.AsyncOps
import IACore.Library.QueueHistory

/-!
# The order in which tasks are served

A run with a record of what enters the two queues and what leaves them (`Recorded`), and what it
means that tasks are served in order (`InOrder`): the oldest task of high priority first, then the
oldest of normal priority; and a `cancel_tasks_of_tag` takes out the tasks of its tag, wherever they
are, and leaves the others in place.
-/

namespace IACore

open Interleaving QueueHistory

namespace AsyncOps

/-- What enters the queues or leaves them in the next step of a frame. -/
def observe (σ : Shared) : Frame → List (Event Priority ScheduledTask)
  | .scheduleTask (.enqueue t priority) => [.enqueued priority t]
  | .waitForScheduleCompletion _ .dequeue => σ.popFront.toList.map fun r => .dequeued r.1
  | .scheduleWorkerLoop _ .dequeue => σ.popFront.toList.map fun r => .dequeued r.1
  | .cancelTasksOfTag _ (.erase queue it _) => (σ.queue queue)[it]?.toList.map .erased
  | _ => []

/-- An interleaving of the workers and clients that leads to `γ`, with the record `h`. -/
abbrev Recorded (workers : ℕ) (clients : List Program) (γ : Config Shared Frame)
    (h : List (Event Priority ScheduledTask)) : Prop :=
  Run (record observe frameStep) ((start workers clients).recorded []) (γ.recorded h)

/-! ### A call of `cancel_tasks_of_tag` -/

/-- The call that takes the mutex in the step from `γ` to `γ₁` has given it back in `γ'`.  Other
threads move in between; no step is made from a state in which the mutex is free. -/
structure CancelCall (tag : UInt64) (γ γ₁ γ' : Config Shared Frame) : Prop where
  lock : StepWhere frameStep (fun _ f => f = .cancelTasksOfTag tag .lock) γ γ₁
  hold : RunWhere frameStep (fun δ _ => δ.shared.mutexLocked = true) γ₁ γ'
  unlocked : γ'.shared.mutexLocked = false

/-- How many of the tasks are on the schedule `s`. -/
def countOn (s : ℕ) (ts : List ScheduledTask) : ℤ := (ts.countP fun t => t.scheduleHandle = s : ℕ)

/-- The call takes the tasks of its tag out of both queues, keeps the others in their order, and
lowers every counter by the number of its tasks that it has taken out.  The counter also follows
what other threads have issued and finished meanwhile. -/
structure Cancels (tag : UInt64) (σ σ' : Shared) : Prop where
  queue_eq : ∀ p, σ'.queue p = (σ.queue p).filter fun t => t.tag ≠ tag
  cancelled_eq : σ'.cancelled = σ.cancelled ++ σ.queued.filter fun t => t.tag = tag
  counter_eq : ∀ s, σ'.counter s = i32 (σ.counter s +
    (countOn s σ'.issued - countOn s σ.issued) - (countOn s σ'.finished - countOn s σ.finished) -
    countOn s (σ.queued.filter fun t => t.tag = tag))

/-! ### Order -/

/-- What is served in order along a run that has led to `γ` with the record `h`. -/
structure InOrder (γ : Config Shared Frame) (h : List (Event Priority ScheduledTask)) : Prop where
  queue_eq : ∀ p, γ.shared.queue p = waiting h p
  started_eq : γ.shared.started = served h
  arrivals_nodup : (arrivals h).Nodup
  started_nodup : γ.shared.started.Nodup
  /-- Both dequeues take the oldest task of high priority, or else the oldest of normal. -/
  oldest : ∀ before t, before ++ [.dequeued t] <+: h →
    (waiting before .high ++ waiting before .normal).head? = some t
  fifo : ∀ p t t', [t, t'].Sublist (arrivalsAt h p) → t ∈ γ.shared.started →
    t' ∈ γ.shared.started → [t, t'].Sublist γ.shared.started
  cancels : ∀ tag γ₁ γ', CancelCall tag γ γ₁ γ' → Cancels tag γ.shared γ'.shared

end AsyncOps

end IACore
