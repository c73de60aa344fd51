import IACore.AsyncOps.Equiv.Shutdown
import IACore.AsyncOps.Equiv.Termination
import IACore.AsyncOps.Equiv.Waiting

/-!
# No worker sleeps through a task

A worker is *alert* if it is going to look at the queues before it blocks.  While no stop is
requested, a queued task and a sleeping worker leave an alert worker or a `schedule_task` that has
yet to notify (`Watched`).  This needs the stacks to be well formed (`Lined`): only the frame on top
is in the middle of something, and a worker's loop is at the bottom of its own thread.

So no wake-up is lost (`no_wake_up_lost`), as far as the counters tell a waiter the truth: with 2^32
outstanding tasks a counter is zero again, and nobody notifies (`waiter_unwoken_at_wrap`).
-/

namespace IACore

open Interleaving

namespace AsyncOps

/-! ### Well-formed stacks -/

namespace Frame

/-- A frame that has called or started what is above it. -/
def resting : Frame → Bool
  | .code _ => true
  | .foundTask _ => true
  | .waitForScheduleCompletion _ .check => true
  | .scheduleWorkerLoop _ .head => true
  | .cancelTasksOfTag _ (.erase _ _ _) => true
  | _ => false

end Frame

/-- The stack of thread `i`: a worker's loop at the bottom of each of the first `workers` threads
and nowhere else, and only resting frames below the top. -/
structure StackOk (workers i : ℕ) (stack : List Frame) : Prop where
  resting : ∀ f ∈ stack.tail, f.resting = true
  worker : i < workers → ∃ upper pc, stack = upper ++ [.scheduleWorkerLoop i pc] ∧
    ∀ f ∈ upper, f.isWorker = false
  client : workers ≤ i → ∀ f ∈ stack, f.isWorker = false

section

variable {workers i : ℕ} {σ σ' : Shared} {f : Frame} {fs rest : List Frame}

theorem Transition.resting (ht : Transition i σ f σ' fs) : ∀ g ∈ fs.tail, g.resting = true := by
  have hnotify : ∀ old s g, g ∉ (notifyIfLast old s).tail := by
    intro old s g
    unfold notifyIfLast
    split_ifs <;> simp
  cases ht
  case cancelHit tag q it t hit htag =>
    intro g hg
    unfold notifyIfLast at hg
    split_ifs at hg
    · obtain rfl := List.mem_singleton.mp hg
      rfl
    · cases hg
  case taskReturned t => exact fun g hg => (hnotify _ _ g hg).elim
  all_goals simp [Frame.resting]

theorem StackOk.transition (h : StackOk workers i (f :: rest)) (ht : Transition i σ f σ' fs)
    (hstop : σ.stopRequested = []) : StackOk workers i (fs ++ rest) where
  resting := by
    intro g hg
    cases fs with
    | nil => exact h.resting g (List.mem_of_mem_tail hg)
    | cons top below =>
      rcases List.mem_append.mp hg with hbelow | hrest
      · exact ht.resting g hbelow
      · exact h.resting g hrest
  worker := by
    intro hi
    -- Either the loop itself is on top, or a task runs above it.
    obtain ⟨upper, pc, hstack, hupper⟩ := h.worker hi
    cases upper with
    | nil =>
      obtain ⟨rfl, rfl⟩ := List.cons.inj hstack
      have hstays : i ∉ σ.stopRequested := by
        rw [hstop]
        exact List.not_mem_nil
      obtain ⟨-, upper', pc', rfl, hupper'⟩ :=
        ht.worker.resolve_left fun hleaves => hstays hleaves.1
      exact ⟨upper', pc', by simp, hupper'⟩
    | cons top below =>
      obtain ⟨rfl, rfl⟩ := List.cons.inj hstack
      refine ⟨fs ++ below, pc, by simp, fun g hg => ?_⟩
      rcases List.mem_append.mp hg with hnew | hbelow
      · exact ht.not_isWorker (hupper _ List.mem_cons_self) g hnew
      · exact hupper g (List.mem_cons_of_mem _ hbelow)
  client := by
    intro hi g hg
    have hold := h.client hi
    rcases List.mem_append.mp hg with hnew | hrest
    · exact ht.not_isWorker (hold _ List.mem_cons_self) g hnew
    · exact hold g (List.mem_cons_of_mem _ hrest)

/-- A worker's loop on top of a stack is all there is on it. -/
theorem StackOk.worker_top {w : ℕ} {pc : WorkerPc}
    (h : StackOk workers i (.scheduleWorkerLoop w pc :: rest)) :
    w = i ∧ i < workers ∧ rest = [] := by
  rcases Nat.lt_or_ge i workers with hi | hi
  · obtain ⟨upper, pc', hstack, hupper⟩ := h.worker hi
    cases upper with
    | nil =>
      obtain ⟨hf, rfl⟩ := List.cons.inj hstack
      obtain ⟨rfl, -⟩ := Frame.scheduleWorkerLoop.inj hf
      exact ⟨rfl, hi, rfl⟩
    | cons top below =>
      obtain ⟨rfl, -⟩ := List.cons.inj hstack
      cases hupper _ List.mem_cons_self
  · cases h.client hi _ List.mem_cons_self

/-! ### Looking at the queues -/

/-- Past its last look at the queues before it blocks, or blocked. -/
def Frame.pastLook (σ : Shared) : Frame → Prop
  | .waitForScheduleCompletion _ .reload => True
  | .waitForScheduleCompletion _ (.compare _) => True
  | .waitForScheduleCompletion _ (.blocked _) => True
  | .scheduleWorkerLoop _ .block => True
  | .scheduleWorkerLoop w .asleep => w ∈ σ.wakeCondition
  | _ => False

theorem Frame.not_pastLook_of_resting (σ : Shared) (h : f.resting = true) : ¬ f.pastLook σ := by
  unfold Frame.resting at h
  split at h <;> simp_all [Frame.pastLook]

/-- While there is something to see, a thread that has not looked yet does not stop looking. -/
theorem Transition.not_pastLook (ht : Transition i σ f σ' fs) (hf : ¬ f.pastLook σ)
    (hqueued : σ'.queued ≠ []) {g : Frame} (hg : fs.head? = some g) : ¬ g.pastLook σ' := by
  cases ht
  case helpNone hlock hpop => exact (hqueued (Shared.popFront_none.mp hpop)).elim
  case predicateFalse hhigh hnormal hstop =>
    exact (hqueued (List.append_eq_nil_iff.mpr ⟨hhigh, hnormal⟩)).elim
  case cancelHit tag q it t hit htag =>
    unfold notifyIfLast at hg
    split_ifs at hg <;> obtain rfl := Option.some.inj hg <;> exact id
  case taskReturned t =>
    unfold notifyIfLast at hg
    split_ifs at hg
    · obtain rfl := Option.some.inj hg
      exact id
    · cases hg
  case spuriousWorker w =>
    obtain rfl := Option.some.inj hg
    simp [Frame.pastLook]
  all_goals first
    | exact (hf trivial).elim
    | (obtain rfl := Option.some.inj hg; exact id)
    | cases hg

theorem Transition.wakeCondition (ht : Transition i σ f σ' fs) {w : ℕ}
    (hw : w ∈ σ'.wakeCondition) : w ∈ σ.wakeCondition ∨ f = .scheduleWorkerLoop w .block := by
  cases ht with
  | block w' =>
    obtain rfl | hw := List.mem_cons.mp hw
    · exact .inr rfl
    · exact .inl hw
  | notifyOne => exact .inl (List.mem_of_mem_filter hw)
  | spuriousWorker => exact .inl (List.mem_of_mem_filter hw)
  | terminateNotifyAll => cases hw
  | helpFound _ t σ' hlock hpop | dequeueFound _ t σ' hpop =>
    obtain ⟨high, normal, -, rfl⟩ := Shared.popFront_some hpop
    exact .inl hw
  | _ => exact .inl hw

/-- Only an enqueue makes an empty queue non-empty, and it leads to a notification. -/
theorem Transition.queued (ht : Transition i σ f σ' fs) (hqueued : σ'.queued ≠ []) :
    σ.queued ≠ [] ∨ fs = [.scheduleTask .notifyOne] := by
  by_cases hq : σ.queued = []
  · right
    obtain ⟨hhigh, hnormal⟩ := List.append_eq_nil_iff.mp hq
    cases ht with
    | enqueue => rfl
    | erase tag q it t =>
      refine (hqueued ?_).elim
      cases q <;> simp [Shared.queued, Shared.setQueue, Shared.queue, hhigh, hnormal]
    | helpFound _ t σ' hlock hpop | dequeueFound _ t σ' hpop =>
      obtain ⟨high, normal, hq', rfl⟩ := Shared.popFront_some hpop
      rw [hq] at hq'
      cases hq'
    | _ => exact (hqueued hq).elim
  · exact .inl hq

end

/-- Thread `i` is going to look at the queues before it blocks. -/
def Alert (γ : Config Shared Frame) (i : ℕ) : Prop :=
  ∃ (f : Frame) (rest : List Frame), γ.threads[i]? = some (f :: rest) ∧ ¬ f.pastLook γ.shared

/-- The stacks and books of a scheduler whose workers have not been asked to stop. -/
structure Lined (workers : ℕ) (γ : Config Shared Frame) : Prop where
  ledger : Ledger γ.shared γ.frames
  blocking : Blocking γ.shared γ.frames
  length_le : workers ≤ γ.threads.length
  stackOk : ∀ (i : ℕ) (stack : List Frame), γ.threads[i]? = some stack → StackOk workers i stack
  asleep : ∀ w ∈ γ.shared.wakeCondition, w < workers ∧
    γ.threads[w]? = some [.scheduleWorkerLoop w .asleep]

/-- The stacks and books of a scheduler that nobody terminates. -/
structure Stacks (workers : ℕ) (γ : Config Shared Frame) : Prop where
  ledger : Ledger γ.shared γ.frames
  blocking : Blocking γ.shared γ.frames
  serving : Serving workers γ.shared γ.frames
  length_le : workers ≤ γ.threads.length
  stackOk : ∀ (i : ℕ) (stack : List Frame), γ.threads[i]? = some stack → StackOk workers i stack
  asleep : ∀ w ∈ γ.shared.wakeCondition, w < workers ∧
    γ.threads[w]? = some [.scheduleWorkerLoop w .asleep]

/-- A queued task does not go unseen by a sleeping worker. -/
def Watched (workers : ℕ) (γ : Config Shared Frame) : Prop :=
  γ.shared.queued ≠ [] → γ.shared.wakeCondition ≠ [] →
    (∃ i < workers, Alert γ i) ∨
      ∃ (i : ℕ) (rest : List Frame), γ.threads[i]? = some (.scheduleTask .notifyOne :: rest)

section

variable {workers i : ℕ} {γ : Config Shared Frame} {σ' : Shared} {f : Frame} {fs rest : List Frame}

theorem Lined.step (h : Lined workers γ) (htop : γ.threads[i]? = some (f :: rest))
    (hstop : γ.shared.stopRequested = []) (ht : Transition i γ.shared f σ' fs) :
    Lined workers ⟨σ', γ.threads.set i (fs ++ rest)⟩ := by
  obtain ⟨others, hbefore, hafter⟩ := Config.frames_split htop
  have hledger := h.ledger
  have hblocking := h.blocking
  rw [hbefore] at hledger hblocking
  have hi : i < γ.threads.length := (List.getElem?_eq_some_iff.mp htop).1
  have hstack := (h.stackOk i _ htop).transition ht hstop
  refine ⟨?_, ?_, ?_, ?_, ?_⟩
  · rw [hafter]
    exact hledger.transition ht
  · rw [hafter]
    exact hblocking.transition hledger ht
  · rw [List.length_set]
    exact h.length_le
  · intro j stack hj
    rw [List.getElem?_set] at hj
    split_ifs at hj with hij
    · obtain rfl := Option.some.inj hj
      exact hij ▸ hstack
    · exact h.stackOk j stack hj
  -- A sleeping worker's thread does not move; one falling asleep has its loop alone on its stack.
  · intro w hw
    rcases ht.wakeCondition hw with hold | rfl
    · obtain ⟨hlt, hasleep⟩ := h.asleep w hold
      refine ⟨hlt, ?_⟩
      rw [List.getElem?_set_ne]
      · exact hasleep
      · rintro rfl
        rw [hasleep] at htop
        obtain ⟨rfl, rfl⟩ := List.cons.inj (Option.some.inj htop)
        cases ht with
        | wokenWorker _ hwoken => exact hwoken hold
        | spuriousWorker => simp at hw
    · obtain ⟨rfl, hlt, rfl⟩ := (h.stackOk i _ htop).worker_top
      cases ht
      exact ⟨hlt, by rw [List.getElem?_set_self hi]; rfl⟩

theorem Stacks.lined (h : Stacks workers γ) : Lined workers γ :=
  ⟨h.ledger, h.blocking, h.length_le, h.stackOk, h.asleep⟩

theorem Stacks.step (h : Stacks workers γ) (htop : γ.threads[i]? = some (f :: rest))
    (hcall : f.callsTerminate = false) (ht : Transition i γ.shared f σ' fs) :
    Stacks workers ⟨σ', γ.threads.set i (fs ++ rest)⟩ := by
  obtain ⟨others, hbefore, hafter⟩ := Config.frames_split htop
  have hserving := h.serving
  rw [hbefore] at hserving
  obtain ⟨hledger, hblocking, hlength, hstackOk, hasleep⟩ :=
    h.lined.step htop h.serving.stopRequested_eq ht
  exact ⟨hledger, hblocking, hafter σ' fs ▸ hserving.transition hcall ht, hlength, hstackOk,
    hasleep⟩

/-- A worker that has not looked yet does not lose sight of the queues by its own step. -/
theorem Lined.alert_self (h : Lined workers γ) (htop : γ.threads[i]? = some (f :: rest))
    (hstop : γ.shared.stopRequested = []) (hi : i < workers) (hf : ¬ f.pastLook γ.shared)
    (ht : Transition i γ.shared f σ' fs) (hqueued : σ'.queued ≠ []) :
    Alert ⟨σ', γ.threads.set i (fs ++ rest)⟩ i := by
  have hlt : i < γ.threads.length := (List.getElem?_eq_some_iff.mp htop).1
  have hold := h.stackOk i _ htop
  obtain ⟨upper, pc, hstack, -⟩ := (hold.transition ht hstop).worker hi
  cases fs with
  | cons top below =>
    exact ⟨top, below ++ rest, List.getElem?_set_self hlt, ht.not_pastLook hf hqueued rfl⟩
  -- The frame has returned, and what is below it is resting.
  | nil =>
    rw [List.nil_append] at hstack
    cases rest with
    | nil => simp at hstack
    | cons top below =>
      exact ⟨top, below, List.getElem?_set_self hlt,
        Frame.not_pastLook_of_resting _ (hold.resting top List.mem_cons_self)⟩

/-- Nor by a step of another thread. -/
theorem Lined.alert_other (h : Lined workers γ) (htop : γ.threads[i]? = some (f :: rest))
    (ht : Transition i γ.shared f σ' fs) {j : ℕ} (hij : i ≠ j) (hj : Alert γ j) :
    Alert ⟨σ', γ.threads.set i (fs ++ rest)⟩ j := by
  obtain ⟨g, below, hget, hg⟩ := hj
  refine ⟨g, below, by rw [List.getElem?_set_ne hij]; exact hget, fun hpast => hg ?_⟩
  unfold Frame.pastLook at hpast ⊢
  split at hpast
  · trivial
  · trivial
  · trivial
  · trivial
  · rcases ht.wakeCondition hpast with hold | rfl
    · exact hold
    · obtain ⟨rfl, -, -⟩ := (h.stackOk i _ htop).worker_top
      exact (hij (h.stackOk j _ hget).worker_top.1).elim
  · exact hpast

theorem Watched.step (h : Watched workers γ) (hlined : Lined workers γ)
    (htop : γ.threads[i]? = some (f :: rest)) (hstop : γ.shared.stopRequested = [])
    (ht : Transition i γ.shared f σ' fs) :
    Watched workers ⟨σ', γ.threads.set i (fs ++ rest)⟩ := by
  intro hqueued hwake
  have hlt : i < γ.threads.length := (List.getElem?_eq_some_iff.mp htop).1
  -- Something was queued before, or this is the enqueue and its `notify_one` comes next.
  rcases ht.queued hqueued with hold | rfl
  · have hwake' : γ.shared.wakeCondition ≠ [] := by
      intro hnil
      obtain ⟨w, hw⟩ := List.exists_mem_of_ne_nil _ hwake
      rcases ht.wakeCondition hw with hmem | rfl
      · rw [hnil] at hmem
        cases hmem
      · obtain ⟨others, hframes, -⟩ := Config.frames_split htop
        exact hold (hlined.blocking.block_queued w (hframes ▸ Multiset.mem_cons_self _ _))
    rcases h hold hwake' with ⟨j, hj, halert⟩ | ⟨j, below, hnotify⟩
    · by_cases hij : i = j
      · subst hij
        obtain ⟨g, below, hget, hg⟩ := halert
        rw [htop] at hget
        obtain ⟨rfl, rfl⟩ := List.cons.inj (Option.some.inj hget)
        exact .inl ⟨i, hj, hlined.alert_self htop hstop hj hg ht hqueued⟩
      · exact .inl ⟨j, hj, hlined.alert_other htop ht hij halert⟩
    · by_cases hij : i = j
      · subst hij
        rw [htop] at hnotify
        obtain ⟨rfl, rfl⟩ := List.cons.inj (Option.some.inj hnotify)
        cases ht with
        | notifyNone hnone => exact (hwake' hnone).elim
        | notifyOne w hw =>
          -- The worker that is woken is alert now.
          obtain ⟨hw', hasleep⟩ := hlined.asleep w hw
          have hiw : i ≠ w := by
            rintro rfl
            rw [htop] at hasleep
            cases hasleep
          refine .inl ⟨w, hw', .scheduleWorkerLoop w .asleep, [], ?_, by simp [Frame.pastLook]⟩
          rw [List.getElem?_set_ne hiw]
          exact hasleep
      · exact .inr ⟨j, below, by rw [List.getElem?_set_ne hij]; exact hnotify⟩
  · exact .inr ⟨i, rest, List.getElem?_set_self hlt⟩

end

/-! ### Runs -/

section

variable {workers : ℕ} {clients : List Program} {γ : Config Shared Frame}

theorem Lined.start (workers : ℕ) (clients : List Program) :
    Lined workers (start workers clients) where
  ledger := Ledger.start workers clients
  blocking := Blocking.start workers clients
  length_le := by simp [AsyncOps.start]
  stackOk := by
    intro i stack hi
    rcases Nat.lt_or_ge i workers with hlt | hge
    · rw [start_threads_lt hlt] at hi
      obtain rfl := Option.some.inj hi
      exact ⟨by simp, fun _ => ⟨[], .head, rfl, by simp⟩, fun hge => by omega⟩
    · obtain ⟨p, -, rfl⟩ := start_threads_ge hge hi
      exact ⟨by simp, fun hlt => by omega, by simp [Frame.isWorker]⟩
  asleep := by
    intro w hw
    cases hw

theorem Stacks.start (workers : ℕ) (clients : List Program) :
    Stacks workers (start workers clients) := by
  obtain ⟨hledger, hblocking, hlength, hstackOk, hasleep⟩ := Lined.start workers clients
  exact ⟨hledger, hblocking, Serving.start workers clients, hlength, hstackOk, hasleep⟩

/-- While nobody terminates the scheduler, every task is watched. -/
theorem stacks_and_watched
    (h : RunWhere frameStep (fun _ f => f.callsTerminate = false) (start workers clients) γ) :
    Stacks workers γ ∧ Watched workers γ :=
  RunWhere.invariant (I := fun γ => Stacks workers γ ∧ Watched workers γ) h
    (fun _ _ _ _ _ _ _ htop hC hP hI => ⟨hI.1.step htop hC (frameStep_transition hP),
      hI.2.step hI.1.lined htop hI.1.serving.stopRequested_eq (frameStep_transition hP)⟩)
    ⟨Stacks.start workers clients, fun hqueued => (hqueued rfl).elim⟩

/-- Nor is a task unseen while `terminate_scheduler` has been called, until it requests a stop. -/
theorem lined_and_watched (h : Reachable workers clients γ) (hstop : γ.shared.stopRequested = []) :
    Lined workers γ ∧ Watched workers γ := by
  have hinv : γ.shared.stopRequested = [] → Lined workers γ ∧ Watched workers γ := by
    refine RunWhere.invariant
      (I := fun γ => γ.shared.stopRequested = [] → Lined workers γ ∧ Watched workers γ) h
      (fun δ _ _ _ _ _ _ htop _ hP hI hstop' => ?_)
      fun _ => ⟨Lined.start workers clients, fun hqueued => (hqueued rfl).elim⟩
    -- Requests are never withdrawn, so none had been made before this step either.
    have ht := frameStep_transition hP
    have hbefore : δ.shared.stopRequested = [] :=
      List.subset_nil.mp (hstop' ▸ Stopping.stopRequested_subset ht)
    obtain ⟨hlined, hwatched⟩ := hI hbefore
    exact ⟨hlined.step htop hbefore ht, hwatched.step hlined htop hbefore ht⟩
  exact hinv hstop

/-! ### Lost wake-ups -/

/-- A task is queued, every worker is blocked on `s_wake_condition`, and no `schedule_task` has yet
to notify. -/
def TaskUnseen (workers : ℕ) (γ : Config Shared Frame) : Prop :=
  γ.shared.queued ≠ [] ∧ (∀ w < workers, w ∈ γ.shared.wakeCondition) ∧
    .scheduleTask .notifyOne ∉ γ.frames

/-- A thread is blocked in `counter.wait` on `s`, the counter is zero, and nobody who counted down
has yet to notify. -/
def WaiterUnwoken (γ : Config Shared Frame) (s : ℕ) : Prop :=
  (∃ i v rest, γ.threads[i]? = some (.waitForScheduleCompletion s (.blocked v) :: rest) ∧
    i ∈ γ.shared.waiters s) ∧ γ.shared.counter s = 0 ∧ .notifyAll s ∉ γ.frames

theorem not_taskUnseen (hworkers : 0 < workers) (hlined : Lined workers γ)
    (hwatched : Watched workers γ) : ¬ TaskUnseen workers γ := by
  rintro ⟨hqueued, hall, hnotify⟩
  have hwake : γ.shared.wakeCondition ≠ [] := List.ne_nil_of_mem (hall 0 hworkers)
  rcases hwatched hqueued hwake with ⟨i, hi, f, rest, htop, hf⟩ | ⟨i, rest, htop⟩
  · -- The alert worker would be asleep like all others.
    obtain ⟨-, hasleep⟩ := hlined.asleep i (hall i hi)
    rw [hasleep] at htop
    obtain ⟨rfl, -⟩ := List.cons.inj (Option.some.inj htop)
    exact hf (hall i hi)
  · exact hnotify (Config.mem_frames.mpr ⟨i, _, htop, List.mem_cons_self⟩)

theorem not_waiterUnwoken (h : Reachable workers clients γ) {s : ℕ}
    (hs : (outstanding γ s).card < 4294967296) : ¬ WaiterUnwoken γ s := by
  rintro ⟨⟨i, v, rest, -, hi⟩, hcounter, hnotify⟩
  rcases h.blocking.waiting i s hi with hout | hmem
  · have hpos : 0 < (outstanding γ s).card := Multiset.card_pos.mpr hout
    have hcard : γ.shared.counter s = i32 ((outstanding γ s).card : ℕ) :=
      h.ledger.counter_eq_i32 s
    rw [hcard] at hcounter
    unfold i32 at hcounter
    omega
  · exact hnotify hmem

/-- **No wake-up is lost** while no stop is requested: with at least one worker, no task is queued
with all workers blocked and nobody about to notify; and no waiter of a schedule with fewer than
2^32 outstanding tasks is blocked with the counter at zero and nobody about to notify. -/
theorem no_wake_up_lost (hworkers : 0 < workers) (h : Reachable workers clients γ)
    (hstop : γ.shared.stopRequested = []) : ¬ TaskUnseen workers γ ∧
      ∀ s, (outstanding γ s).card < 4294967296 → ¬ WaiterUnwoken γ s := by
  obtain ⟨hlined, hwatched⟩ := lined_and_watched h hstop
  exact ⟨not_taskUnseen hworkers hlined hwatched, fun s hs => not_waiterUnwoken h hs⟩

end

/-- The only worker sleeps while a task is enqueued. -/
theorem no_wake_up_lost_enqueued :
    let γ := play frameStep ([0, 0, 0, 0, 1, 1, 1].map fun i => (i, .advance))
      (start 1 [.scheduleTask 7 0 .normal .finish .finish])
    ¬ TaskUnseen 1 γ ∧ ¬ WaiterUnwoken γ 0 := by
  intro γ
  have h := no_wake_up_lost (by decide) (run_play _ _ : Reachable 1 _ γ) (by decide)
  exact ⟨h.1, h.2 0 (by decide)⟩

/-- A task runs on the only worker, a waiter is blocked at the counter's value 1, and a client is
about to go on with `rest`. -/
theorem blocked_at_one (rest : Program) :
    ∃ σ, Reachable 1
        [.scheduleTask 0 0 .normal .finish rest, .waitForScheduleCompletion 0 .finish]
        ⟨σ, [[.code .finish, .foundTask ⟨0, 0, 0, .finish⟩, .scheduleWorkerLoop 0 .head],
          [.code rest], [.waitForScheduleCompletion 0 (.blocked 1), .code .finish]]⟩ ∧
      σ.scheduleWorkers ≠ [] ∧ σ.mutexLocked = false ∧ σ.wakeCondition = [] ∧
      σ.counter 0 = i32 1 ∧ σ.waiters 0 = [2] ∧ σ.stopRequested = [] := by
  have hrun := run_play (P := frameStep)
    ([1, 1, 1, 1, 0, 0, 0, 0, 2, 2, 2, 2, 2].map fun i => (i, .advance))
    (start 1 [.scheduleTask 0 0 .normal .finish rest, .waitForScheduleCompletion 0 .finish])
  simp [playWhere, step, start, frameStep, advance, codeStep, scheduleTaskStep,
    waitForScheduleCompletionStep, scheduleWorkerLoopStep, Shared.fetchAdd, Shared.setQueue,
    Shared.queue, Shared.popFront, List.range_succ, i32] at hrun
  exact ⟨_, hrun, by decide, rfl, rfl, rfl, rfl, rfl⟩

/-- With 2^32 - 1 more tasks the counter is zero, and the waiter stays blocked. -/
theorem waiter_unwoken_at_wrap :
    ∃ γ, Reachable 1
        [scheduleMany 4294967296, .waitForScheduleCompletion 0 .finish] γ ∧
      γ.shared.stopRequested = [] ∧ WaiterUnwoken γ 0 := by
  obtain ⟨σ, hfront, hworkers, hlock, hwake, hcounter, hwaiters, hstop⟩ :=
    blocked_at_one (scheduleMany 4294967295)
  obtain ⟨σ', hrun, hcounter', hwaiters', hstop'⟩ :=
    scheduleMany_run 4294967295
      [[.code .finish, .foundTask ⟨0, 0, 0, .finish⟩, .scheduleWorkerLoop 0 .head]]
      [[.waitForScheduleCompletion 0 (.blocked 1), .code .finish]] hworkers hlock hwake hcounter
  refine ⟨_, hfront.trans hrun, hstop'.trans hstop, ⟨2, 1, [.code .finish], rfl, ?_⟩, ?_, ?_⟩
  · rw [hwaiters', hwaiters]
    exact List.mem_singleton_self 2
  · rw [hcounter']
    decide
  · simp [Config.frames]

end AsyncOps

end IACore
