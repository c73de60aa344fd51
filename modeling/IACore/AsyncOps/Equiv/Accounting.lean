import IACore.AsyncOps.Transition
import Mathlib.Tactic.Abel

/-!
# Every task is accounted for

A task is *entering* between its `fetch_add` and its enqueue, then queued, then *running* until its
`fetch_sub`; a task that a cancellation has counted off stays queued until it is erased.  The ledger
(`Ledger`) balances the tasks in these phases against the recorded events, as multisets, and says
that the mutex has as many holders as its state allows.  Every transition keeps it
(`Ledger.transition`).
-/

namespace IACore

open Interleaving

namespace AsyncOps

/-! ### The tasks in each phase -/

namespace Frame

/-- The task a `schedule_task` has counted and not yet enqueued. -/
@[simp] def entering : Frame → List ScheduledTask
  | .scheduleTask (.enqueue t _) => [t]
  | _ => []

/-- The dequeued task that has not been counted down yet. -/
@[simp] def running : Frame → List ScheduledTask
  | .foundTask t => [t]
  | _ => []

/-- The queued task that a cancellation has counted off and is about to erase. -/
@[simp] def countedOff : Frame → List ScheduledTask
  | .cancelTasksOfTag _ (.erase _ _ t) => [t]
  | _ => []

/-- 1 inside a critical section that has more than one step. -/
@[simp] def held : Frame → ℕ
  | .cancelTasksOfTag _ (.scan _ _) => 1
  | .cancelTasksOfTag _ (.erase _ _ _) => 1
  | .scheduleWorkerLoop _ .predicate => 1
  | .scheduleWorkerLoop _ .block => 1
  | .scheduleWorkerLoop _ .dequeue => 1
  | _ => 0

end Frame

/-- The tasks in one phase, over all frames. -/
def tasksOf (phase : Frame → List ScheduledTask) (frames : Multiset Frame) :
    Multiset ScheduledTask :=
  frames.bind fun f => (phase f : Multiset ScheduledTask)

/-- How many frames are inside a critical section. -/
def holders (frames : Multiset Frame) : ℕ := (frames.map Frame.held).sum

variable {phase : Frame → List ScheduledTask} {frames others : Multiset Frame}

@[simp] theorem tasksOf_cons (f : Frame) :
    tasksOf phase (f ::ₘ others) = (phase f : Multiset ScheduledTask) + tasksOf phase others := by
  simp [tasksOf]

@[simp] theorem tasksOf_coe_add (fs : List Frame) :
    tasksOf phase ((fs : Multiset Frame) + others) =
      (fs.flatMap phase : List ScheduledTask) + tasksOf phase others := by
  rw [tasksOf, Multiset.add_bind, Multiset.coe_bind, tasksOf]

@[simp] theorem holders_cons (f : Frame) :
    holders (f ::ₘ others) = f.held + holders others := by
  rw [holders, Multiset.map_cons, Multiset.sum_cons, holders]

@[simp] theorem holders_coe_add (fs : List Frame) :
    holders ((fs : Multiset Frame) + others) =
      (fs.map Frame.held).sum + holders others := by
  rw [holders, Multiset.map_add, Multiset.sum_add, holders, Multiset.map_coe, Multiset.sum_coe]

@[simp] theorem countedOff_notifyIfLast (old : ℤ) (s : ℕ) :
    (notifyIfLast old s).flatMap Frame.countedOff = [] := by
  unfold notifyIfLast
  split_ifs <;> rfl

@[simp] theorem held_notifyIfLast (old : ℤ) (s : ℕ) :
    ((notifyIfLast old s).map Frame.held).sum = 0 := by
  unfold notifyIfLast
  split_ifs <;> rfl

theorem tasksOf_eq_zero (h : ∀ f ∈ frames, phase f = []) : tasksOf phase frames = 0 := by
  refine Multiset.eq_zero_of_forall_notMem fun t ht => ?_
  obtain ⟨f, hf, htf⟩ := Multiset.mem_bind.mp ht
  simp [h f hf] at htf

theorem mem_tasksOf {t : ScheduledTask} : t ∈ tasksOf phase frames ↔ ∃ f ∈ frames, t ∈ phase f := by
  simp [tasksOf]

/-! ### The queues -/

namespace Shared

variable {σ σ' : Shared} {t : ScheduledTask}

theorem popFront_some (h : σ.popFront = some (t, σ')) :
    ∃ high normal, σ.queued = t :: (high ++ normal) ∧
      σ' = { σ with
        highPriorityQueue := high
        normalPriorityQueue := normal
        started := σ.started ++ [t] } := by
  unfold popFront at h
  split at h
  · next ts hhigh =>
    obtain ⟨rfl, rfl⟩ := Prod.mk.inj (Option.some.inj h)
    exact ⟨ts, σ.normalPriorityQueue, by simp [queued, hhigh], rfl⟩
  · next hhigh =>
    split at h
    · next ts hnormal =>
      obtain ⟨rfl, rfl⟩ := Prod.mk.inj (Option.some.inj h)
      exact ⟨[], ts, by simp [queued, hhigh, hnormal], by rw [hhigh]⟩
    · cases h

theorem popFront_none : σ.popFront = none ↔ σ.queued = [] := by
  unfold popFront queued
  split
  · next hhigh => simp [hhigh]
  · next hhigh =>
    split
    · next hnormal => simp [hnormal]
    · next hnormal => simp [hhigh, hnormal]

@[simp] theorem queue_setQueue (σ : Shared) (q : Priority) (ts : List ScheduledTask) :
    (σ.setQueue q ts).queue q = ts := by
  cases q <;> rfl

theorem queue_setQueue_of_ne (σ : Shared) {q q' : Priority} (h : q' ≠ q) (ts : List ScheduledTask) :
    (σ.setQueue q ts).queue q' = σ.queue q' := by
  cases q <;> cases q' <;> first | rfl | exact absurd rfl h

theorem queued_append_perm (σ : Shared) (q : Priority) (t : ScheduledTask) :
    (σ.setQueue q (σ.queue q ++ [t])).queued.Perm (t :: σ.queued) := by
  cases q with
  | high => simp [queued, setQueue, queue]
  | normal => simp [queued, setQueue, queue, ← List.append_assoc]

theorem queued_eraseIdx_perm {q : Priority} {it : ℕ} (h : (σ.queue q)[it]? = some t) :
    (t :: (σ.setQueue q ((σ.queue q).eraseIdx it)).queued).Perm σ.queued := by
  obtain ⟨hit, hget⟩ := List.getElem?_eq_some_iff.mp h
  have hperm : (t :: (σ.queue q).eraseIdx it).Perm (σ.queue q) := by
    rw [← hget]
    exact List.getElem_cons_eraseIdx_perm hit
  cases q with
  | high => exact hperm.append_right _
  | normal => exact List.perm_middle.symm.trans (hperm.append_left _)

theorem mem_queued_of_getElem? {q : Priority} {it : ℕ} (h : (σ.queue q)[it]? = some t) :
    t ∈ σ.queued := by
  have ht := List.mem_of_getElem? h
  cases q with
  | high => exact List.mem_append_left _ ht
  | normal => exact List.mem_append_right _ ht

end Shared

/-! ### The books -/

/-- The tasks by phase, and those of the recorded events. -/
structure Books where
  entering : Multiset ScheduledTask
  queued : Multiset ScheduledTask
  countedOff : Multiset ScheduledTask
  running : Multiset ScheduledTask
  issued : Multiset ScheduledTask
  started : Multiset ScheduledTask
  finished : Multiset ScheduledTask
  cancelled : Multiset ScheduledTask

namespace Books

/-- What can happen to a task. -/
inductive Step (b b' : Books) : Prop
  | quiet (hb : b' = b)
  | issue (t) (hb : b' = { b with entering := t ::ₘ b.entering, issued := t ::ₘ b.issued })
  | enqueue (t entering) (h : b.entering = t ::ₘ entering)
      (hb : b' = { b with entering, queued := t ::ₘ b.queued })
  | take (t queued) (h : b.queued = t ::ₘ queued)
      (hb : b' = { b with queued, running := t ::ₘ b.running, started := t ::ₘ b.started })
  | finish (t running) (h : b.running = t ::ₘ running)
      (hb : b' = { b with running, finished := t ::ₘ b.finished })
  | countOff (t)
      (hb : b' = { b with countedOff := t ::ₘ b.countedOff, cancelled := t ::ₘ b.cancelled })
  | erase (t queued countedOff) (h : b.queued = t ::ₘ queued)
      (hoff : b.countedOff = t ::ₘ countedOff) (hb : b' = { b with queued, countedOff })

/-- Every issued task is in one phase or has left it by one of the recorded events. -/
structure Balanced (b : Books) : Prop where
  issued_eq : b.entering + b.queued + b.started + b.cancelled = b.issued + b.countedOff
  started_eq : b.started = b.finished + b.running

theorem Balanced.step {b b' : Books} (hb : b.Balanced) (h : b.Step b') : b'.Balanced := by
  obtain ⟨hissued, hstarted⟩ := hb
  cases h with
  | quiet hb => exact hb ▸ ⟨hissued, hstarted⟩
  | issue t hb => exact hb ▸ ⟨by simp [hissued], hstarted⟩
  | enqueue t entering h hb => exact hb ▸ ⟨by simpa [h] using hissued, hstarted⟩
  | take t queued h hb => exact hb ▸ ⟨by simpa [h] using hissued, by simp [hstarted]⟩
  | finish t running h hb => exact hb ▸ ⟨hissued, by simpa [h] using hstarted⟩
  | countOff t hb => exact hb ▸ ⟨by simp [hissued], hstarted⟩
  | erase t queued countedOff h hoff hb =>
    exact hb ▸ ⟨by simpa [h, hoff] using hissued, hstarted⟩

end Books

/-- The books of a state of the scheduler. -/
def books (σ : Shared) (frames : Multiset Frame) : Books where
  entering := tasksOf Frame.entering frames
  queued := σ.queued
  countedOff := tasksOf Frame.countedOff frames
  running := tasksOf Frame.running frames
  issued := σ.issued
  started := σ.started
  finished := σ.finished
  cancelled := σ.cancelled

variable {i : ℕ} {σ σ' : Shared} {f : Frame} {fs : List Frame}

theorem books_transition (ht : Transition i σ f σ' fs)
    (herase : ∀ tag q it t, f = .cancelTasksOfTag tag (.erase q it t) →
      (σ.queue q)[it]? = some t) :
    (books σ (f ::ₘ others)).Step (books σ' (fs + others)) := by
  cases ht with
  | fetchAdd tag s priority task t =>
    refine .issue t ?_
    simp [books, Shared.fetchAdd, Shared.queued]
  | enqueue t q =>
    refine .enqueue t (tasksOf Frame.entering others) (by simp [books]) ?_
    have hqueued := Multiset.coe_eq_coe.mpr (σ.queued_append_perm q t)
    rw [← Multiset.cons_coe] at hqueued
    simp only [books, hqueued]
    simp [Shared.setQueue]
  | cancelHit tag q it t =>
    refine .countOff t ?_
    simp [books, Shared.fetchSub, Shared.queued]
  | erase tag q it t =>
    have hqueued := Multiset.coe_eq_coe.mpr (Shared.queued_eraseIdx_perm (herase _ _ _ _ rfl))
    rw [← Multiset.cons_coe] at hqueued
    refine .erase t _ (tasksOf Frame.countedOff others) hqueued.symm (by simp [books]) ?_
    simp [books, Shared.setQueue]
  | helpFound _ t σ' hlock hpop | dequeueFound _ t σ' hpop =>
    obtain ⟨high, normal, hqueued, rfl⟩ := Shared.popFront_some hpop
    refine .take t (high ++ normal : List ScheduledTask) (by simp [books, hqueued]) ?_
    simp [books, Shared.queued]
  | taskReturned t =>
    refine .finish t (tasksOf Frame.running others) (by simp [books]) ?_
    simp [books, Shared.fetchSub, Shared.queued]
  | _ => exact .quiet (by simp [books, Shared.queued, Shared.leave])

theorem mem_start_frames {workers : ℕ} {clients : List Program} {f : Frame}
    (hf : f ∈ (start workers clients).frames) :
    (∃ w < workers, f = .scheduleWorkerLoop w .head) ∨ ∃ p ∈ clients, f = .code p := by
  simp only [Config.frames, start, Multiset.mem_coe, List.mem_flatten, List.mem_append,
    List.mem_map, List.mem_range] at hf
  obtain ⟨stack, ⟨w, hw, rfl⟩ | ⟨p, hp, rfl⟩, hf⟩ := hf
  · exact .inl ⟨w, hw, List.mem_singleton.mp hf⟩
  · exact .inr ⟨p, hp, List.mem_singleton.mp hf⟩

/-! ### The ledger -/

/-- What holds of the shared state and all frames, in every state. -/
structure Ledger (σ : Shared) (frames : Multiset Frame) : Prop where
  balanced : (books σ frames).Balanced
  holders_eq : holders frames = σ.mutexLocked.toNat
  erasing : ∀ tag q it t, .cancelTasksOfTag tag (.erase q it t) ∈ frames →
    (σ.queue q)[it]? = some t
  counter_eq : ∀ s, σ.counter s = i32 ((σ.issued.countP fun t => t.scheduleHandle = s : ℕ) -
    (σ.finished.countP fun t => t.scheduleHandle = s : ℕ) -
    (σ.cancelled.countP fun t => t.scheduleHandle = s : ℕ))
  id_eq : σ.issued.map ScheduledTask.id = List.range σ.issued.length

namespace Ledger

theorem holders_transition (h : Ledger σ (f ::ₘ others)) (ht : Transition i σ f σ' fs) :
    holders (fs + others) = σ'.mutexLocked.toNat := by
  have hholders := h.holders_eq
  have hle := Bool.toNat_le σ.mutexLocked
  cases ht with
  | helpFound _ t σ' hlock hpop =>
    obtain ⟨high, normal, -, rfl⟩ := Shared.popFront_some hpop
    simpa using hholders
  | cancelLock _ hlock => simpa [hlock] using hholders
  | workerLock _ hlock => simpa [hlock] using hholders
  | wokenWorker _ _ hlock => simpa [hlock] using hholders
  | cancelEnd =>
    simp at hholders ⊢
    omega
  | block =>
    simp at hholders ⊢
    omega
  | dequeueStop =>
    simp at hholders ⊢
    omega
  | dequeueFound =>
    simp at hholders ⊢
    omega
  | dequeueNone =>
    simp at hholders ⊢
    omega
  | _ => simpa [Shared.fetchAdd, Shared.fetchSub, Shared.setQueue, Shared.leave] using hholders

theorem counter_transition (h : Ledger σ (f ::ₘ others)) (ht : Transition i σ f σ' fs) (s : ℕ) :
    σ'.counter s = i32 ((σ'.issued.countP fun t => t.scheduleHandle = s : ℕ) -
      (σ'.finished.countP fun t => t.scheduleHandle = s : ℕ) -
      (σ'.cancelled.countP fun t => t.scheduleHandle = s : ℕ)) := by
  have hcounter := h.counter_eq s
  cases ht with
  | fetchAdd tag s' priority task t =>
    by_cases hs : t.scheduleHandle = s
    · subst hs
      simp only [Shared.fetchAdd, Function.update_self, hcounter, i32_i32_add, List.countP_append]
      exact congrArg i32 (by simp; omega)
    · simpa [Shared.fetchAdd, hs, Function.update_of_ne (Ne.symm hs)] using hcounter
  | cancelHit tag q it t =>
    by_cases hs : t.scheduleHandle = s
    · subst hs
      simp only [Shared.fetchSub, Function.update_self, hcounter, i32_i32_sub, List.countP_append]
      exact congrArg i32 (by simp; omega)
    · simpa [Shared.fetchSub, hs, Function.update_of_ne (Ne.symm hs)] using hcounter
  | taskReturned t =>
    by_cases hs : t.scheduleHandle = s
    · subst hs
      simp only [Shared.fetchSub, Function.update_self, hcounter, i32_i32_sub, List.countP_append]
      exact congrArg i32 (by simp; omega)
    · simpa [Shared.fetchSub, hs, Function.update_of_ne (Ne.symm hs)] using hcounter
  | helpFound _ t σ' hlock hpop | dequeueFound _ t σ' hpop =>
    obtain ⟨high, normal, -, rfl⟩ := Shared.popFront_some hpop
    exact hcounter
  | _ => exact hcounter

theorem id_transition (h : Ledger σ (f ::ₘ others)) (ht : Transition i σ f σ' fs) :
    σ'.issued.map ScheduledTask.id = List.range σ'.issued.length := by
  have hid := h.id_eq
  cases ht with
  | fetchAdd tag s priority task t ht =>
    simp [Shared.fetchAdd, List.range_succ, hid, ht]
  | helpFound _ t σ' hlock hpop | dequeueFound _ t σ' hpop =>
    obtain ⟨high, normal, -, rfl⟩ := Shared.popFront_some hpop
    exact hid
  | _ => exact hid

theorem held_others (h : Ledger σ (f ::ₘ others)) {g : Frame} (hg : g ∈ others) :
    f.held + g.held ≤ σ.mutexLocked.toNat := by
  obtain ⟨rest, rfl⟩ := Multiset.exists_cons_of_mem hg
  have hholders := h.holders_eq
  rw [holders_cons, holders_cons] at hholders
  omega

theorem erasing_transition (h : Ledger σ (f ::ₘ others)) (ht : Transition i σ f σ' fs)
    (tag : UInt64) (q : Priority) (it : ℕ) (t : ScheduledTask)
    (hmem : .cancelTasksOfTag tag (.erase q it t) ∈ (fs : Multiset Frame) + others) :
    (σ'.queue q)[it]? = some t := by
  rcases Multiset.mem_add.mp hmem with hnew | hold
  · cases ht <;> simp at hnew
    case cancelHit tag' q' it' t' hit htag =>
      obtain ⟨rfl, rfl, rfl, rfl⟩ := hnew
      exact hit
  · have hqueue := h.erasing tag q it t (Multiset.mem_cons_of_mem hold)
    -- No other frame may touch the queues while this one holds the mutex.
    have hheld := h.held_others hold
    have hle := Bool.toNat_le σ.mutexLocked
    cases ht with
    | enqueue t' q' =>
      by_cases hq : q = q'
      · subst hq
        obtain ⟨hit, -⟩ := List.getElem?_eq_some_iff.mp hqueue
        rw [Shared.queue_setQueue, List.getElem?_append_left hit]
        exact hqueue
      · rwa [Shared.queue_setQueue_of_ne _ hq]
    | erase =>
      simp only [Frame.held] at hheld
      omega
    | helpFound _ _ _ hlock =>
      rw [hlock] at hheld
      simp at hheld
    | dequeueFound =>
      simp only [Frame.held] at hheld
      omega
    | _ => exact hqueue

theorem transition (h : Ledger σ (f ::ₘ others)) (ht : Transition i σ f σ' fs) :
    Ledger σ' (fs + others) where
  balanced := h.balanced.step <| books_transition ht fun tag q it t hf =>
    h.erasing tag q it t (hf ▸ Multiset.mem_cons_self _ _)
  holders_eq := h.holders_transition ht
  erasing := h.erasing_transition ht
  counter_eq := h.counter_transition ht
  id_eq := h.id_transition ht

/-- In the initial state there are no tasks and nobody holds the mutex. -/
theorem start (workers : ℕ) (clients : List Program) :
    Ledger (start workers clients).shared (start workers clients).frames := by
  have hzero : ∀ phase : Frame → List ScheduledTask,
      (∀ w, phase (.scheduleWorkerLoop w .head) = []) → (∀ p, phase (.code p) = []) →
      tasksOf phase (AsyncOps.start workers clients).frames = 0 := by
    intro phase hworker hcode
    refine tasksOf_eq_zero fun f hf => ?_
    obtain ⟨w, -, rfl⟩ | ⟨p, -, rfl⟩ := mem_start_frames hf
    · exact hworker w
    · exact hcode p
  refine ⟨?_, ?_, ?_, fun s => by simp [AsyncOps.start, i32], rfl⟩
  · rw [books, hzero _ (fun _ => rfl) fun _ => rfl, hzero _ (fun _ => rfl) fun _ => rfl,
      hzero _ (fun _ => rfl) fun _ => rfl]
    exact ⟨rfl, rfl⟩
  · refine Multiset.sum_eq_zero fun n hn => ?_
    obtain ⟨f, hf, rfl⟩ := Multiset.mem_map.mp hn
    obtain ⟨w, -, rfl⟩ | ⟨p, -, rfl⟩ := mem_start_frames hf <;> rfl
  · intro tag q it t hf
    obtain ⟨w, -, h⟩ | ⟨p, -, h⟩ := mem_start_frames hf <;> cases h

end Ledger

/-- The ledger holds in every reachable state. -/
theorem Reachable.ledger {workers : ℕ} {clients : List Program} {γ : Config Shared Frame}
    (h : Reachable workers clients γ) : Ledger γ.shared γ.frames :=
  RunWhere.bag (I := Ledger) h
    (fun _ _ _ _ _ _ _ _ _ hP hI => hI.transition (frameStep_transition hP))
    (Ledger.start workers clients)

end AsyncOps

end IACore
