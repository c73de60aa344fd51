import IACore.AsyncOps.Order
import IACore.AsyncOps.Equiv.Counter

/-!
# Tasks are served in order

Each transition does one thing to the queues (`QueueStep`), and the record says which; so along a
run the record stays a legal history of two queues and the deques are what it says is waiting
(`Chronicle`).  The order of service is then a fact about such histories.

A cancellation is followed from the step in which it takes the mutex: its loop has passed the tasks
`done` of a queue and kept those of another tag (`Progress`), and no other frame can change a queue
before it has given the mutex back (`locked_transition`).
-/

namespace IACore

open Interleaving QueueHistory

namespace AsyncOps

variable {i : ℕ} {σ σ' σ₀ : Shared} {f : Frame} {fs : List Frame} {others : Multiset Frame}
  {h : List (Event Priority ScheduledTask)} {tag : UInt64}

/-! ### What a step does to the queues -/

theorem Shared.popFront_queue {t : ScheduledTask} (hpop : σ.popFront = some (t, σ')) :
    ∃ p, (σ.queue p)[0]? = some t ∧ (p = .normal → σ.queue .high = []) ∧
      (∀ q, σ'.queue q = if q = p then (σ.queue p).eraseIdx 0 else σ.queue q) ∧
      σ'.started = σ.started ++ [t] := by
  unfold popFront at hpop
  split at hpop
  · next ts hhigh =>
    obtain ⟨rfl, rfl⟩ := Prod.mk.inj (Option.some.inj hpop)
    refine ⟨.high, by rw [queue, hhigh, List.getElem?_cons_zero], nofun, fun q => ?_, rfl⟩
    cases q with
    | high => simp [queue, hhigh]
    | normal => rfl
  · next hhigh =>
    split at hpop
    · next ts hnormal =>
      obtain ⟨rfl, rfl⟩ := Prod.mk.inj (Option.some.inj hpop)
      refine ⟨.normal, by rw [queue, hnormal, List.getElem?_cons_zero], fun _ => hhigh,
        fun q => ?_, rfl⟩
      cases q with
      | high => rfl
      | normal => simp [queue, hnormal]
    · cases hpop

theorem Shared.queue_setQueue_eq (σ : Shared) (p q : Priority) (ts : List ScheduledTask) :
    (σ.setQueue p ts).queue q = if q = p then ts else σ.queue q := by
  split_ifs with hq
  · rw [hq, queue_setQueue]
  · exact queue_setQueue_of_ne σ hq ts

/-- What the step of a frame does to the queues, and what is recorded of it. -/
inductive QueueStep (σ : Shared) (f : Frame) (σ' : Shared) :
    List (Event Priority ScheduledTask) → Prop
  | quiet (hqueue : ∀ q, σ'.queue q = σ.queue q) (hstarted : σ'.started = σ.started) :
      QueueStep σ f σ' []
  | enqueue (t p) (hf : f.entering = [t])
      (hqueue : ∀ q, σ'.queue q = σ.queue q ++ if p = q then [t] else [])
      (hstarted : σ'.started = σ.started) : QueueStep σ f σ' [.enqueued p t]
  | dequeue (t p) (ht : (σ.queue p)[0]? = some t) (hp : p = .normal → σ.queue .high = [])
      (hqueue : ∀ q, σ'.queue q = if q = p then (σ.queue p).eraseIdx 0 else σ.queue q)
      (hstarted : σ'.started = σ.started ++ [t]) : QueueStep σ f σ' [.dequeued t]
  | erase (t p it) (ht : (σ.queue p)[it]? = some t)
      (hqueue : ∀ q, σ'.queue q = if q = p then (σ.queue p).eraseIdx it else σ.queue q)
      (hstarted : σ'.started = σ.started) : QueueStep σ f σ' [.erased t]

theorem queueStep_transition (ht : Transition i σ f σ' fs)
    (herase : ∀ tag q it t, f = .cancelTasksOfTag tag (.erase q it t) →
      (σ.queue q)[it]? = some t) : QueueStep σ f σ' (observe σ f) := by
  cases ht with
  | enqueue t p =>
    refine .enqueue t p rfl (fun q => ?_) rfl
    rw [Shared.queue_setQueue_eq]
    by_cases hq : q = p
    · subst hq
      rw [if_pos rfl, if_pos rfl]
    · rw [if_neg hq, if_neg (Ne.symm hq), List.append_nil]
  | erase tag p it t =>
    have ht := herase tag p it t rfl
    rw [observe, ht]
    exact .erase t p it ht (fun q => Shared.queue_setQueue_eq σ p q _) rfl
  | helpFound _ t _ _ hpop =>
    rw [observe, hpop]
    obtain ⟨p, hhead, hp, hqueue, hstarted⟩ := Shared.popFront_queue hpop
    exact .dequeue t p hhead hp hqueue hstarted
  | helpNone _ _ hpop =>
    rw [observe, hpop]
    exact .quiet (fun _ => rfl) rfl
  | dequeueFound _ t σ' hpop =>
    rw [observe, hpop]
    obtain ⟨p, hhead, hp, hqueue, hstarted⟩ := Shared.popFront_queue hpop
    exact .dequeue t p hhead hp hqueue hstarted
  | dequeueNone _ hpop =>
    rw [observe, hpop]
    exact .quiet (fun _ => rfl) rfl
  | dequeueStop _ _ hhigh hnormal =>
    rw [observe, Shared.popFront_none.mpr (by rw [Shared.queued, hhigh, hnormal]; rfl)]
    exact .quiet (fun _ => rfl) rfl
  | _ => exact .quiet (fun _ => rfl) rfl

/-! ### The record -/

/-- What a step is recorded to enqueue is the task that the frame is entering. -/
theorem arrivals_observe (σ : Shared) (f : Frame) : arrivals (observe σ f) = f.entering := by
  unfold observe
  split
  · rfl
  · cases σ.popFront <;> rfl
  · cases σ.popFront <;> rfl
  · next queue it _ => cases (σ.queue queue)[it]? <;> rfl
  · next hother _ _ _ =>
    unfold Frame.entering
    split
    · exact (hother _ _ rfl).elim
    · rfl

theorem issued_transition (ht : Transition i σ f σ' fs) :
    σ'.issued = σ.issued ++ fs.flatMap Frame.entering := by
  have hnotify : ∀ old s, (notifyIfLast old s).flatMap Frame.entering = [] := by
    intro old s
    unfold notifyIfLast
    split_ifs <;> rfl
  cases ht with
  | fetchAdd => rfl
  | cancelHit => simp [Shared.fetchSub, hnotify]
  | taskReturned => simp [Shared.fetchSub, hnotify]
  | helpFound _ t _ _ hpop | dequeueFound _ t _ hpop =>
    obtain ⟨high, normal, -, rfl⟩ := Shared.popFront_some hpop
    exact (List.append_nil _).symm
  | _ => exact (List.append_nil _).symm

/-- What holds of the shared state, the record and all frames, in every state. -/
structure Chronicle (σ : Shared) (h : List (Event Priority ScheduledTask))
    (frames : Multiset Frame) : Prop where
  ledger : Ledger σ frames
  legal : Legal [.high, .normal] h
  queue_eq : ∀ p, σ.queue p = waiting h p
  started_eq : σ.started = served h
  arrivals_eq : (arrivals h : Multiset ScheduledTask) + tasksOf Frame.entering frames = σ.issued

namespace Chronicle

theorem arrivals_transition (hc : Chronicle σ h (f ::ₘ others)) (ht : Transition i σ f σ' fs) :
    (arrivals (h ++ observe σ f) : Multiset ScheduledTask) +
      tasksOf Frame.entering (fs + others) = σ'.issued := by
  have harrivals := hc.arrivals_eq
  rw [tasksOf_cons] at harrivals
  rw [arrivals_append, arrivals_observe, issued_transition ht, tasksOf_coe_add,
    ← Multiset.coe_add, ← Multiset.coe_add, ← harrivals]
  abel

/-- A task that enters a queue has not been in one before. -/
theorem fresh (hc : Chronicle σ h (f ::ₘ others)) {t : ScheduledTask} (hf : f.entering = [t]) :
    t ∉ arrivals h := by
  intro hmem
  have hnodup := Multiset.coe_nodup.mpr hc.ledger.issued_nodup
  rw [← hc.arrivals_eq, tasksOf_cons, hf, Multiset.nodup_add] at hnodup
  exact Multiset.disjoint_left.mp hnodup.2.2 hmem (by simp)

theorem legal_step {events : List (Event Priority ScheduledTask)}
    (hc : Chronicle σ h (f ::ₘ others)) (hstep : QueueStep σ f σ' events) :
    Legal [.high, .normal] (h ++ events) := by
  cases hstep with
  | quiet => simpa using hc.legal
  | enqueue t p hf => exact hc.legal.enqueue (hc.fresh hf)
  | dequeue t p ht hp =>
    refine hc.legal.dequeue ?_
    rw [List.flatMap_cons, List.flatMap_singleton, ← hc.queue_eq, ← hc.queue_eq]
    cases p with
    | high => rw [List.head?_append, List.head?_eq_getElem?, ht, Option.some_or]
    | normal => rw [hp rfl, List.nil_append, List.head?_eq_getElem?, ht]
  | erase t p it ht =>
    rw [hc.queue_eq] at ht
    exact hc.legal.erase (List.mem_of_getElem? ht)

theorem queue_step {events : List (Event Priority ScheduledTask)}
    (hc : Chronicle σ h (f ::ₘ others)) (hstep : QueueStep σ f σ' events) (p : Priority) :
    σ'.queue p = waiting (h ++ events) p := by
  cases hstep with
  | quiet hqueue => rw [hqueue, hc.queue_eq, List.append_nil]
  | enqueue t q hf hqueue =>
    have hleft : t ∉ departures h := fun hmem => hc.fresh hf (hc.legal.departures_subset hmem)
    rw [hqueue, hc.queue_eq, waiting_enqueued hleft]
  | dequeue t q ht _ hqueue =>
    rw [hc.queue_eq] at ht
    rw [hqueue, hc.queue_eq, hc.queue_eq, hc.legal.waiting_eraseIdx rfl ht]
  | erase t q it ht hqueue =>
    rw [hc.queue_eq] at ht
    rw [hqueue, hc.queue_eq, hc.queue_eq, hc.legal.waiting_eraseIdx rfl ht]

theorem started_step {events : List (Event Priority ScheduledTask)}
    (hc : Chronicle σ h (f ::ₘ others)) (hstep : QueueStep σ f σ' events) :
    σ'.started = served (h ++ events) := by
  rw [served_append, ← hc.started_eq]
  cases hstep with
  | quiet _ hstarted => exact hstarted.trans (List.append_nil _).symm
  | enqueue _ _ _ _ hstarted => exact hstarted.trans (List.append_nil _).symm
  | dequeue _ _ _ _ _ hstarted => exact hstarted
  | erase _ _ _ _ _ hstarted => exact hstarted.trans (List.append_nil _).symm

theorem transition (hc : Chronicle σ h (f ::ₘ others)) (ht : Transition i σ f σ' fs) :
    Chronicle σ' (h ++ observe σ f) (fs + others) := by
  have hstep := queueStep_transition ht fun tag q it t hf =>
    hc.ledger.erasing tag q it t (hf ▸ Multiset.mem_cons_self _ _)
  exact ⟨hc.ledger.transition ht, hc.legal_step hstep, hc.queue_step hstep, hc.started_step hstep,
    hc.arrivals_transition ht⟩

theorem start (workers : ℕ) (clients : List Program) :
    Chronicle (start workers clients).shared [] (start workers clients).frames where
  ledger := .start workers clients
  legal := .nil
  queue_eq := fun p => by cases p <;> rfl
  started_eq := rfl
  arrivals_eq := by
    refine (zero_add _).trans (tasksOf_eq_zero fun f hf => ?_)
    obtain ⟨w, -, rfl⟩ | ⟨p, -, rfl⟩ := mem_start_frames hf
    · rfl
    · rfl

end Chronicle

theorem Recorded.chronicle {workers : ℕ} {clients : List Program} {γ : Config Shared Frame}
    (hrun : Recorded workers clients γ h) : Chronicle γ.shared h γ.frames := by
  refine RunWhere.bag (I := fun s frames => Chronicle s.1 s.2 frames) hrun
    (fun δ i a f fs others s' _ _ hP hc => ?_) (Chronicle.start workers clients)
  obtain ⟨hP, hrecord⟩ := record_eq_some.mp hP
  rw [hrecord]
  exact hc.transition (frameStep_transition hP)

/-! ### A call of `cancel_tasks_of_tag` -/

/-- What the loops of a call have counted off in the queues before `q`. -/
def countedBefore (tag : UInt64) (σ₀ : Shared) : Priority → List ScheduledTask
  | .high => []
  | .normal => (σ₀.queue .high).filter fun t => t.tag = tag

/-- The call has passed the tasks `done` of the queue `q`, as it found them in `σ₀`, and not yet
the tasks `todo`. -/
structure Sweep (tag : UInt64) (σ₀ σ : Shared) (q : Priority) (done todo : List ScheduledTask) :
    Prop where
  before_eq : σ₀.queue q = done ++ todo
  now_eq : σ.queue q = (done.filter fun t => t.tag ≠ tag) ++ todo
  high_eq : q = .normal → σ.queue .high = (σ₀.queue .high).filter fun t => t.tag ≠ tag
  normal_eq : q = .high → σ.queue .normal = σ₀.queue .normal

/-- How far the call is; a task that it has counted off is still queued in `erase`. -/
inductive Progress (tag : UInt64) (σ₀ σ : Shared) : CancelPc → Prop
  | scan (q it done todo) (sweep : Sweep tag σ₀ σ q done todo)
      (hit : it = (done.filter fun t => t.tag ≠ tag).length)
      (hcancelled : σ.cancelled =
        σ₀.cancelled ++ countedBefore tag σ₀ q ++ done.filter fun t => t.tag = tag) :
      Progress tag σ₀ σ (.scan q it)
  | erase (q it done t todo) (sweep : Sweep tag σ₀ σ q done (t :: todo)) (htag : t.tag = tag)
      (hit : it = (done.filter fun t => t.tag ≠ tag).length)
      (hcancelled : σ.cancelled =
        σ₀.cancelled ++ countedBefore tag σ₀ q ++ (done ++ [t]).filter fun t => t.tag = tag) :
      Progress tag σ₀ σ (.erase q it t)

namespace Sweep

variable {q : Priority} {done todo : List ScheduledTask} {t : ScheduledTask} {it : ℕ}

theorem congr (h : Sweep tag σ₀ σ q done todo) (hqueue : ∀ p, σ'.queue p = σ.queue p) :
    Sweep tag σ₀ σ' q done todo where
  before_eq := h.before_eq
  now_eq := (hqueue q).trans h.now_eq
  high_eq := fun hq => (hqueue .high).trans (h.high_eq hq)
  normal_eq := fun hq => (hqueue .normal).trans (h.normal_eq hq)

/-- The iterator stands before the tasks that the loop has not passed. -/
theorem getElem?_eq (h : Sweep tag σ₀ σ q done todo)
    (hit : it = (done.filter fun t => t.tag ≠ tag).length) :
    (σ.queue q)[it]? = todo.head? := by
  rw [h.now_eq, List.getElem?_append_right (by omega), hit, Nat.sub_self, List.head?_eq_getElem?]

theorem todo_eq (h : Sweep tag σ₀ σ q done todo)
    (hit : it = (done.filter fun t => t.tag ≠ tag).length) (ht : (σ.queue q)[it]? = some t) :
    ∃ rest, todo = t :: rest := by
  rw [h.getElem?_eq hit] at ht
  exact List.head?_eq_some_iff.mp ht

/-- `++it`. -/
theorem miss (h : Sweep tag σ₀ σ q done (t :: todo)) (htag : t.tag ≠ tag) :
    Sweep tag σ₀ σ q (done ++ [t]) todo where
  before_eq := by rw [h.before_eq, List.append_cons]
  now_eq := by
    rw [h.now_eq, List.filter_append]
    simp [htag]
  high_eq := h.high_eq
  normal_eq := h.normal_eq

/-- `it = queue.erase(it)`. -/
theorem erase (h : Sweep tag σ₀ σ q done (t :: todo)) (htag : t.tag = tag)
    (hit : it = (done.filter fun t => t.tag ≠ tag).length) :
    Sweep tag σ₀ (σ.setQueue q ((σ.queue q).eraseIdx it)) q (done ++ [t]) todo where
  before_eq := by rw [h.before_eq, List.append_cons]
  now_eq := by
    rw [Shared.queue_setQueue, h.now_eq, hit, List.eraseIdx_append_of_length_le le_rfl,
      Nat.sub_self, List.eraseIdx_zero, List.tail_cons, List.filter_append]
    simp [htag]
  high_eq := fun hq => by
    rw [Shared.queue_setQueue_of_ne _ (by rw [hq]; exact nofun)]
    exact h.high_eq hq
  normal_eq := fun hq => by
    rw [Shared.queue_setQueue_of_ne _ (by rw [hq]; exact nofun)]
    exact h.normal_eq hq

/-- At the end of a queue. -/
theorem ended (h : Sweep tag σ₀ σ q done todo)
    (hit : it = (done.filter fun t => t.tag ≠ tag).length) (hend : (σ.queue q)[it]? = none) :
    done = σ₀.queue q ∧ σ.queue q = (σ₀.queue q).filter fun t => t.tag ≠ tag := by
  rw [h.getElem?_eq hit, List.head?_eq_none_iff] at hend
  have hdone : done = σ₀.queue q := by rw [h.before_eq, hend, List.append_nil]
  refine ⟨hdone, ?_⟩
  rw [h.now_eq, hend, List.append_nil, hdone]

end Sweep

theorem Progress.congr {pc : CancelPc} (h : Progress tag σ₀ σ pc)
    (hqueue : ∀ p, σ'.queue p = σ.queue p) (hcancelled : σ'.cancelled = σ.cancelled) :
    Progress tag σ₀ σ' pc := by
  cases h with
  | scan q it done todo sweep hit hcan =>
    exact .scan q it done todo (sweep.congr hqueue) hit (hcancelled.trans hcan)
  | erase q it done t todo sweep htag hit hcan =>
    exact .erase q it done t todo (sweep.congr hqueue) htag hit (hcancelled.trans hcan)

/-- While the mutex is locked, a frame that does not hold it leaves the queues alone. -/
theorem locked_transition (hlock : σ.mutexLocked = true) (hheld : f.held = 0)
    (ht : Transition i σ f σ' fs) :
    σ'.mutexLocked = true ∧ (∀ q, σ'.queue q = σ.queue q) ∧ σ'.cancelled = σ.cancelled := by
  have hnot : σ.mutexLocked ≠ false := by
    rw [hlock]
    exact nofun
  cases ht with
  -- steps that need the mutex free
  | enqueue _ _ hfree => exact absurd hfree hnot
  | cancelLock _ hfree => exact absurd hfree hnot
  | helpFound _ _ _ hfree => exact absurd hfree hnot
  | workerLock _ hfree => exact absurd hfree hnot
  | wokenWorker _ _ hfree => exact absurd hfree hnot
  -- steps of its holder
  | cancelHit => cases hheld
  | cancelEnd => cases hheld
  | erase => cases hheld
  | block => cases hheld
  | dequeueStop => cases hheld
  | dequeueFound => cases hheld
  | dequeueNone => cases hheld
  | _ => exact ⟨hlock, fun _ => rfl, rfl⟩

/-- What the call has done to the queues when it gives the mutex back. -/
structure Swept (tag : UInt64) (σ₀ σ : Shared) : Prop where
  queue_eq : ∀ p, σ.queue p = (σ₀.queue p).filter fun t => t.tag ≠ tag
  cancelled_eq : σ.cancelled = σ₀.cancelled ++ σ₀.queued.filter fun t => t.tag = tag

/-- The call goes on with its loops, or gives the mutex back and is over. -/
theorem Progress.transition {pc : CancelPc} (h : Progress tag σ₀ σ pc)
    (hlock : σ.mutexLocked = true) (ht : Transition i σ (.cancelTasksOfTag tag pc) σ' fs) :
    σ'.mutexLocked = true ∧ (∃ pc', .cancelTasksOfTag tag pc' ∈ fs ∧ Progress tag σ₀ σ' pc') ∨
      σ'.mutexLocked = false ∧ Swept tag σ₀ σ' := by
  cases h with
  | scan q it done todo sweep hit hcan =>
    cases ht with
    | cancelHit _ _ _ t hget htag =>
      obtain ⟨rest, rfl⟩ := sweep.todo_eq hit hget
      refine .inl ⟨hlock, .erase q it t, List.mem_append_right _ List.mem_cons_self, ?_⟩
      refine .erase q it done t rest (sweep.congr fun p => by cases p <;> rfl) htag hit ?_
      rw [List.filter_append, ← List.append_assoc, ← hcan]
      simp [htag]
    | cancelMiss _ _ _ t hget htag =>
      obtain ⟨rest, rfl⟩ := sweep.todo_eq hit hget
      refine .inl ⟨hlock, .scan q (it + 1), List.mem_cons_self, ?_⟩
      refine .scan q (it + 1) (done ++ [t]) rest (sweep.miss htag) ?_ ?_
      · simp [hit, htag]
      · rw [hcan]
        simp [htag]
    | cancelNext _ _ hend =>
      obtain ⟨rfl, hhigh⟩ := sweep.ended hit hend
      refine .inl ⟨hlock, .scan .normal 0, List.mem_cons_self, ?_⟩
      refine .scan .normal 0 [] (σ₀.queue .normal) ⟨rfl, sweep.normal_eq rfl, fun _ => hhigh, nofun⟩
        rfl ?_
      rw [hcan]
      simp [countedBefore]
    | cancelEnd _ _ hend =>
      obtain ⟨rfl, hnormal⟩ := sweep.ended hit hend
      refine .inr ⟨rfl, fun p => ?_, ?_⟩
      · cases p with
        | high => exact sweep.high_eq rfl
        | normal => exact hnormal
      · show σ.cancelled = _
        rw [hcan, Shared.queued, List.filter_append, ← List.append_assoc]
        rfl
  | erase q it done t todo sweep htag hit hcan =>
    cases ht with
    | erase =>
      refine .inl ⟨hlock, .scan q it, List.mem_cons_self, ?_⟩
      refine .scan q it (done ++ [t]) todo (sweep.erase htag hit) ?_ hcan
      simp [hit, htag]

theorem Progress.held {pc : CancelPc} (h : Progress tag σ₀ σ pc) :
    (Frame.cancelTasksOfTag tag pc).held = 1 := by
  cases h with
  | scan => rfl
  | erase => rfl

/-- What holds from the step in which the call takes the mutex to that in which it gives it
back. -/
structure Cancelling (tag : UInt64) (σ₀ σ : Shared) (frames : Multiset Frame) : Prop where
  ledger : Ledger σ frames
  state : σ.mutexLocked = true ∧
      (∃ pc, .cancelTasksOfTag tag pc ∈ frames ∧ Progress tag σ₀ σ pc) ∨
    σ.mutexLocked = false ∧ Swept tag σ₀ σ

namespace Cancelling

theorem transition (h : Cancelling tag σ₀ σ (f ::ₘ others)) (hlock : σ.mutexLocked = true)
    (ht : Transition i σ f σ' fs) : Cancelling tag σ₀ σ' (fs + others) := by
  refine ⟨h.ledger.transition ht, ?_⟩
  rcases h.state with ⟨-, pc, hmem, hprogress⟩ | ⟨hfree, -⟩
  · rcases Multiset.mem_cons.mp hmem with rfl | hmem
    · refine (hprogress.transition hlock ht).imp_left fun ⟨hlock', pc', hmem', hprogress'⟩ => ?_
      exact ⟨hlock', pc', Multiset.mem_add.mpr (.inl hmem'), hprogress'⟩
    · -- the call holds the mutex, so this frame does not
      have hheld := h.ledger.held_others hmem
      rw [hprogress.held, hlock, Bool.toNat_true] at hheld
      obtain ⟨hlock', hqueue, hcancelled⟩ := locked_transition hlock (by omega) ht
      exact .inl ⟨hlock', pc, Multiset.mem_add.mpr (.inr hmem), hprogress.congr hqueue hcancelled⟩
  · rw [hlock] at hfree
    cases hfree

/-- The call has the mutex and stands before the high priority queue. -/
theorem lock (hledger : Ledger σ (.cancelTasksOfTag tag .lock ::ₘ others))
    (ht : Transition i σ (.cancelTasksOfTag tag .lock) σ' fs) :
    Cancelling tag σ σ' (fs + others) := by
  refine ⟨hledger.transition ht, .inl ?_⟩
  cases ht
  refine ⟨rfl, .scan .high 0, Multiset.mem_add.mpr (.inl List.mem_cons_self), ?_⟩
  refine .scan .high 0 [] (σ.queue .high) ⟨rfl, rfl, nofun, fun _ => rfl⟩ rfl ?_
  simp [countedBefore]

end Cancelling

theorem countOn_append (s : ℕ) (ts ts' : List ScheduledTask) :
    countOn s (ts ++ ts') = countOn s ts + countOn s ts' := by
  rw [countOn, List.countP_append, Nat.cast_add]
  rfl

/-- A call that gives the mutex back has cancelled the tasks of its tag. -/
theorem CancelCall.cancels {workers : ℕ} {clients : List Program} {γ γ₁ γ' : Config Shared Frame}
    (hreach : Reachable workers clients γ) (hcall : CancelCall tag γ γ₁ γ') :
    Cancels tag γ.shared γ'.shared := by
  obtain ⟨i, a, f, fs, others, rfl, hP, hbefore, hafter⟩ := hcall.lock.bag
  have hledger := hreach.ledger
  rw [hbefore] at hledger
  have hstart := Cancelling.lock hledger (frameStep_transition hP)
  rw [← hafter] at hstart
  have hend : Cancelling tag γ.shared γ'.shared γ'.frames :=
    RunWhere.bag (I := Cancelling tag γ.shared) hcall.hold
      (fun δ _ _ _ _ _ _ hlock _ hP h => h.transition hlock (frameStep_transition hP)) hstart
  rcases hend.state with ⟨hlock, -⟩ | ⟨-, hswept⟩
  · rw [hcall.unlocked] at hlock
    cases hlock
  · refine ⟨hswept.queue_eq, hswept.cancelled_eq, fun s => ?_⟩
    -- each counter is what was issued, less what was finished and cancelled, before and after
    have hcounter : γ'.shared.counter s = i32 (countOn s γ'.shared.issued -
        countOn s γ'.shared.finished - countOn s γ'.shared.cancelled) := hend.ledger.counter_eq s
    have hcounter₀ : γ.shared.counter s = i32 (countOn s γ.shared.issued -
        countOn s γ.shared.finished - countOn s γ.shared.cancelled) := hreach.ledger.counter_eq s
    rw [hcounter, hcounter₀, hswept.cancelled_eq, countOn_append, add_sub_assoc, add_sub_assoc]
    rw [i32_i32_add]
    exact congrArg i32 (by omega)

/-! ### Order -/

/-- **Tasks are served in order**, in every interleaving: each dequeue takes the oldest task of high
priority that is queued, or else the oldest of normal priority; of two tasks of one priority the
first to be enqueued is the first to be dequeued; and a cancellation takes out the tasks of its tag
and no others, and lowers the counters by their numbers. -/
theorem tasks_in_order {workers : ℕ} {clients : List Program} {γ : Config Shared Frame}
    (hreach : Reachable workers clients γ) :
    (∃ h, Recorded workers clients γ h) ∧ ∀ h, Recorded workers clients γ h → InOrder γ h := by
  refine ⟨Run.recorded hreach [], fun h hrun => ?_⟩
  have hc := Recorded.chronicle hrun
  have hstarted := hc.started_eq
  exact
    { queue_eq := hc.queue_eq
      started_eq := hstarted
      arrivals_nodup := hc.legal.arrivals_nodup
      started_nodup := hc.ledger.started_append_cancelled_nodup.of_append_left
      oldest := fun before t hbefore => by simpa using hc.legal.oldest hbefore
      fifo := fun p t t' hpair ht ht' => by
        rw [hstarted] at ht ht' ⊢
        exact hc.legal.fifo hpair ht ht'
      cancels := fun tag γ₁ γ' hcall => hcall.cancels hreach }

/-- A client schedules two tasks of normal and one of high priority, cancels the last and helps with
the others: that of high priority comes first. -/
theorem tasks_in_order_high_first :
    let clients := [.scheduleTask 7 0 .normal .finish <| .scheduleTask 7 0 .high .finish <|
      .scheduleTask 8 0 .normal .finish <| .cancelTasksOfTag 8 <|
      .waitForScheduleCompletion 0 .finish]
    let γ := play frameStep ((List.replicate 27 1).map fun i => (i, .advance)) (start 1 clients)
    γ.shared.started.map ScheduledTask.id = [1, 0] ∧
      γ.shared.cancelled.map ScheduledTask.id = [2] ∧ (∃ h, Recorded 1 clients γ h) ∧
      ∀ h, Recorded 1 clients γ h → InOrder γ h :=
  ⟨by decide, by decide, tasks_in_order (run_play _ _)⟩

end AsyncOps

end IACore
