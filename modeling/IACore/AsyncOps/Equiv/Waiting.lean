import IACore.AsyncOps.Equiv.Counter

/-!
# What blocked threads wait for

A thread blocked in `counter.wait` waits for an outstanding task or for a notification that is on
its way, and a worker about to block has empty queues: `Blocking` holds in every reachable state,
whatever the clients and tasks do.
-/

namespace IACore

open Interleaving

namespace AsyncOps

/-- Why threads are blocked, or about to. -/
structure Blocking (σ : Shared) (frames : Multiset Frame) : Prop where
  /-- A value that is compared with the counter is not zero. -/
  compare_pos : ∀ s v, .waitForScheduleCompletion s (.compare v) ∈ frames → i32 (v : ℕ) ≠ 0
  blocked_pos : ∀ s v, .waitForScheduleCompletion s (.blocked v) ∈ frames → i32 (v : ℕ) ≠ 0
  /-- A waiter has something to wait for. -/
  waiting : ∀ i s, i ∈ σ.waiters s →
    (books σ frames).outstandingOn s ≠ 0 ∨ .notifyAll s ∈ frames
  /-- A worker that is about to block has seen empty queues. -/
  block_queued : ∀ w, .scheduleWorkerLoop w .block ∈ frames → σ.queued = []

namespace Blocking

variable {i : ℕ} {σ σ' : Shared} {f : Frame} {fs : List Frame} {others : Multiset Frame}

theorem i32_reload_ne {n : ℤ} (h : (n % 4294967296).toNat > 0) :
    i32 ((n % 4294967296).toNat : ℕ) ≠ 0 := by
  unfold i32
  omega

theorem compare_transition (h : Blocking σ (f ::ₘ others)) (ht : Transition i σ f σ' fs) (s v : ℕ)
    (hmem : .waitForScheduleCompletion s (.compare v) ∈ (fs : Multiset Frame) + others) :
    i32 (v : ℕ) ≠ 0 := by
  have hself : f ∈ f ::ₘ others := Multiset.mem_cons_self _ _
  rcases Multiset.mem_add.mp hmem with hnew | hothers
  · cases ht <;> simp at hnew
    case reloadOpen v' hv' hv =>
      rw [hnew.2, hv']
      exact i32_reload_ne (hv' ▸ hv)
    case wokenWaiter v' _ =>
      rw [hnew.2]
      exact h.blocked_pos _ _ hself
  · exact h.compare_pos s v (Multiset.mem_cons_of_mem hothers)

theorem blocked_transition (h : Blocking σ (f ::ₘ others)) (ht : Transition i σ f σ' fs) (s v : ℕ)
    (hmem : .waitForScheduleCompletion s (.blocked v) ∈ (fs : Multiset Frame) + others) :
    i32 (v : ℕ) ≠ 0 := by
  have hself : f ∈ f ::ₘ others := Multiset.mem_cons_self _ _
  rcases Multiset.mem_add.mp hmem with hnew | hothers
  · cases ht <;> simp at hnew
    case compareSame v' _ =>
      rw [hnew.2]
      exact h.compare_pos _ _ hself
    case spuriousWaiter v' =>
      rw [hnew.2]
      exact h.blocked_pos _ _ hself
  · exact h.blocked_pos s v (Multiset.mem_cons_of_mem hothers)

theorem block_transition (h : Blocking σ (f ::ₘ others)) (hledger : Ledger σ (f ::ₘ others))
    (ht : Transition i σ f σ' fs) (w : ℕ)
    (hmem : .scheduleWorkerLoop w .block ∈ (fs : Multiset Frame) + others) : σ'.queued = [] := by
  rcases Multiset.mem_add.mp hmem with hnew | hothers
  · cases ht <;> simp at hnew
    case predicateFalse hhigh hnormal _ => exact List.append_eq_nil_iff.mpr ⟨hhigh, hnormal⟩
  · have hqueued := h.block_queued w (Multiset.mem_cons_of_mem hothers)
    -- The worker holds the mutex, so no other thread reaches the queues.
    have hheld := hledger.held_others hothers
    have hle := Bool.toNat_le σ.mutexLocked
    cases ht with
    | enqueue t q hlock =>
      rw [hlock] at hheld
      simp at hheld
    | erase =>
      simp only [Frame.held] at hheld
      omega
    | helpFound _ t σ' hlock hpop =>
      rw [hlock] at hheld
      simp at hheld
    | dequeueFound =>
      simp only [Frame.held] at hheld
      omega
    | _ => exact hqueued

/-- A waiter keeps its reason, unless it is notified or the last outstanding task goes. -/
theorem waiting_of_kept (h : Blocking σ (f ::ₘ others)) {j s : ℕ} (hj : j ∈ σ.waiters s)
    (hf : f ≠ .notifyAll s)
    (hcard : ((books σ' (fs + others)).outstandingOn s).card = 0 →
      ((books σ (f ::ₘ others)).outstandingOn s).card = 0) :
    (books σ' (fs + others)).outstandingOn s ≠ 0 ∨
      .notifyAll s ∈ (fs : Multiset Frame) + others := by
  rcases h.waiting j s hj with hout | hnotify
  · left
    intro hzero
    exact hout (Multiset.card_eq_zero.mp (hcard (Multiset.card_eq_zero.mpr hzero)))
  · obtain rfl | hothers := Multiset.mem_cons.mp hnotify
    · exact (hf rfl).elim
    · exact .inr (Multiset.mem_add.mpr (.inr hothers))

/-- The waiters of the last outstanding task are about to be notified. -/
theorem waiting_of_last (hledger : Ledger σ (f ::ₘ others)) {s : ℕ} {t : ScheduledTask}
    (hts : t.scheduleHandle = s)
    (hcard : ((books σ (f ::ₘ others)).outstandingOn s).card =
      ((books σ' (fs + others)).outstandingOn s).card + 1)
    (hfs : ∀ g ∈ notifyIfLast (σ.counter t.scheduleHandle) t.scheduleHandle, g ∈ fs) :
    (books σ' (fs + others)).outstandingOn s ≠ 0 ∨
      .notifyAll s ∈ (fs : Multiset Frame) + others := by
  by_cases hzero : (books σ' (fs + others)).outstandingOn s = 0
  · right
    apply Multiset.mem_add.mpr
    left
    refine hfs _ (mem_notifyIfLast.mpr ⟨?_, by rw [hts]⟩)
    rw [hts, hledger.counter_eq_i32 s, hcard, hzero]
    rfl
  · exact .inl hzero

/-- A waiter keeps its reason when a task is counted off, on its schedule or on another one. -/
theorem waiting_of_counted (h : Blocking σ (f ::ₘ others)) (hledger : Ledger σ (f ::ₘ others))
    {j s : ℕ} {t : ScheduledTask} (hj : j ∈ σ.waiters s) (hf : f ≠ .notifyAll s)
    (hfs : ∀ g ∈ notifyIfLast (σ.counter t.scheduleHandle) t.scheduleHandle, g ∈ fs)
    (hcard : ((books σ (f ::ₘ others)).outstandingOn s).card =
      ((books σ' (fs + others)).outstandingOn s).card + if t.scheduleHandle = s then 1 else 0) :
    (books σ' (fs + others)).outstandingOn s ≠ 0 ∨
      .notifyAll s ∈ (fs : Multiset Frame) + others := by
  by_cases hts : t.scheduleHandle = s
  · rw [if_pos hts] at hcard
    exact waiting_of_last hledger hts hcard hfs
  · rw [if_neg hts, Nat.add_zero] at hcard
    exact h.waiting_of_kept hj hf fun hzero => hcard.trans hzero

theorem waiting_transition (h : Blocking σ (f ::ₘ others)) (hledger : Ledger σ (f ::ₘ others))
    (ht : Transition i σ f σ' fs) (j s : ℕ) (hj : j ∈ σ'.waiters s) :
    (books σ' (fs + others)).outstandingOn s ≠ 0 ∨
      .notifyAll s ∈ (fs : Multiset Frame) + others := by
  have hbefore := hledger.outstandingOn_card_add s
  have hafter := (hledger.transition ht).outstandingOn_card_add s
  obtain ⟨o', ho'⟩ : ∃ o', ((books σ' (fs + others)).outstandingOn s).card = o' := ⟨_, rfl⟩
  rw [ho'] at hafter
  have hkeep : j ∈ σ.waiters s → f ≠ .notifyAll s →
      (o' = 0 → ((books σ (f ::ₘ others)).outstandingOn s).card = 0) →
      (books σ' (fs + others)).outstandingOn s ≠ 0 ∨
        .notifyAll s ∈ (fs : Multiset Frame) + others :=
    fun hj hf hcard => h.waiting_of_kept hj hf (ho' ▸ hcard)
  have hquiet : j ∈ σ.waiters s → f ≠ .notifyAll s →
      o' + σ.finished.countP (fun t => t.scheduleHandle = s) +
          σ.cancelled.countP (fun t => t.scheduleHandle = s) =
        σ.issued.countP (fun t => t.scheduleHandle = s) →
      (books σ' (fs + others)).outstandingOn s ≠ 0 ∨
        .notifyAll s ∈ (fs : Multiset Frame) + others :=
    fun hj hf heq => hkeep hj hf (by omega)
  cases ht with
  | notifyAll s' =>
    by_cases hs : s = s'
    · subst hs
      simp at hj
    · refine hquiet ?_ (fun heq => hs (Frame.notifyAll.inj heq).symm) hafter
      simpa [Function.update_of_ne hs] using hj
  | compareSame s' v hv =>
    by_cases hs : s = s'
    · subst hs
      refine .inl fun hzero => h.compare_pos s v (Multiset.mem_cons_self _ _) ?_
      have hcard : ((books σ (.waitForScheduleCompletion s (.compare v) ::ₘ others)).outstandingOn
          s).card = 0 := by
        rw [hzero, Multiset.card_zero] at ho'
        dsimp only at hafter
        omega
      rw [← hv, hledger.counter_eq_i32 s, hcard]
      rfl
    · refine hquiet ?_ (by simp) hafter
      simpa [Function.update_of_ne hs] using hj
  | spuriousWaiter s' v =>
    refine hquiet ?_ (by simp) hafter
    by_cases hs : s = s'
    · subst hs
      simp at hj
      exact hj.1
    · simpa [Function.update_of_ne hs] using hj
  | taskReturned t =>
    refine h.waiting_of_counted hledger hj (by simp) (fun g hg => hg) ?_
    simp only [Shared.fetchSub, List.countP_append, List.countP_singleton, decide_eq_true_eq]
      at hafter
    omega
  | cancelHit tag q it t =>
    refine h.waiting_of_counted hledger hj (by simp) (fun g hg => List.mem_append_left _ hg) ?_
    simp only [Shared.fetchSub, List.countP_append, List.countP_singleton, decide_eq_true_eq]
      at hafter
    omega
  | fetchAdd tag s' priority task t =>
    refine hkeep hj (by simp) ?_
    simp [Shared.fetchAdd] at hafter
    omega
  | helpFound _ t σ' hlock hpop | dequeueFound _ t σ' hpop =>
    obtain ⟨high, normal, -, rfl⟩ := Shared.popFront_some hpop
    exact hquiet hj (by simp) hafter
  | _ => exact hquiet hj (by simp) hafter

theorem transition (h : Blocking σ (f ::ₘ others)) (hledger : Ledger σ (f ::ₘ others))
    (ht : Transition i σ f σ' fs) : Blocking σ' (fs + others) where
  compare_pos := h.compare_transition ht
  blocked_pos := h.blocked_transition ht
  waiting := h.waiting_transition hledger ht
  block_queued := h.block_transition hledger ht

theorem start (workers : ℕ) (clients : List Program) :
    Blocking (start workers clients).shared (start workers clients).frames where
  compare_pos := by
    intro s v hmem
    obtain ⟨w, -, h⟩ | ⟨p, -, h⟩ := mem_start_frames hmem <;> cases h
  blocked_pos := by
    intro s v hmem
    obtain ⟨w, -, h⟩ | ⟨p, -, h⟩ := mem_start_frames hmem <;> cases h
  waiting := by
    intro i s hi
    cases hi
  block_queued := fun _ _ => rfl

end Blocking

/-- Threads are blocked for a reason, in every reachable state. -/
theorem Reachable.blocking {workers : ℕ} {clients : List Program} {γ : Config Shared Frame}
    (h : Reachable workers clients γ) : Blocking γ.shared γ.frames := by
  have hinv : Ledger γ.shared γ.frames ∧ Blocking γ.shared γ.frames :=
    RunWhere.bag (I := fun σ frames => Ledger σ frames ∧ Blocking σ frames) h
      (fun _ _ _ _ _ _ _ _ _ hP hI => ⟨hI.1.transition (frameStep_transition hP),
        hI.2.transition hI.1 (frameStep_transition hP)⟩)
      ⟨Ledger.start workers clients, Blocking.start workers clients⟩
  exact hinv.2

end AsyncOps

end IACore
