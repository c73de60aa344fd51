import IACore.AsyncOps.Equiv.Accounting

/-!
# The counter of a schedule

While fewer than 2^31 tasks of a schedule are outstanding, its `i32` counter is their number
(`counter_accounts`); the next `fetch_add` makes it negative (`counter_negative`).  A task that has
been counted down is never dequeued again, so a `wait_for_schedule_completion` that finds nothing
outstanding returns for good.
-/

namespace IACore

open Interleaving

namespace AsyncOps

/-! ### Outstanding tasks -/

/-- Thread `i` is about to return from `wait_for_schedule_completion(s)`. -/
def Returning (γ : Config Shared Frame) (i s : ℕ) : Prop :=
  (∃ rest, γ.threads[i]? = some (.waitForScheduleCompletion s .check :: rest)) ∧
    ¬ γ.shared.counter s > 0

/-- The tasks that their schedule's counter counts: entering, queued and not counted off, or running
and not counted down. -/
def Books.outstanding (b : Books) : Multiset ScheduledTask :=
  b.entering + (b.queued - b.countedOff) + b.running

/-- Those of the schedule `s`. -/
def Books.outstandingOn (b : Books) (s : ℕ) : Multiset ScheduledTask :=
  b.outstanding.filter fun t => t.scheduleHandle = s

/-- The outstanding tasks of the schedule `s` in a state of the scheduler. -/
abbrev outstanding (γ : Config Shared Frame) (s : ℕ) : Multiset ScheduledTask :=
  (books γ.shared γ.frames).outstandingOn s

variable {σ : Shared} {frames : Multiset Frame}

theorem running_ne {s : ℕ} (hzero : (books σ frames).outstandingOn s = 0) {t : ScheduledTask}
    (ht : .foundTask t ∈ frames) : t.scheduleHandle ≠ s := by
  intro hts
  have hmem : t ∈ (books σ frames).outstandingOn s := by
    refine Multiset.mem_filter.mpr ⟨Multiset.mem_add.mpr (.inr ?_), hts⟩
    exact mem_tasksOf.mpr ⟨_, ht, List.mem_singleton_self t⟩
  exact Multiset.notMem_zero t (hzero ▸ hmem)

theorem erasing_of_queued {s : ℕ} (hzero : (books σ frames).outstandingOn s = 0)
    {t : ScheduledTask} (ht : t ∈ σ.queued) (hts : t.scheduleHandle = s) :
    ∃ tag q it, .cancelTasksOfTag tag (.erase q it t) ∈ frames := by
  have hmem : t ∈ tasksOf Frame.countedOff frames := by
    by_contra hoff
    have hout : t ∈ (books σ frames).outstandingOn s := by
      refine Multiset.mem_filter.mpr ⟨Multiset.mem_add.mpr (.inl (Multiset.mem_add.mpr
        (.inr ?_))), hts⟩
      rw [Multiset.mem_sub]
      exact (Multiset.count_eq_zero_of_notMem hoff).trans_lt (Multiset.count_pos.mpr ht)
    exact Multiset.notMem_zero t (hzero ▸ hout)
  obtain ⟨f, hf, htf⟩ := mem_tasksOf.mp hmem
  unfold Frame.countedOff at htf
  split at htf
  · next tag q it t' =>
    obtain rfl := List.mem_singleton.mp htf
    exact ⟨tag, q, it, hf⟩
  · cases htf

namespace Ledger

/-- A task that a cancellation has counted off is still queued, and there is only one. -/
theorem countedOff_le_queued (h : Ledger σ frames) :
    tasksOf Frame.countedOff frames ≤ (σ.queued : Multiset ScheduledTask) := by
  by_cases hoff : ∃ tag q it t, .cancelTasksOfTag tag (.erase q it t) ∈ frames
  · obtain ⟨tag, q, it, t, hmem⟩ := hoff
    obtain ⟨others, rfl⟩ := Multiset.exists_cons_of_mem hmem
    -- The cancellation holds the mutex, so no other one is about to erase.
    have hothers : tasksOf Frame.countedOff others = 0 := by
      refine tasksOf_eq_zero fun g hg => ?_
      have hheld := h.held_others hg
      have hle := Bool.toNat_le σ.mutexLocked
      unfold Frame.countedOff
      split
      · simp only [Frame.held] at hheld
        omega
      · rfl
    rw [tasksOf_cons, hothers, add_zero, Frame.countedOff, Multiset.coe_singleton,
      Multiset.singleton_le, Multiset.mem_coe]
    exact Shared.mem_queued_of_getElem? (h.erasing tag q it t hmem)
  · rw [tasksOf_eq_zero fun g hg => ?_]
    · exact Multiset.zero_le _
    · unfold Frame.countedOff
      split
      · exact (hoff ⟨_, _, _, _, hg⟩).elim
      · rfl

/-- Every issued task is outstanding, finished or cancelled. -/
theorem outstanding_add (h : Ledger σ frames) :
    (books σ frames).outstanding + σ.finished + σ.cancelled = σ.issued := by
  have hissued : tasksOf Frame.entering frames + σ.queued + σ.started + σ.cancelled =
      σ.issued + tasksOf Frame.countedOff frames := h.balanced.issued_eq
  have hstarted :
      (σ.started : Multiset ScheduledTask) = σ.finished + tasksOf Frame.running frames :=
    h.balanced.started_eq
  obtain ⟨waiting, hqueued⟩ := Multiset.le_iff_exists_add.mp h.countedOff_le_queued
  have hwaiting :
      (σ.queued : Multiset ScheduledTask) - tasksOf Frame.countedOff frames = waiting := by
    rw [hqueued, add_tsub_cancel_left]
  -- The tasks counted off are queued still and cancelled already; the balance has them twice.
  refine add_right_cancel (b := tasksOf Frame.countedOff frames) ?_
  rw [← hissued, hqueued, hstarted, Books.outstanding, books, hwaiting]
  abel

theorem outstandingOn_card_add (h : Ledger σ frames) (s : ℕ) :
    ((books σ frames).outstandingOn s).card + (σ.finished.countP fun t => t.scheduleHandle = s) +
      (σ.cancelled.countP fun t => t.scheduleHandle = s) =
      σ.issued.countP fun t => t.scheduleHandle = s := by
  have hcount := congrArg (Multiset.countP fun t => t.scheduleHandle = s) h.outstanding_add
  rwa [Multiset.countP_add, Multiset.countP_add, Multiset.coe_countP, Multiset.coe_countP,
    Multiset.coe_countP, Multiset.countP_eq_card_filter] at hcount

/-- The counter of a schedule, whatever the number of its tasks. -/
theorem counter_eq_i32 (h : Ledger σ frames) (s : ℕ) :
    σ.counter s = i32 (((books σ frames).outstandingOn s).card : ℕ) := by
  have hcount := h.outstandingOn_card_add s
  rw [h.counter_eq s]
  exact congrArg i32 (by omega)

/-- No two issued tasks are equal. -/
theorem issued_nodup (h : Ledger σ frames) : σ.issued.Nodup := by
  refine List.Nodup.of_map ScheduledTask.id ?_
  rw [h.id_eq]
  exact List.nodup_range

/-- Every task is started or cancelled at most once, and never both. -/
theorem started_append_cancelled_nodup (h : Ledger σ frames) :
    (σ.started ++ σ.cancelled).Nodup := by
  have hstarted :
      (σ.started : Multiset ScheduledTask) = σ.finished + tasksOf Frame.running frames :=
    h.balanced.started_eq
  rw [← Multiset.coe_nodup, ← Multiset.coe_add]
  refine Multiset.nodup_of_le ?_ (Multiset.coe_nodup.mpr h.issued_nodup)
  have hrunning : tasksOf Frame.running frames ≤ (books σ frames).outstanding :=
    Multiset.le_add_left _ _
  calc (σ.started : Multiset ScheduledTask) + σ.cancelled
      = tasksOf Frame.running frames + σ.finished + σ.cancelled := by
        rw [hstarted, add_comm (σ.finished : Multiset ScheduledTask)]
    _ ≤ (books σ frames).outstanding + σ.finished + σ.cancelled := by
        gcongr
    _ = σ.issued := h.outstanding_add

end Ledger

/-! ### Later states -/

/-- The records of a state begin those of every later state. -/
structure Extends (σ σ' : Shared) : Prop where
  issued : σ.issued <+: σ'.issued
  finished : σ.finished <+: σ'.finished
  cancelled : σ.cancelled <+: σ'.cancelled

theorem Extends.transition {i : ℕ} {σ₀ σ σ' : Shared} {f : Frame} {fs : List Frame}
    (h : Extends σ₀ σ) (ht : Transition i σ f σ' fs) : Extends σ₀ σ' := by
  obtain ⟨hissued, hfinished, hcancelled⟩ := h
  cases ht with
  | fetchAdd => exact ⟨hissued.trans (List.prefix_append _ _), hfinished, hcancelled⟩
  | cancelHit => exact ⟨hissued, hfinished, hcancelled.trans (List.prefix_append _ _)⟩
  | taskReturned => exact ⟨hissued, hfinished.trans (List.prefix_append _ _), hcancelled⟩
  | helpFound _ t σ' hlock hpop | dequeueFound _ t σ' hpop =>
    obtain ⟨high, normal, -, rfl⟩ := Shared.popFront_some hpop
    exact ⟨hissued, hfinished, hcancelled⟩
  | _ => exact ⟨hissued, hfinished, hcancelled⟩

theorem Extends.refl (σ : Shared) : Extends σ σ :=
  ⟨List.prefix_refl _, List.prefix_refl _, List.prefix_refl _⟩

theorem extends_of_run {γ γ' : Config Shared Frame} (h : Run frameStep γ γ') :
    Extends γ.shared γ'.shared :=
  RunWhere.bag (I := fun σ _ => Extends γ.shared σ) h
    (fun _ _ _ _ _ _ _ _ _ hP hI => hI.transition (frameStep_transition hP))
    (Extends.refl _)

/-! ### The counter -/

section

variable {workers : ℕ} {clients : List Program} {γ : Config Shared Frame}

theorem Reachable.counter_eq (h : Reachable workers clients γ) {s : ℕ}
    (hs : (outstanding γ s).card < 2147483648) :
    γ.shared.counter s = (outstanding γ s).card := by
  rw [h.ledger.counter_eq_i32 s]
  exact i32_of_range (by omega) (by exact_mod_cast hs)

/-- What a counter at zero says about the tasks of its schedule. -/
theorem Reachable.outstanding_eq_zero (h : Reachable workers clients γ) {s : ℕ}
    (hs : (outstanding γ s).card < 2147483648) (hcounter : ¬ γ.shared.counter s > 0) :
    outstanding γ s = 0 := by
  rw [h.counter_eq hs] at hcounter
  exact Multiset.card_eq_zero.mp (by omega)

theorem Reachable.finished_or_cancelled (h : Reachable workers clients γ) {s : ℕ}
    (hzero : outstanding γ s = 0) {t : ScheduledTask} (ht : t ∈ γ.shared.issued)
    (hts : t.scheduleHandle = s) : t ∈ γ.shared.finished ∨ t ∈ γ.shared.cancelled := by
  have hmem : t ∈ (γ.shared.issued : Multiset ScheduledTask) := ht
  rw [← h.ledger.outstanding_add, Multiset.mem_add, Multiset.mem_add] at hmem
  obtain (hout | hfin) | hcan := hmem
  · exact absurd (Multiset.mem_filter.mpr ⟨hout, hts⟩) (hzero ▸ Multiset.notMem_zero t)
  · exact .inl hfin
  · exact .inr hcan

/-- A task that was counted down is not started later. -/
theorem Reachable.not_started_later (h : Reachable workers clients γ) {γ' : Config Shared Frame}
    (hrun : Run frameStep γ γ') {t : ScheduledTask}
    (ht : t ∈ γ.shared.finished ∨ t ∈ γ.shared.cancelled) (hstarted : t ∈ γ'.shared.started) :
    t ∈ γ.shared.started := by
  obtain hfin | hcan := ht
  -- What has finished was started before; what is cancelled is never started.
  · have hstarted_eq : (γ.shared.started : Multiset ScheduledTask) = γ.shared.finished + _ :=
      h.ledger.balanced.started_eq
    have hmem : t ∈ (γ.shared.started : Multiset ScheduledTask) := by
      rw [hstarted_eq]
      exact Multiset.mem_add.mpr (.inl hfin)
    exact hmem
  · have hnodup := (Reachable.ledger (h.trans hrun)).started_append_cancelled_nodup
    exact ((List.disjoint_of_nodup_append hnodup) hstarted
      ((extends_of_run hrun).cancelled.subset hcan)).elim

/-- What the counters say about the tasks, in one state of a run. -/
structure Accounts (γ : Config Shared Frame) : Prop where
  counter_eq : ∀ s, γ.shared.counter s = i32 ((outstanding γ s).card : ℕ)
  counter_exact : ∀ s, (outstanding γ s).card < 2147483648 →
    0 ≤ γ.shared.counter s ∧ γ.shared.counter s = (outstanding γ s).card
  started_once : γ.shared.started.Nodup
  not_both : γ.shared.started.Disjoint γ.shared.cancelled
  not_running : ∀ i s, Returning γ i s → (outstanding γ s).card < 2147483648 →
    ∀ t, .foundTask t ∈ γ.frames → t.scheduleHandle ≠ s
  not_queued : ∀ i s, Returning γ i s → (outstanding γ s).card < 2147483648 →
    ∀ t ∈ γ.shared.queued, t.scheduleHandle = s →
      ∃ tag q it, .cancelTasksOfTag tag (.erase q it t) ∈ γ.frames
  settled : ∀ i s, Returning γ i s → (outstanding γ s).card < 2147483648 →
    ∀ t ∈ γ.shared.issued, t.scheduleHandle = s →
      (t ∈ γ.shared.finished ∨ t ∈ γ.shared.cancelled) ∧
        ∀ γ', Run frameStep γ γ' → t ∈ γ'.shared.started → t ∈ γ.shared.started

/-- **The counters account for the tasks**, in every interleaving of any number of threads: the
counter of a schedule is the number of its outstanding tasks, as an `i32`; no task is run twice, or
both run and cancelled; and while that number is below 2^31, a wait that returns leaves no task of
its schedule running, queued or to be run. -/
theorem counter_accounts (h : Reachable workers clients γ) : Accounts γ where
  counter_eq := h.ledger.counter_eq_i32
  counter_exact := fun s hs => ⟨by rw [h.counter_eq hs]; omega, h.counter_eq hs⟩
  started_once := h.ledger.started_append_cancelled_nodup.of_append_left
  not_both := List.disjoint_of_nodup_append h.ledger.started_append_cancelled_nodup
  not_running := fun _ _ hret hs _ ht =>
    running_ne (h.outstanding_eq_zero hs hret.2) ht
  not_queued := fun _ _ hret hs _ ht hts =>
    erasing_of_queued (h.outstanding_eq_zero hs hret.2) ht hts
  settled := fun _ _ hret hs t ht hts => by
    have hdone := h.finished_or_cancelled (h.outstanding_eq_zero hs hret.2) ht hts
    exact ⟨hdone, fun γ' hrun => h.not_started_later hrun hdone⟩

end

/-- One worker has run the only task of a client that is about to return from its wait. -/
theorem counter_accounts_returning :
    let γ := play frameStep ([1, 1, 1, 1, 1, 0, 0, 0, 0, 0, 0].map fun i => (i, .advance))
      (start 1 [.scheduleTask 7 0 .normal .finish (.waitForScheduleCompletion 0 .finish)])
    Returning γ 1 0 ∧ Accounts γ :=
  ⟨⟨⟨_, rfl⟩, by decide⟩, counter_accounts (run_play _ _)⟩

/-- A client that schedules `n` tasks on one schedule. -/
def scheduleMany : ℕ → Program
  | 0 => .finish
  | n + 1 => .scheduleTask 0 0 .normal .finish (scheduleMany n)

/-- While no other thread moves and nobody is asleep, the client schedules its tasks one after the
other. -/
theorem scheduleMany_run (n : ℕ) (before after : List (List Frame)) {σ : Shared} {k : ℤ}
    (hworkers : σ.scheduleWorkers ≠ []) (hlock : σ.mutexLocked = false)
    (hwake : σ.wakeCondition = []) (hk : σ.counter 0 = i32 k) :
    ∃ σ', Run frameStep ⟨σ, before ++ [.code (scheduleMany n)] :: after⟩
      ⟨σ', before ++ [.code .finish] :: after⟩ ∧ σ'.counter 0 = i32 (k + n) ∧
        σ'.waiters = σ.waiters ∧ σ'.stopRequested = σ.stopRequested := by
  induction n generalizing σ k with
  | zero => exact ⟨σ, .refl, by simpa using hk, rfl, rfl⟩
  | succ n ih =>
    let t : ScheduledTask := ⟨σ.issued.length, 0, 0, .finish⟩
    let σ₁ : Shared := (σ.fetchAdd t).setQueue .normal (σ.normalPriorityQueue ++ [t])
    -- The call, its `fetch_add`, its enqueue and a `notify_one` that finds nobody asleep.
    have hcall := run_of_split before after [] (a := .advance)
      (show frameStep _ _ σ (.code (scheduleMany (n + 1))) =
        some (σ, [.scheduleTask (.fetchAdd 0 0 .normal .finish), .code (scheduleMany n)]) by
        simp [frameStep, advance, scheduleMany, codeStep, hworkers])
    have hadd := run_of_split before after [.code (scheduleMany n)] (a := .advance)
      (show frameStep _ _ σ (.scheduleTask (.fetchAdd 0 0 .normal .finish)) =
        some (σ.fetchAdd t, [.scheduleTask (.enqueue t .normal)]) from rfl)
    have henqueue := run_of_split before after [.code (scheduleMany n)] (a := .advance)
      (show frameStep _ _ (σ.fetchAdd t) (.scheduleTask (.enqueue t .normal)) =
        some (σ₁, [.scheduleTask .notifyOne]) by
        simp [frameStep, advance, scheduleTaskStep, Shared.fetchAdd, hlock, σ₁, Shared.queue])
    have hnotify := run_of_split before after [.code (scheduleMany n)] (a := .advance)
      (show frameStep _ _ σ₁ (.scheduleTask .notifyOne) = some (σ₁, []) by
        simp [frameStep, advance, scheduleTaskStep, σ₁, Shared.setQueue, Shared.fetchAdd, hwake])
    have hcounter : σ₁.counter 0 = i32 (k + 1) := by
      simp [σ₁, Shared.setQueue, Shared.fetchAdd, t, hk]
    obtain ⟨σ', hrun, hσ', hwaiters, hstop⟩ := ih (σ := σ₁) hworkers hlock hwake hcounter
    refine ⟨σ', hcall.trans (hadd.trans (henqueue.trans (hnotify.trans hrun))), ?_, hwaiters, hstop⟩
    rw [hσ', add_assoc, add_comm 1, Nat.cast_succ]

/-- With 2^31 outstanding tasks the counter is negative. -/
theorem counter_negative :
    ∃ γ, Reachable 1 [scheduleMany 2147483648] γ ∧ γ.shared.counter 0 < 0 := by
  obtain ⟨σ, hrun, hσ, -⟩ := scheduleMany_run 2147483648 [[.scheduleWorkerLoop 0 .head]] []
    (σ := (start 1 []).shared) (k := 0) (by decide) rfl rfl (by simp [start, i32])
  refine ⟨_, hrun, ?_⟩
  rw [hσ]
  simp [i32]

end AsyncOps

end IACore
