import IACore.AsyncOps.Equiv.Counter

/-!
# When a schedule is no longer touched

A finished task is counted down and then notified about, in two steps; a waiter that loads the
counter in between returns while the notification is still to come (`touched_after_wait`).  When
nobody else is waiting on the schedule or about to notify, the schedule is dead from then on
(`Dead`), and no thread comes back to it (`untouched_after_wait`).
-/

namespace IACore

open Interleaving

namespace AsyncOps

/-- The next step of the frame `f` accesses the counter of `s`, other than to add a task. -/
def Accesses (σ : Shared) (f : Frame) (s : ℕ) : Prop :=
  match f with
  | .waitForScheduleCompletion _ .dequeue => False
  | .waitForScheduleCompletion s' _ => s' = s
  | .foundTask t => t.scheduleHandle = s
  | .notifyAll s' => s' = s
  | .cancelTasksOfTag tag (.scan q it) =>
    ∃ t, (σ.queue q)[it]? = some t ∧ t.tag = tag ∧ t.scheduleHandle = s
  | _ => False

/-- Some thread's next step accesses the counter of `s`. -/
def Touches (γ : Config Shared Frame) (s : ℕ) : Prop :=
  ∃ (i : ℕ) (f : Frame) (rest : List Frame),
    γ.threads[i]? = some (f :: rest) ∧ Accesses γ.shared f s

/-- No new `schedule_task` on `s`. -/
def NoSchedule (s : ℕ) (_ : Config Shared Frame) (f : Frame) : Prop :=
  ∀ tag priority task, f ≠ .scheduleTask (.fetchAdd tag s priority task)

/-- No new `wait_for_schedule_completion` on `s`. -/
def NoWait (s : ℕ) (_ : Config Shared Frame) (f : Frame) : Prop :=
  ∀ rest, f ≠ .code (.waitForScheduleCompletion s rest)

/-- Only one thread is inside a wait on `s`, and nobody is about to notify its waiters. -/
def WaitsAlone (γ : Config Shared Frame) (s : ℕ) : Prop :=
  .notifyAll s ∉ γ.frames ∧
    ∀ pc, .waitForScheduleCompletion s pc ∉ γ.frames.erase (.waitForScheduleCompletion s .check)

/-- Nothing is left that refers to `s`, but for tasks that a cancellation has counted off. -/
structure Dead (s : ℕ) (σ : Shared) (frames : Multiset Frame) : Prop where
  outstanding_eq : (books σ frames).outstandingOn s = 0
  no_wait : ∀ pc, .waitForScheduleCompletion s pc ∉ frames
  no_notify : .notifyAll s ∉ frames

namespace Dead

variable {i s : ℕ} {σ σ' : Shared} {f : Frame} {fs : List Frame} {frames others : Multiset Frame}

/-- A frame that accesses the counter of a dead schedule would be one of those it has not. -/
theorem not_accesses (h : Dead s σ (f ::ₘ others)) (hledger : Ledger σ (f ::ₘ others)) :
    ¬ Accesses σ f s := by
  intro hacc
  have hf : f ∈ f ::ₘ others := Multiset.mem_cons_self _ _
  unfold Accesses at hacc
  split at hacc
  · exact hacc
  · subst hacc
    exact h.no_wait _ hf
  · exact running_ne h.outstanding_eq hf hacc
  · exact h.no_notify (hacc ▸ hf)
  · obtain ⟨t, ht, -, hts⟩ := hacc
    obtain ⟨tag, q, it, hmem⟩ :=
      erasing_of_queued h.outstanding_eq (Shared.mem_queued_of_getElem? ht) hts
    -- A counted-off task has an eraser, which holds the mutex that the scanning frame holds too.
    rcases Multiset.mem_cons.mp hmem with heq | hothers
    · cases heq
    · have hheld := hledger.held_others hothers
      have hle := Bool.toNat_le σ.mutexLocked
      simp only [Frame.held] at hheld
      omega
  · exact hacc

/-- Without new calls on it, a dead schedule stays dead. -/
theorem transition (h : Dead s σ (f ::ₘ others)) (hledger : Ledger σ (f ::ₘ others))
    (ht : Transition i σ f σ' fs) {γ : Config Shared Frame} (hschedule : NoSchedule s γ f)
    (hwait : NoWait s γ f) : Dead s σ' (fs + others) where
  outstanding_eq := by
    have hext := (Extends.refl σ).transition ht
    have hissued : σ'.issued.countP (fun t => t.scheduleHandle = s) =
        σ.issued.countP fun t => t.scheduleHandle = s := by
      cases ht with
      | fetchAdd tag s' priority task t ht =>
        have hs : s' ≠ s := fun hs => hschedule tag priority task (by rw [hs])
        simp [Shared.fetchAdd, ht, hs]
      | helpFound _ t σ' hlock hpop | dequeueFound _ t σ' hpop =>
        obtain ⟨high, normal, -, rfl⟩ := Shared.popFront_some hpop
        rfl
      | _ => rfl
    -- Nothing is issued on `s` and its events are only added to, so none becomes outstanding.
    have hbefore := hledger.outstandingOn_card_add s
    have hafter := (hledger.transition ht).outstandingOn_card_add s
    have hfinished := hext.finished.sublist.countP_le (p := fun t => t.scheduleHandle = s)
    have hcancelled := hext.cancelled.sublist.countP_le (p := fun t => t.scheduleHandle = s)
    rw [h.outstanding_eq, Multiset.card_zero] at hbefore
    exact Multiset.card_eq_zero.mp (by omega)
  no_wait := by
    intro pc hmem
    have hold := h.no_wait
    rcases Multiset.mem_add.mp hmem with hnew | hothers
    · cases ht <;> simp at hnew
      case callWait rest _ => exact hwait rest (by rw [hnew.1])
      all_goals exact hold _ (by rw [hnew.1]; exact Multiset.mem_cons_self _ _)
    · exact hold pc (Multiset.mem_cons_of_mem hothers)
  no_notify := by
    intro hmem
    have hacc := h.not_accesses hledger
    rcases Multiset.mem_add.mp hmem with hnew | hothers
    · cases ht <;> simp at hnew
      case cancelHit tag q it t hit htag => exact hacc ⟨t, hit, htag, hnew.2.symm⟩
      case taskReturned t => exact hacc hnew.2.symm
    · exact h.no_notify (Multiset.mem_cons_of_mem hothers)

end Dead

section

variable {workers : ℕ} {clients : List Program} {γ₁ γ₂ γ₃ : Config Shared Frame} {i s : ℕ}

/-- The step with which a lone wait returns leaves its schedule dead. -/
theorem dead_of_returning (h : Reachable workers clients γ₁) (hret : Returning γ₁ i s)
    (halone : WaitsAlone γ₁ s) (hs : (outstanding γ₁ s).card < 2147483648)
    (hstep : step frameStep i .advance γ₁ = some γ₂) : Dead s γ₂.shared γ₂.frames := by
  obtain ⟨⟨rest, htop⟩, hcounter⟩ := hret
  -- The step pops the waiting frame and leaves everything else as it is.
  have hzero := h.outstanding_eq_zero hs hcounter
  obtain ⟨others, hbefore, hafter⟩ := Config.frames_split htop
  have hγ₂ : γ₂ = ⟨γ₁.shared, γ₁.threads.set i ([] ++ rest)⟩ := by
    simpa [step, htop, frameStep, advance, waitForScheduleCompletionStep, hcounter, eq_comm]
      using hstep
  subst hγ₂
  obtain ⟨hnotify, hwait⟩ := halone
  rw [hbefore] at hnotify hwait
  rw [hafter]
  refine ⟨?_, fun pc => ?_, fun hmem => hnotify ?_⟩
  · simpa [outstanding, books, hbefore] using hzero
  · simpa using hwait pc
  · simpa using hmem

theorem Dead.run (h : Dead s γ₂.shared γ₂.frames) (hledger : Ledger γ₂.shared γ₂.frames)
    (hrun : RunWhere frameStep (fun γ f => NoSchedule s γ f ∧ NoWait s γ f) γ₂ γ₃) :
    Dead s γ₃.shared γ₃.frames ∧ Ledger γ₃.shared γ₃.frames :=
  RunWhere.bag (I := fun σ frames => Dead s σ frames ∧ Ledger σ frames) hrun
    (fun _ _ _ _ _ _ _ hC _ hP hI =>
      ⟨hI.1.transition hI.2 (frameStep_transition hP) hC.1 hC.2,
        hI.2.transition (frameStep_transition hP)⟩) ⟨h, hledger⟩

/-- **A schedule is not touched after a lone wait on it.**  When `wait_for_schedule_completion(s)`
returns at a moment when nobody else waits on `s` or is about to notify its waiters, and fewer than
2^31 of its tasks are outstanding, then as long as `s` is neither scheduled nor waited on again, no
thread accesses its counter. -/
theorem untouched_after_wait (h : Reachable workers clients γ₁) (hret : Returning γ₁ i s)
    (halone : WaitsAlone γ₁ s) (hs : (outstanding γ₁ s).card < 2147483648)
    (hstep : step frameStep i .advance γ₁ = some γ₂)
    (hrun : RunWhere frameStep (fun γ f => NoSchedule s γ f ∧ NoWait s γ f) γ₂ γ₃) :
    ¬ Touches γ₃ s := by
  have hstep' : Run frameStep γ₁ γ₂ :=
    .single (stepWhere_of_step hret.1.choose_spec trivial hstep)
  obtain ⟨hdead, hledger⟩ :=
    (dead_of_returning h hret halone hs hstep).run (Reachable.ledger (h.trans hstep')) hrun
  rintro ⟨j, f, rest, htop, hacc⟩
  obtain ⟨others, hframes, -⟩ := Config.frames_split htop
  rw [hframes] at hdead hledger
  exact hdead.not_accesses hledger hacc

end

/-- The next step of the frame neither schedules on `s` nor starts to wait on it. -/
def Frame.leaves (s : ℕ) : Frame → Bool
  | .scheduleTask (.fetchAdd _ s' _ _) => s' ≠ s
  | .code (.waitForScheduleCompletion s' _) => s' ≠ s
  | _ => true

theorem Frame.noSchedule_and_noWait {s : ℕ} {f : Frame} (h : f.leaves s = true)
    (γ : Config Shared Frame) : NoSchedule s γ f ∧ NoWait s γ f := by
  constructor
  · rintro tag priority task rfl
    simp [Frame.leaves] at h
  · rintro rest rfl
    simp [Frame.leaves] at h

/-- Two clients, each with a task on a schedule of its own, beside one worker. -/
def scheduleAndWaitTwice : Config Shared Frame :=
  start 1 [.scheduleTask 7 0 .normal .finish (.waitForScheduleCompletion 0 .finish),
    .scheduleTask 8 5 .normal .finish (.waitForScheduleCompletion 5 .finish)]

/-- The worker has notified before the first client's last load; then it runs the task of the
second one, which waits for it. -/
theorem untouched_after_wait_notified :
    let γ₁ := play frameStep ([1, 1, 1, 1, 1, 0, 0, 0, 0, 0, 0, 0].map fun i => (i, .advance))
      scheduleAndWaitTwice
    let γ₂ := play frameStep [(1, .advance)] γ₁
    let γ₃ := playWhere frameStep (fun _ f => f.leaves 0 = true)
      ([2, 2, 2, 2, 2, 0, 0, 0, 0, 0, 0, 0, 2, 2, 2].map fun i => (i, .advance)) γ₂
    γ₃.threads = [[.scheduleWorkerLoop 0 .head], [.code .finish], []] ∧
      γ₃.shared.finished.map (·.scheduleHandle) = [0, 5] ∧ ¬ Touches γ₃ 0 := by
  intro γ₁ γ₂ γ₃
  have hframes : γ₁.frames.erase (.waitForScheduleCompletion 0 .check) =
      {.scheduleWorkerLoop 0 .head, .code .finish, .code (.scheduleTask 8 5 .normal .finish
        (.waitForScheduleCompletion 5 .finish))} := by decide
  have hret : Returning γ₁ 1 0 := ⟨⟨_, rfl⟩, by decide⟩
  have hstep : step frameStep 1 .advance γ₁ = some γ₂ := rfl
  have halone : WaitsAlone γ₁ 0 := ⟨by decide, fun pc => by rw [hframes]; simp⟩
  have hrun : RunWhere frameStep (fun γ f => NoSchedule 0 γ f ∧ NoWait 0 γ f) γ₂ γ₃ :=
    (run_playWhere _ γ₂).mono fun γ f h => f.noSchedule_and_noWait h γ
  exact ⟨by decide, by decide,
    untouched_after_wait (run_play _ _) hret halone (by decide) hstep hrun⟩

/-- A client that schedules one task and waits for it, beside one worker. -/
def scheduleAndWait : Config Shared Frame :=
  start 1 [.scheduleTask 7 0 .normal .finish (.waitForScheduleCompletion 0 .finish)]

/-- The worker has counted its task down and not yet notified when the client's wait returns. -/
theorem touched_after_wait :
    let γ₁ := play frameStep ([1, 1, 1, 1, 1, 0, 0, 0, 0, 0, 0].map fun i => (i, .advance))
      scheduleAndWait
    let γ₂ := play frameStep [(1, .advance)] γ₁
    Run frameStep scheduleAndWait γ₁ ∧ Returning γ₁ 1 0 ∧ step frameStep 1 .advance γ₁ = some γ₂ ∧
      Touches γ₂ 0 :=
  ⟨run_play _ _, ⟨⟨_, rfl⟩, by decide⟩, rfl, 0, _, _, rfl, rfl⟩

end AsyncOps

end IACore
