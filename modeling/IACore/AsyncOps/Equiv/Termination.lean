import IACore.AsyncOps.Equiv.Accounting

/-!
# Waking the workers at termination

`terminate_scheduler` requests the stops and notifies outside the mutex.  A worker that has found
its predicate false before and blocks after that is not woken (`worker_not_woken`); if no worker
stands between the two when the notification is made, none ever blocks again (`workers_woken`).
-/

namespace IACore

open Interleaving

namespace AsyncOps

/-- `terminate_scheduler` is joining, no `schedule_task` is in progress, and a worker is blocked on
`s_wake_condition`. -/
def Hangs (γ : Config Shared Frame) : Prop :=
  (∃ ws, .terminateScheduler (.join ws) ∈ γ.frames) ∧ (∀ pc, .scheduleTask pc ∉ γ.frames) ∧
    ∃ w ∈ γ.shared.wakeCondition, .scheduleWorkerLoop w .asleep ∈ γ.frames

/-- A worker between a predicate that was false and blocking. -/
def Frame.aboutToBlock : Frame → Bool
  | .scheduleWorkerLoop _ .block => true
  | _ => false

/-- The notification of `terminate_scheduler` comes when no worker is about to block. -/
def NotifiesAll (γ : Config Shared Frame) (f : Frame) : Prop :=
  f = .terminateScheduler .notifyAll → ∀ g ∈ γ.frames, g.aboutToBlock = false

instance (γ : Config Shared Frame) (f : Frame) : Decidable (NotifiesAll γ f) :=
  inferInstanceAs (Decidable (_ → _))

/-- How far the workers know that they have to stop. -/
structure Stopping (workers : ℕ) (σ : Shared) (frames : Multiset Frame) : Prop where
  worker_lt : ∀ w pc, .scheduleWorkerLoop w pc ∈ frames → w < workers
  workers_eq : σ.scheduleWorkers = List.range workers ∨ ∀ w < workers, w ∈ σ.stopRequested
  requesting : ∀ ws, .terminateScheduler (.requestStop ws) ∈ frames →
    ∀ w < workers, w ∈ σ.stopRequested ∨ w ∈ ws
  notifying : .terminateScheduler .notifyAll ∈ frames → ∀ w < workers, w ∈ σ.stopRequested
  joining : ∀ ws, .terminateScheduler (.join ws) ∈ frames → ∀ w < workers, w ∈ σ.stopRequested

namespace Stopping

variable {workers i : ℕ} {σ σ' : Shared} {f : Frame} {fs : List Frame} {others : Multiset Frame}

theorem start (workers : ℕ) (clients : List Program) :
    Stopping workers (start workers clients).shared (start workers clients).frames where
  worker_lt := by
    intro w pc hmem
    obtain ⟨w', hw', h⟩ | ⟨p, -, h⟩ := mem_start_frames hmem <;> cases h
    exact hw'
  workers_eq := .inl rfl
  requesting := by
    intro ws hmem
    obtain ⟨w', hw', h⟩ | ⟨p, -, h⟩ := mem_start_frames hmem <;> cases h
  notifying := by
    intro hmem
    obtain ⟨w', hw', h⟩ | ⟨p, -, h⟩ := mem_start_frames hmem <;> cases h
  joining := by
    intro ws hmem
    obtain ⟨w', hw', h⟩ | ⟨p, -, h⟩ := mem_start_frames hmem <;> cases h

/-- Stop requests are never withdrawn. -/
theorem stopRequested_subset (ht : Transition i σ f σ' fs) :
    σ.stopRequested ⊆ σ'.stopRequested := by
  cases ht with
  | requestStop => exact List.subset_cons_self _ _
  | helpFound _ t σ' hlock hpop | dequeueFound _ t σ' hpop =>
    obtain ⟨high, normal, -, rfl⟩ := Shared.popFront_some hpop
    exact List.Subset.refl _
  | _ => exact List.Subset.refl _

theorem worker_lt_transition (h : Stopping workers σ (f ::ₘ others)) (ht : Transition i σ f σ' fs)
    (w : ℕ) (pc : WorkerPc) (hmem : .scheduleWorkerLoop w pc ∈ (fs : Multiset Frame) + others) :
    w < workers := by
  rcases Multiset.mem_add.mp hmem with hnew | hothers
  · have hold := h.worker_lt w
    cases ht <;> simp at hnew
    all_goals exact hold _ (by rw [hnew.1]; exact Multiset.mem_cons_self _ _)
  · exact h.worker_lt w pc (Multiset.mem_cons_of_mem hothers)

theorem workers_transition (h : Stopping workers σ (f ::ₘ others)) (ht : Transition i σ f σ' fs) :
    σ'.scheduleWorkers = List.range workers ∨ ∀ w < workers, w ∈ σ'.stopRequested := by
  have hself : f ∈ f ::ₘ others := Multiset.mem_cons_self _ _
  have hsub := stopRequested_subset ht
  cases ht with
  | joined => exact .inr (h.joining [] hself)
  | requestStop => exact h.workers_eq.imp_right fun hall w hw => hsub (hall w hw)
  | helpFound _ t σ' hlock hpop | dequeueFound _ t σ' hpop =>
    obtain ⟨high, normal, -, rfl⟩ := Shared.popFront_some hpop
    exact h.workers_eq
  | _ => exact h.workers_eq

theorem requesting_transition (h : Stopping workers σ (f ::ₘ others))
    (ht : Transition i σ f σ' fs) (ws : List ℕ)
    (hmem : .terminateScheduler (.requestStop ws) ∈ (fs : Multiset Frame) + others) (w : ℕ)
    (hw : w < workers) : w ∈ σ'.stopRequested ∨ w ∈ ws := by
  have hself : f ∈ f ::ₘ others := Multiset.mem_cons_self _ _
  rcases Multiset.mem_add.mp hmem with hnew | hothers
  · rcases ht.terminating hnew with ⟨_, -, hpc⟩ | ⟨worker, rest, rfl, hpc, hstop⟩ | ⟨-, hpc⟩ |
      ⟨-, hpc⟩ | ⟨_, _, -, hpc, -⟩ <;> cases hpc
    -- A second caller either sees all workers or comes after they were joined.
    · rcases h.workers_eq with heq | hall
      · rw [heq, List.mem_range]
        exact .inr hw
      · exact .inl (stopRequested_subset ht (hall w hw))
    · have hold := h.requesting _ hself w hw
      rw [hstop]
      simp only [List.mem_cons] at hold ⊢
      tauto
  · have hold := h.requesting ws (Multiset.mem_cons_of_mem hothers) w hw
    exact hold.imp_left fun hstop => stopRequested_subset ht hstop

theorem notifying_transition (h : Stopping workers σ (f ::ₘ others))
    (ht : Transition i σ f σ' fs)
    (hmem : .terminateScheduler .notifyAll ∈ (fs : Multiset Frame) + others) (w : ℕ)
    (hw : w < workers) : w ∈ σ'.stopRequested := by
  have hself : f ∈ f ::ₘ others := Multiset.mem_cons_self _ _
  apply stopRequested_subset ht
  rcases Multiset.mem_add.mp hmem with hnew | hothers
  · rcases ht.terminating hnew with ⟨_, -, hpc⟩ | ⟨_, _, -, hpc, -⟩ | ⟨rfl, -⟩ | ⟨-, hpc⟩ |
      ⟨_, _, -, hpc, -⟩
    case inr.inr.inl => exact (h.requesting [] hself w hw).resolve_right List.not_mem_nil
    all_goals cases hpc
  · exact h.notifying (Multiset.mem_cons_of_mem hothers) w hw

theorem joining_transition (h : Stopping workers σ (f ::ₘ others)) (ht : Transition i σ f σ' fs)
    (ws : List ℕ) (hmem : .terminateScheduler (.join ws) ∈ (fs : Multiset Frame) + others) (w : ℕ)
    (hw : w < workers) : w ∈ σ'.stopRequested := by
  have hself : f ∈ f ::ₘ others := Multiset.mem_cons_self _ _
  apply stopRequested_subset ht
  rcases Multiset.mem_add.mp hmem with hnew | hothers
  · rcases ht.terminating hnew with ⟨_, -, hpc⟩ | ⟨_, _, -, hpc, -⟩ | ⟨-, hpc⟩ | ⟨rfl, -⟩ |
      ⟨worker, rest, rfl, -, -⟩
    case inr.inr.inr.inl => exact h.notifying hself w hw
    case inr.inr.inr.inr => exact h.joining _ hself w hw
    all_goals cases hpc
  · exact h.joining ws (Multiset.mem_cons_of_mem hothers) w hw

theorem transition (h : Stopping workers σ (f ::ₘ others)) (ht : Transition i σ f σ' fs) :
    Stopping workers σ' (fs + others) where
  worker_lt := h.worker_lt_transition ht
  workers_eq := h.workers_transition ht
  requesting := h.requesting_transition ht
  notifying := h.notifying_transition ht
  joining := h.joining_transition ht

end Stopping

/-- While `terminate_scheduler` joins, no worker is blocked or about to block. -/
def NoneBlocks (σ : Shared) (frames : Multiset Frame) : Prop :=
  ∀ ws, .terminateScheduler (.join ws) ∈ frames →
    σ.wakeCondition = [] ∧ ∀ g ∈ frames, g.aboutToBlock = false

section

variable {workers i : ℕ} {clients : List Program} {σ σ' : Shared} {f : Frame} {fs : List Frame}
  {others : Multiset Frame} {γ : Config Shared Frame}

theorem NoneBlocks.transition (h : NoneBlocks γ.shared γ.frames)
    (hstop : Stopping workers γ.shared γ.frames) (hframes : γ.frames = f ::ₘ others)
    (hnotify : NotifiesAll γ f) (ht : Transition i γ.shared f σ' fs) :
    NoneBlocks σ' (fs + others) := by
  intro ws hmem
  have hself : f ∈ γ.frames := hframes ▸ Multiset.mem_cons_self _ _
  -- The notification empties the condition and finds nobody about to block; any other step comes
  -- when a join is in progress already.
  by_cases hf : f = .terminateScheduler .notifyAll
  · subst hf
    cases ht
    refine ⟨rfl, fun g hg => ?_⟩
    rcases Multiset.mem_add.mp hg with hnew | hothers
    · obtain rfl := List.mem_singleton.mp hnew
      rfl
    · exact hnotify rfl g (hframes ▸ Multiset.mem_cons_of_mem hothers)
  · have hjoin : ∃ ws', .terminateScheduler (.join ws') ∈ γ.frames := by
      rcases Multiset.mem_add.mp hmem with hnew | hothers
      · rcases ht.terminating hnew with ⟨_, -, hpc⟩ | ⟨_, _, -, hpc, -⟩ | ⟨-, hpc⟩ | ⟨hall, -⟩ |
          ⟨worker, rest, rfl, -, -⟩
        case inr.inr.inr.inl => exact (hf hall).elim
        case inr.inr.inr.inr => exact ⟨_, hself⟩
        all_goals cases hpc
      · exact ⟨ws, hframes ▸ Multiset.mem_cons_of_mem hothers⟩
    obtain ⟨ws', hjoin⟩ := hjoin
    obtain ⟨hwake, hblock⟩ := h ws' hjoin
    refine ⟨?_, fun g hg => ?_⟩
    · cases ht with
      | block w => cases hblock _ hself
      | notifyOne => simp [hwake]
      | spuriousWorker => simp [hwake]
      | terminateNotifyAll => rfl
      | helpFound _ t σ' hlock hpop | dequeueFound _ t σ' hpop =>
        obtain ⟨high, normal, -, rfl⟩ := Shared.popFront_some hpop
        exact hwake
      | _ => exact hwake
    · rcases Multiset.mem_add.mp hg with hnew | hothers
      · by_contra habout
        obtain ⟨w, rfl⟩ : ∃ w, g = .scheduleWorkerLoop w .block := by
          unfold Frame.aboutToBlock at habout
          split at habout
          · exact ⟨_, rfl⟩
          · exact (habout rfl).elim
        cases ht <;> simp at hnew
        -- A predicate that is false has not seen the stop request, which came before the join.
        case predicateFalse worker _ _ hrunning =>
          exact hrunning (hstop.joining ws' hjoin worker (hstop.worker_lt worker _ hself))
      · exact hblock g (hframes ▸ Multiset.mem_cons_of_mem hothers)

/-- **Termination wakes the workers** when, at each notification of `terminate_scheduler`, no worker
stands between a predicate that it found false and blocking: no state of such a run hangs. -/
theorem workers_woken (h : RunWhere frameStep NotifiesAll (start workers clients) γ) :
    ¬ Hangs γ := by
  have hinv : Stopping workers γ.shared γ.frames ∧ NoneBlocks γ.shared γ.frames := by
    refine RunWhere.bag (I := fun σ frames => Stopping workers σ frames ∧ NoneBlocks σ frames) h
      (fun δ _ _ _ _ _ _ hC hframes hP hI => ?_) ⟨Stopping.start workers clients, ?_⟩
    · have ht := frameStep_transition hP
      exact ⟨hI.1.transition ht,
        NoneBlocks.transition (hframes ▸ hI.2) (hframes ▸ hI.1) hframes hC ht⟩
    · intro ws hmem
      obtain ⟨w, -, hw⟩ | ⟨p, -, hp⟩ := mem_start_frames hmem
      · cases hw
      · cases hp
  rintro ⟨⟨ws, hjoin⟩, -, w, hw, -⟩
  rw [(hinv.2 ws hjoin).1] at hw
  exact List.not_mem_nil hw

/-- A worker that is asleep when it is asked to stop. -/
theorem workers_woken_asleep :
    ¬ Hangs (playWhere frameStep NotifiesAll
      ([0, 0, 0, 0, 1, 1, 1, 1].map fun i => (i, .advance))
      (start 1 [.terminateScheduler .finish])) :=
  workers_woken (run_playWhere _ _)

/-- A worker that blocks after the notification. -/
theorem worker_not_woken :
    ∃ γ, Reachable 1 [.terminateScheduler .finish] γ ∧ Hangs γ := by
  obtain ⟨γ, hrun, hframes, hwake⟩ : ∃ γ, Reachable 1 [.terminateScheduler .finish] γ ∧
      γ.frames =
        {.scheduleWorkerLoop 0 .asleep, .terminateScheduler (.join [0]), .code .finish} ∧
      γ.shared.wakeCondition = [0] :=
    ⟨play frameStep ([0, 0, 0, 1, 1, 1, 1, 0].map fun i => (i, .advance))
      (start 1 [.terminateScheduler .finish]), run_play _ _, by decide, by decide⟩
  refine ⟨γ, hrun, ⟨[0], ?_⟩, fun pc => ?_, 0, ?_, ?_⟩ <;> simp [hframes, hwake]

end

end AsyncOps

end IACore
