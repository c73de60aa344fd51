import IACore.AsyncOps.Equiv.Counter

/-!
# Tasks left behind at shutdown

A worker that sees its stop request at the head of its loop leaves whatever is queued
(`task_left_behind`), while one that sees it after its wait leaves only empty queues.  If the last
worker never leaves at the loop head with a task queued, nothing is lost (`no_task_lost`).
-/

namespace IACore

open Interleaving

namespace AsyncOps

/-! ### Conditions on the steps of a run -/

namespace Frame

def callsTerminate : Frame → Bool
  | .code (.terminateScheduler _) => true
  | _ => false

def callsScheduleTask : Frame → Bool
  | .code (.scheduleTask _ _ _ _ _) => true
  | _ => false

def inScheduleTask : Frame → Bool
  | .scheduleTask _ => true
  | _ => false

/-- The worker that is about to test its stop token at the head of its loop. -/
def atLoopHead : Frame → List ℕ
  | .scheduleWorkerLoop w .head => [w]
  | _ => []

end Frame

/-- A worker that leaves at the loop head after all others have left finds both queues empty. -/
def LastLeavesEmpty (workers : ℕ) (γ : Config Shared Frame) (f : Frame) : Prop :=
  ∀ w ∈ f.atLoopHead, w ∈ γ.shared.stopRequested →
    (∀ v < workers, v ≠ w → v ∈ γ.shared.exited) → γ.shared.queued = []

instance (workers : ℕ) (γ : Config Shared Frame) (f : Frame) :
    Decidable (LastLeavesEmpty workers γ f) :=
  inferInstanceAs (Decidable (∀ w ∈ f.atLoopHead, _ → _ → _))

/-! ### Before termination -/

/-- Nobody has asked the workers to stop. -/
structure Serving (workers : ℕ) (σ : Shared) (frames : Multiset Frame) : Prop where
  exited_eq : σ.exited = []
  stopRequested_eq : σ.stopRequested = []
  workers_eq : σ.scheduleWorkers = List.range workers
  no_terminate : ∀ pc, .terminateScheduler pc ∉ frames

section

variable {workers i : ℕ} {σ σ' : Shared} {f : Frame} {fs : List Frame} {others : Multiset Frame}

theorem Serving.transition (h : Serving workers σ (f ::ₘ others)) (hcall : f.callsTerminate = false)
    (ht : Transition i σ f σ' fs) : Serving workers σ' (fs + others) := by
  have hself : f ∈ f ::ₘ others := Multiset.mem_cons_self _ _
  have hno : ∀ pc, f ≠ .terminateScheduler pc := fun pc hf => h.no_terminate pc (hf ▸ hself)
  obtain ⟨hexited, hstop, hworkers, hterminate⟩ := h
  have hterminate' : ∀ pc, .terminateScheduler pc ∉ (fs : Multiset Frame) + others := by
    intro pc hmem
    rcases Multiset.mem_add.mp hmem with hnew | hothers
    · rcases ht.terminating hnew with ⟨_, rfl, -⟩ | ⟨_, _, hf, -, -⟩ | ⟨hf, -⟩ | ⟨hf, -⟩ |
        ⟨_, _, hf, -, -⟩
      · cases hcall
      all_goals exact hno _ hf
    · exact hterminate pc (Multiset.mem_cons_of_mem hothers)
  cases ht with
  | headStop w hw => simp [hstop] at hw
  | dequeueStop w hw => simp [hstop] at hw
  | requestStop => exact (hno _ rfl).elim
  | joined => exact (hno _ rfl).elim
  | helpFound _ t σ' hlock hpop | dequeueFound _ t σ' hpop =>
    obtain ⟨high, normal, -, rfl⟩ := Shared.popFront_some hpop
    exact ⟨hexited, hstop, hworkers, hterminate'⟩
  | _ => exact ⟨hexited, hstop, hworkers, hterminate'⟩

theorem Serving.start (workers : ℕ) (clients : List Program) :
    Serving workers (start workers clients).shared (start workers clients).frames where
  exited_eq := rfl
  stopRequested_eq := rfl
  workers_eq := rfl
  no_terminate := by
    intro pc hmem
    obtain ⟨w, -, h⟩ | ⟨p, -, h⟩ := mem_start_frames hmem <;> cases h

/-! ### From the call of `terminate_scheduler` -/

/-- Once all workers have left, nothing is queued, and nothing will be. -/
structure Draining (workers : ℕ) (σ : Shared) (frames : Multiset Frame) : Prop where
  no_schedule : ∀ g ∈ frames, g.inScheduleTask = false
  workers_eq : σ.scheduleWorkers = List.range workers ∨ ∀ w < workers, w ∈ σ.exited
  joining : ∀ ws, .terminateScheduler (.join ws) ∈ frames →
    ∀ w < workers, w ∈ σ.exited ∨ w ∈ ws
  queued_eq : (∀ w < workers, w ∈ σ.exited) → σ.queued = []

theorem exited_subset (ht : Transition i σ f σ' fs) : σ.exited ⊆ σ'.exited := by
  cases ht with
  | headStop => exact List.subset_append_left _ _
  | dequeueStop => exact List.subset_append_left _ _
  | helpFound _ t σ' hlock hpop | dequeueFound _ t σ' hpop =>
    obtain ⟨high, normal, -, rfl⟩ := Shared.popFront_some hpop
    exact List.Subset.refl _
  | _ => exact List.Subset.refl _

namespace Draining

variable {γ : Config Shared Frame}

theorem no_schedule_transition (h : Draining workers σ (f ::ₘ others))
    (hcall : f.callsScheduleTask = false) (ht : Transition i σ f σ' fs) :
    ∀ g ∈ (fs : Multiset Frame) + others, g.inScheduleTask = false := by
  intro g hmem
  have hself : f.inScheduleTask = false := h.no_schedule f (Multiset.mem_cons_self _ _)
  rcases Multiset.mem_add.mp hmem with hnew | hothers
  · by_contra hg
    obtain ⟨pc, rfl⟩ : ∃ pc, g = .scheduleTask pc := by
      unfold Frame.inScheduleTask at hg
      split at hg
      · exact ⟨_, rfl⟩
      · exact (hg rfl).elim
    cases ht <;> simp at hnew
    case callScheduleTask => cases hcall
    all_goals cases hself
  · exact h.no_schedule g (Multiset.mem_cons_of_mem hothers)

theorem workers_transition (h : Draining workers σ (f ::ₘ others)) (ht : Transition i σ f σ' fs) :
    σ'.scheduleWorkers = List.range workers ∨ ∀ w < workers, w ∈ σ'.exited := by
  have hself : f ∈ f ::ₘ others := Multiset.mem_cons_self _ _
  have hsub := exited_subset ht
  cases ht with
  | joined => exact .inr fun w hw => (h.joining [] hself w hw).resolve_right List.not_mem_nil
  | headStop => exact h.workers_eq.imp_right fun hall w hw => hsub (hall w hw)
  | dequeueStop => exact h.workers_eq.imp_right fun hall w hw => hsub (hall w hw)
  | helpFound _ t σ' hlock hpop | dequeueFound _ t σ' hpop =>
    obtain ⟨high, normal, -, rfl⟩ := Shared.popFront_some hpop
    exact h.workers_eq
  | _ => exact h.workers_eq

theorem joining_transition (h : Draining workers σ (f ::ₘ others)) (ht : Transition i σ f σ' fs)
    {ws : List ℕ} (hmem : .terminateScheduler (.join ws) ∈ (fs : Multiset Frame) + others) :
    ∀ w < workers, w ∈ σ'.exited ∨ w ∈ ws := by
  intro w hw
  have hself : f ∈ f ::ₘ others := Multiset.mem_cons_self _ _
  have hsub := exited_subset ht
  rcases Multiset.mem_add.mp hmem with hnew | hothers
  · rcases ht.terminating hnew with ⟨_, -, hpc⟩ | ⟨_, _, -, hpc, -⟩ | ⟨-, hpc⟩ | ⟨-, hpc⟩ |
      ⟨worker, rest, rfl, hpc, hexited⟩ <;> cases hpc
    · rcases h.workers_eq with heq | hall
      · rw [heq, List.mem_range]
        exact .inr hw
      · exact .inl (hsub (hall w hw))
    · rcases h.joining _ hself w hw with hw' | hw'
      · exact .inl (hsub hw')
      · rcases List.mem_cons.mp hw' with rfl | hw'
        · exact .inl (hsub hexited)
        · exact .inr hw'
  · exact (h.joining ws (Multiset.mem_cons_of_mem hothers) w hw).imp_left fun hw' => hsub hw'

theorem queued_transition (h : Draining workers γ.shared (f ::ₘ others))
    (hlast : LastLeavesEmpty workers γ f) (ht : Transition i γ.shared f σ' fs)
    (hall : ∀ w < workers, w ∈ σ'.exited) : σ'.queued = [] := by
  have hself : f.inScheduleTask = false := h.no_schedule f (Multiset.mem_cons_self _ _)
  cases ht with
  | enqueue => cases hself
  -- The last worker leaves at the loop head, where the condition applies, or after its wait.
  | headStop w hw =>
    refine hlast w (List.mem_singleton_self w) hw fun v hv hne => ?_
    exact (List.mem_append.mp (hall v hv)).resolve_right (mt List.mem_singleton.mp hne)
  | dequeueStop w hw hhigh hnormal => exact List.append_eq_nil_iff.mpr ⟨hhigh, hnormal⟩
  | erase tag q it t =>
    obtain ⟨hhigh, hnormal⟩ := List.append_eq_nil_iff.mp (h.queued_eq hall)
    cases q <;> simp [Shared.queued, Shared.setQueue, Shared.queue, hhigh, hnormal]
  | helpFound _ t σ' hlock hpop | dequeueFound _ t σ' hpop =>
    obtain ⟨high, normal, hqueued, rfl⟩ := Shared.popFront_some hpop
    rw [h.queued_eq hall] at hqueued
    cases hqueued
  | _ => exact h.queued_eq hall

theorem transition (h : Draining workers γ.shared (f ::ₘ others))
    (hcall : f.callsScheduleTask = false) (hlast : LastLeavesEmpty workers γ f)
    (ht : Transition i γ.shared f σ' fs) : Draining workers σ' (fs + others) where
  no_schedule := h.no_schedule_transition hcall ht
  workers_eq := h.workers_transition ht
  joining := fun _ hmem => h.joining_transition ht hmem
  queued_eq := h.queued_transition hlast ht

end Draining

end

/-! ### Threads whose worker has left -/

def Frame.isWorker : Frame → Bool
  | .scheduleWorkerLoop _ _ => true
  | _ => false

section

variable {i : ℕ} {σ σ' : Shared} {f : Frame} {fs rest : List Frame}

theorem Transition.not_isWorker (ht : Transition i σ f σ' fs)
    (hf : f.isWorker = false) : ∀ g ∈ fs, g.isWorker = false := by
  cases ht <;> simp [Frame.isWorker] at hf ⊢
  case cancelHit => rintro g (⟨-, rfl⟩ | rfl) <;> rfl

/-- Only a worker's loop lets a worker leave. -/
theorem Transition.exited_eq (ht : Transition i σ f σ' fs) (hf : f.isWorker = false) :
    σ'.exited = σ.exited := by
  cases ht with
  | headStop => cases hf
  | dequeueStop => cases hf
  | dequeueFound => cases hf
  | helpFound schedule t σ' hlock hpop =>
    obtain ⟨high, normal, -, rfl⟩ := Shared.popFront_some hpop
    rfl
  | _ => rfl

/-- A worker that has been asked to stop may leave; else its loop stays below what it starts. -/
theorem Transition.worker {w : ℕ} {pc : WorkerPc}
    (ht : Transition i σ (.scheduleWorkerLoop w pc) σ' fs) :
    (w ∈ σ.stopRequested ∧ fs = [] ∧ σ'.exited = σ.exited ++ [w]) ∨
    (σ'.exited = σ.exited ∧ ∃ upper pc', fs = upper ++ [.scheduleWorkerLoop w pc'] ∧
      ∀ g ∈ upper, g.isWorker = false) := by
  cases ht with
  | headStop _ h => exact .inl ⟨h, rfl, rfl⟩
  | dequeueStop _ h => exact .inl ⟨h, rfl, rfl⟩
  | dequeueFound _ t σ' hpop =>
    obtain ⟨high, normal, -, rfl⟩ := Shared.popFront_some hpop
    exact .inr ⟨rfl, [.code t.task, .foundTask t], .head, rfl, by simp [Frame.isWorker]⟩
  | _ => exact .inr ⟨rfl, [], _, rfl, by simp⟩

variable {workers : ℕ} {clients : List Program}

theorem start_threads_lt (hi : i < workers) :
    (start workers clients).threads[i]? = some [.scheduleWorkerLoop i .head] := by
  simp [start, List.getElem?_append_left, hi]

theorem start_threads_ge (hi : workers ≤ i) {stack : List Frame}
    (h : (start workers clients).threads[i]? = some stack) : ∃ p ∈ clients, stack = [.code p] := by
  rw [start, List.getElem?_append_right (by simpa using hi)] at h
  obtain ⟨p, hp, rfl⟩ := List.mem_map.mp (List.mem_of_getElem? h)
  exact ⟨p, hp, rfl⟩

/-- The stack of thread `i`: a worker's loop is at the bottom of its own thread only. -/
def Seated (i : ℕ) (stack : List Frame) : Prop :=
  ∃ upper lower, stack = upper ++ lower ∧ (∀ f ∈ upper, f.isWorker = false) ∧
    (lower = [] ∨ ∃ pc, lower = [.scheduleWorkerLoop i pc])

/-- A worker that has left has nothing on its stack. -/
structure Vacated (γ : Config Shared Frame) : Prop where
  seated : ∀ (i : ℕ) (stack : List Frame), γ.threads[i]? = some stack → Seated i stack
  empty : ∀ (i : ℕ) (stack : List Frame), γ.threads[i]? = some stack → i ∈ γ.shared.exited →
    stack = []

theorem Seated.transition (h : Seated i (f :: rest)) (ht : Transition i σ f σ' fs) :
    Seated i (fs ++ rest) ∧
      (σ'.exited = σ.exited ∨ σ'.exited = σ.exited ++ [i] ∧ fs ++ rest = []) := by
  obtain ⟨upper, lower, hstack, hupper, hlower⟩ := h
  cases upper with
  | nil =>
    -- the loop itself is on top
    obtain rfl | ⟨pc, rfl⟩ := hlower
    · cases hstack
    obtain ⟨rfl, rfl⟩ := List.cons.inj hstack
    rcases ht.worker with ⟨-, rfl, hexited⟩ | ⟨hexited, upper', pc', rfl, hupper'⟩
    · exact ⟨⟨[], [], rfl, by simp, .inl rfl⟩, .inr ⟨hexited, rfl⟩⟩
    · exact ⟨⟨upper', _, by simp, hupper', .inr ⟨pc', rfl⟩⟩, .inl hexited⟩
  | cons top below =>
    obtain ⟨rfl, rfl⟩ := List.cons.inj hstack
    have htop : f.isWorker = false := hupper f List.mem_cons_self
    refine ⟨⟨fs ++ below, lower, (List.append_assoc ..).symm, fun g hg => ?_, hlower⟩,
      .inl (ht.exited_eq htop)⟩
    rcases List.mem_append.mp hg with hnew | hbelow
    · exact ht.not_isWorker htop g hnew
    · exact hupper g (List.mem_cons_of_mem _ hbelow)

theorem Vacated.step {γ : Config Shared Frame} (h : Vacated γ)
    (htop : γ.threads[i]? = some (f :: rest))
    (ht : Transition i γ.shared f σ' fs) : Vacated ⟨σ', γ.threads.set i (fs ++ rest)⟩ := by
  obtain ⟨hseated, hexited⟩ := (h.seated i _ htop).transition ht
  have hstays : i ∉ γ.shared.exited := by
    intro hleft
    cases h.empty i _ htop hleft
  constructor
  · intro j stack hj
    rw [List.getElem?_set] at hj
    split_ifs at hj with hij
    · obtain rfl := Option.some.inj hj
      exact hij ▸ hseated
    · exact h.seated j stack hj
  · intro j stack hj hleft
    rw [List.getElem?_set] at hj
    split_ifs at hj with hij
    · obtain rfl := Option.some.inj hj
      subst hij
      rcases hexited with hsame | ⟨-, hempty⟩
      · rw [hsame] at hleft
        exact absurd hleft hstays
      · exact hempty
    · apply h.empty j stack hj
      rcases hexited with hsame | ⟨hmore, -⟩
      · rwa [hsame] at hleft
      · rw [hmore] at hleft
        exact (List.mem_append.mp hleft).resolve_right fun hi => hij (List.mem_singleton.mp hi).symm

theorem Vacated.start (workers : ℕ) (clients : List Program) :
    Vacated (start workers clients) where
  seated := by
    intro i stack hi
    rcases Nat.lt_or_ge i workers with hlt | hge
    · rw [start_threads_lt hlt] at hi
      obtain rfl := Option.some.inj hi
      exact ⟨[], _, rfl, by simp, .inr ⟨.head, rfl⟩⟩
    · obtain ⟨p, -, rfl⟩ := start_threads_ge hge hi
      exact ⟨[.code p], [], rfl, by simp [Frame.isWorker], .inl rfl⟩
  empty := by
    intro i stack _ hleft
    cases hleft

theorem Reachable.vacated {γ : Config Shared Frame} (h : Reachable workers clients γ) : Vacated γ :=
  RunWhere.invariant h
    (fun _ _ _ _ _ _ _ htop _ hP hI => hI.step htop (frameStep_transition hP))
    (Vacated.start workers clients)

end

/-! ### Shutdown -/

section

variable {workers i : ℕ} {clients : List Program} {γ₁ γ₂ γ₃ : Config Shared Frame}

/-- Every task that was ever scheduled has been run to completion or cancelled, and no queue or
counter remembers it. -/
structure NothingLeft (σ : Shared) : Prop where
  high_eq : σ.highPriorityQueue = []
  normal_eq : σ.normalPriorityQueue = []
  settled : ∀ t ∈ σ.issued, t ∈ σ.finished ∨ t ∈ σ.cancelled
  counter_eq : ∀ s, σ.counter s = 0

/-- An empty queue, with nobody scheduling or running a task. -/
theorem Ledger.nothingLeft {σ : Shared} {frames : Multiset Frame} (h : Ledger σ frames)
    (hschedule : ∀ g ∈ frames, g.inScheduleTask = false)
    (hrunning : ∀ t, .foundTask t ∉ frames) (hqueued : σ.queued = []) : NothingLeft σ := by
  have hentering : tasksOf Frame.entering frames = 0 := by
    refine tasksOf_eq_zero fun g hg => ?_
    have hg' := hschedule g hg
    unfold Frame.entering
    split
    · cases hg'
    · rfl
  have hrun : tasksOf Frame.running frames = 0 := by
    refine tasksOf_eq_zero fun g hg => ?_
    unfold Frame.running
    split
    · exact (hrunning _ hg).elim
    · rfl
  have hzero : (books σ frames).outstanding = 0 := by
    simp only [Books.outstanding, books, hentering, hrun, hqueued, zero_add, add_zero]
    exact Multiset.le_zero.mp (Multiset.sub_le_self _ _)
  obtain ⟨hhigh, hnormal⟩ := List.append_eq_nil_iff.mp hqueued
  refine ⟨hhigh, hnormal, fun t ht => ?_, fun s => ?_⟩
  · have hmem : t ∈ (σ.issued : Multiset ScheduledTask) := ht
    rw [← h.outstanding_add, hzero, zero_add] at hmem
    exact Multiset.mem_add.mp hmem
  · rw [h.counter_eq_i32 s, Books.outstandingOn, hzero]
    simp [i32]

/-- **No task is lost at shutdown** when the last worker does not leave at the head of its loop
with a task queued, and no client is still running a task when `terminate_scheduler` returns; that
the workers have ended theirs by then is part of it. -/
theorem no_task_lost (hworkers : 0 < workers)
    (hserve : RunWhere frameStep (fun _ f => f.callsTerminate = false) (start workers clients) γ₁)
    (hreturned : ∀ g ∈ γ₁.frames, g.inScheduleTask = false)
    (hrun : RunWhere frameStep
      (fun γ f => f.callsScheduleTask = false ∧ LastLeavesEmpty workers γ f) γ₁ γ₂)
    (hjoined : ∃ rest, γ₂.threads[i]? = some (.terminateScheduler (.join []) :: rest))
    (hreturn : step frameStep i .advance γ₂ = some γ₃)
    (hhelping : ∀ (j : ℕ) (stack : List Frame), workers ≤ j → γ₂.threads[j]? = some stack →
      ∀ t, .foundTask t ∉ stack) : NothingLeft γ₃.shared := by
  have hserving : Serving workers γ₁.shared γ₁.frames :=
    RunWhere.bag (I := Serving workers) hserve
      (fun _ _ _ _ _ _ _ hC _ hP hI => hI.transition hC (frameStep_transition hP))
      (Serving.start workers clients)
  have hdraining₁ : Draining workers γ₁.shared γ₁.frames :=
    { no_schedule := hreturned
      workers_eq := .inl hserving.workers_eq
      joining := fun ws hmem => (hserving.no_terminate _ hmem).elim
      -- Some worker has not left yet.
      queued_eq := fun hall => by
        have hleft := hall 0 hworkers
        rw [hserving.exited_eq] at hleft
        cases hleft }
  have hdraining : Draining workers γ₂.shared γ₂.frames :=
    RunWhere.bag (I := Draining workers) hrun
      (fun _ _ _ _ _ _ _ hC _ hP hI => hI.transition hC.1 hC.2
        (frameStep_transition hP)) hdraining₁
  have hledger := Reachable.ledger (hserve.run.trans hrun.run)
  obtain ⟨rest, htop⟩ := hjoined
  obtain ⟨others, hframes, -⟩ := Config.frames_split htop
  have hjoin : .terminateScheduler (.join []) ∈ γ₂.frames :=
    hframes ▸ Multiset.mem_cons_self _ _
  -- Joined workers have left, so they run nothing, and the last of them found the queues empty.
  have hexited : ∀ w < workers, w ∈ γ₂.shared.exited := fun w hw =>
    (hdraining.joining [] hjoin w hw).resolve_right List.not_mem_nil
  have hrunning : ∀ t, .foundTask t ∉ γ₂.frames := by
    intro t hmem
    obtain ⟨j, stack, hj, hmem⟩ := Config.mem_frames.mp hmem
    rcases Nat.lt_or_ge j workers with hlt | hge
    · obtain rfl := (Reachable.vacated (hserve.run.trans hrun.run)).empty j stack hj (hexited j hlt)
      cases hmem
    · exact hhelping j stack hge hj t hmem
  have hleft := hledger.nothingLeft hdraining.no_schedule hrunning (hdraining.queued_eq hexited)
  have hγ₃ : γ₃ = ⟨{ γ₂.shared with scheduleWorkers := [] }, γ₂.threads.set i ([] ++ rest)⟩ := by
    simpa [step, htop, frameStep, advance, terminateSchedulerStep, eq_comm] using hreturn
  rw [hγ₃]
  exact ⟨hleft.high_eq, hleft.normal_eq, hleft.settled, hleft.counter_eq⟩

/-- One worker runs the only task and then leaves. -/
theorem no_task_lost_one :
    let γ₁ := playWhere frameStep (fun _ f => f.callsTerminate = false)
      ([1, 1, 1, 1, 0, 0, 0, 0, 0, 0, 0].map fun i => (i, .advance))
      (start 1 [.scheduleTask 7 0 .normal .finish (.terminateScheduler .finish)])
    let γ₂ := playWhere frameStep
      (fun γ f => f.callsScheduleTask = false ∧ LastLeavesEmpty 1 γ f)
      ([1, 1, 1, 1, 0, 1].map fun i => (i, .advance)) γ₁
    ∃ γ₃, step frameStep 1 .advance γ₂ = some γ₃ ∧ NothingLeft γ₃.shared := by
  intro γ₁ γ₂
  have hthreads : γ₂.threads = [[], [.terminateScheduler (.join []), .code .finish]] := by decide
  have hjoined : ∃ rest, γ₂.threads[1]? = some (.terminateScheduler (.join []) :: rest) :=
    ⟨[.code .finish], by decide⟩
  obtain ⟨γ₃, hstep⟩ := Option.isSome_iff_exists.mp
    (by decide : (step frameStep 1 .advance γ₂).isSome = true)
  have hhelping : ∀ (j : ℕ) (stack : List Frame), 1 ≤ j → γ₂.threads[j]? = some stack →
      ∀ t, .foundTask t ∉ stack := by
    intro j stack hj hget t hmem
    rw [hthreads] at hget
    rcases j with _ | _ | j
    · exact absurd hj (by decide)
    · obtain rfl := Option.some.inj hget
      simp at hmem
    · cases hget
  exact ⟨γ₃, hstep, no_task_lost (by decide) (run_playWhere _ _) (by decide) (run_playWhere _ _)
    hjoined hstep hhelping⟩

/-- One worker, two tasks: the stop request comes while the first one runs. -/
theorem task_left_behind :
    let γ₁ := playWhere frameStep (fun _ f => f.callsTerminate = false)
      ([1, 1, 1, 1, 1, 1, 1, 1, 0, 0, 0, 0].map fun i => (i, .advance))
      (start 1 [.scheduleTask 7 0 .normal .finish
        (.scheduleTask 7 0 .normal .finish (.terminateScheduler .finish))])
    let γ₂ := playWhere frameStep (fun _ f => f.callsScheduleTask = false)
      ([1, 1, 1, 1, 0, 0, 0, 1].map fun i => (i, .advance)) γ₁
    let γ₃ := play frameStep [(1, .advance)] γ₂
    (∀ g ∈ γ₁.frames, g.inScheduleTask = false) ∧
      γ₂.threads = [[], [.terminateScheduler (.join []), .code .finish]] ∧
      γ₃.threads = [[], [.code .finish]] ∧ ¬ NothingLeft γ₃.shared := by
  refine ⟨by decide, by decide, by decide, fun h => ?_⟩
  have hnormal := h.normal_eq
  revert hnormal
  decide

end

end AsyncOps

end IACore
