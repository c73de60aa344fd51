import IACore.AsyncOps.Equiv.WakeUp

/-!
# Deadlocks of helping waits

A thread that waits for a schedule runs whatever is queued on top of its own stack, so a suspended
task depends on what was stacked on it besides on what it waits for.  Two kinds of states are stuck:
a circle of such dependencies (`stackedProgram_deadlocked`), and a task queued after every worker
has blocked in a wait of its own, whom `notify_one` does not reach, with nobody else left to run it
(`unhelpedProgram_deadlocked`).  There are no others (`helping_waits_progress`).
-/

namespace IACore

open Interleaving

namespace AsyncOps

namespace Frame

def callsCancel : Frame → Bool
  | .code (.cancelTasksOfTag _ _) => true
  | _ => false

end Frame

/-- No thread can move but by waking up for no reason. -/
def Stuck (γ : Config Shared Frame) : Prop :=
  ∀ i move, move ≠ .spurious → step frameStep i move γ = none

/-- The task `x` cannot go on before `y` has finished: `y` runs on top of a wait in which `x` is
suspended, or `x` is blocked in a wait for the schedule of `y`. -/
inductive BlockedBy (γ : Config Shared Frame) (x y : ScheduledTask) : Prop
  | stacked (i : ℕ) (stack : List Frame) (above below : List ScheduledTask)
      (h : γ.threads[i]? = some stack)
      (hrunning : stack.flatMap Frame.running = above ++ y :: x :: below)
  | waits (i s v : ℕ) (rest : List Frame) (below : List ScheduledTask)
      (h : γ.threads[i]? = some (.waitForScheduleCompletion s (.blocked v) :: rest))
      (hrunning : rest.flatMap Frame.running = x :: below) (hy : y ∈ outstanding γ s)

/-- A task is queued, the main thread has ended, and every worker is blocked in a wait of a task. -/
structure Unhelped (workers : ℕ) (γ : Config Shared Frame) : Prop where
  queued : γ.shared.queued ≠ []
  main : γ.threads[workers]? = some []
  blocked : ∀ i < workers, ∃ s v rest,
    γ.threads[i]? = some (.waitForScheduleCompletion s (.blocked v) :: rest)

/-! ### One main thread, no cancellation -/

/-- Nobody cancels tasks. -/
structure NoCancel (σ : Shared) (frames : Multiset Frame) : Prop where
  no_frame : ∀ tag pc, .cancelTasksOfTag tag pc ∉ frames
  cancelled_eq : σ.cancelled = []

/-- The main thread does not block with a task queued, unless a worker is alert. -/
def Looked (workers : ℕ) (γ : Config Shared Frame) : Prop :=
  γ.shared.queued ≠ [] →
    (∃ (f : Frame) (rest : List Frame), γ.threads[workers]? = some (f :: rest) ∧
      f.pastLook γ.shared) → ∃ i < workers, Alert γ i

section

variable {workers i : ℕ} {γ : Config Shared Frame} {σ σ' : Shared} {f : Frame}
  {fs rest : List Frame} {others : Multiset Frame}

theorem NoCancel.transition (h : NoCancel σ (f ::ₘ others)) (hcall : f.callsCancel = false)
    (ht : Transition i σ f σ' fs) : NoCancel σ' (fs + others) where
  no_frame := by
    intro tag pc hmem
    have hself : f ∈ f ::ₘ others := Multiset.mem_cons_self _ _
    rcases Multiset.mem_add.mp hmem with hnew | hothers
    · cases ht <;> simp at hnew
      case callCancelTasksOfTag => cases hcall
      all_goals exact h.no_frame _ _ hself
    · exact h.no_frame tag pc (Multiset.mem_cons_of_mem hothers)
  cancelled_eq := by
    have hself : f ∈ f ::ₘ others := Multiset.mem_cons_self _ _
    cases ht with
    | cancelHit => exact (h.no_frame _ _ hself).elim
    | helpFound _ t σ' hlock hpop | dequeueFound _ t σ' hpop =>
      obtain ⟨high, normal, -, rfl⟩ := Shared.popFront_some hpop
      exact h.cancelled_eq
    | _ => exact h.cancelled_eq

theorem NoCancel.start (workers : ℕ) (clients : List Program) :
    NoCancel (start workers clients).shared (start workers clients).frames where
  no_frame := by
    intro tag pc hmem
    obtain ⟨w, -, h⟩ | ⟨p, -, h⟩ := mem_start_frames hmem <;> cases h
  cancelled_eq := rfl

theorem Looked.step (h : Looked workers γ) (hstacks : Stacks workers γ)
    (hlength : γ.threads.length = workers + 1) (htop : γ.threads[i]? = some (f :: rest))
    (ht : Transition i γ.shared f σ' fs) :
    Looked workers ⟨σ', γ.threads.set i (fs ++ rest)⟩ := by
  rintro hqueued ⟨g, below, hget, hpast⟩
  have hlt : i < γ.threads.length := (List.getElem?_eq_some_iff.mp htop).1
  have hother : ∀ j, i ≠ j → Alert γ j → Alert ⟨σ', γ.threads.set i (fs ++ rest)⟩ j :=
    fun j hij hj => hstacks.lined.alert_other htop ht hij hj
  -- The main thread's own step, or another thread's while it stands past its look.
  by_cases hi : i = workers
  · subst hi
    rw [List.getElem?_set_self hlt] at hget
    have hstack := Option.some.inj hget
    by_cases hf : f.pastLook γ.shared
    -- It was past its look before: somebody was alert then, unless the main thread enqueues.
    · rcases ht.queued hqueued with hold | rfl
      · obtain ⟨j, hj, halert⟩ := h hold ⟨f, rest, htop, hf⟩
        exact ⟨j, hj, hother j (by omega) halert⟩
      · obtain ⟨rfl, -⟩ := List.cons.inj hstack
        exact hpast.elim
    · cases fs with
      | cons top tail =>
        obtain ⟨rfl, -⟩ := List.cons.inj hstack
        exact (ht.not_pastLook hf hqueued rfl hpast).elim
      | nil =>
        rw [List.nil_append] at hstack
        subst hstack
        exact (Frame.not_pastLook_of_resting _
          ((hstacks.stackOk i _ htop).resting g List.mem_cons_self) hpast).elim
  · rw [List.getElem?_set_ne hi] at hget
    have hpast' : g.pastLook γ.shared := by
      have hclient := (hstacks.stackOk workers _ hget).client le_rfl g List.mem_cons_self
      unfold Frame.pastLook at hpast ⊢
      split at hpast
      · trivial
      · trivial
      · trivial
      · trivial
      · cases hclient
      · exact hpast
    rcases ht.queued hqueued with hold | rfl
    · obtain ⟨j, hj, halert⟩ := h hold ⟨g, below, hget, hpast'⟩
      by_cases hij : i = j
      · subst hij
        obtain ⟨f', rest', htop', hf'⟩ := halert
        rw [htop] at htop'
        obtain ⟨rfl, rfl⟩ := List.cons.inj (Option.some.inj htop')
        exact ⟨i, hj, hstacks.lined.alert_self htop hstacks.serving.stopRequested_eq hj hf' ht
          hqueued⟩
      · exact ⟨j, hj, hother j hij halert⟩
    -- A worker that has just enqueued has not looked since.
    · exact ⟨i, by omega, _, rest, List.getElem?_set_self hlt, id⟩

/-! ### Stuck states -/

theorem Stuck.advance_eq_none (h : Stuck γ) (htop : γ.threads[i]? = some (f :: rest)) :
    advance i γ.shared f = none := by
  have hnone := h i .advance (by simp)
  rw [step, htop] at hnone
  exact Option.map_eq_none_iff.mp hnone

theorem Stuck.notifyOne_eq_none (h : Stuck γ) (w : ℕ)
    (htop : γ.threads[i]? = some (f :: rest)) : frameStep i (.notifyOne w) γ.shared f = none := by
  have hnone := h i (.notifyOne w) (by simp)
  rw [step, htop] at hnone
  exact Option.map_eq_none_iff.mp hnone

/-- The holder of the mutex could move. -/
theorem Stuck.mutex_free (hstuck : Stuck γ) (h : Stacks workers γ)
    (hcancel : NoCancel γ.shared γ.frames) : γ.shared.mutexLocked = false := by
  by_contra hlock
  have hheld : ∃ g ∈ γ.frames, g.held ≠ 0 := by
    by_contra hno
    push Not at hno
    have hzero : holders γ.frames = 0 := by
      refine Multiset.sum_eq_zero fun n hn => ?_
      obtain ⟨g, hg, rfl⟩ := Multiset.mem_map.mp hn
      exact hno g hg
    rw [h.ledger.holders_eq, Bool.eq_true_of_not_eq_false hlock] at hzero
    cases hzero
  obtain ⟨g, hg, hg'⟩ := hheld
  obtain ⟨j, stack, hget, hmem⟩ := Config.mem_frames.mp hg
  -- A frame inside a critical section is on top of its stack, and no such frame can be stuck.
  have hresting : g.resting = false := by
    unfold Frame.held at hg'
    split at hg'
    · rfl
    · exact (hcancel.no_frame _ _ hg).elim
    all_goals first
      | rfl
      | exact (hg' rfl).elim
  cases stack with
  | nil => cases hmem
  | cons top below =>
    obtain rfl | hbelow := List.mem_cons.mp hmem
    · have hnone := hstuck.advance_eq_none hget
      unfold Frame.held at hg'
      split at hg'
      · exact hcancel.no_frame _ _ hg
      · exact hcancel.no_frame _ _ hg
      · simp only [advance, scheduleWorkerLoopStep] at hnone
        split_ifs at hnone
      · cases hnone
      · simp only [advance, scheduleWorkerLoopStep] at hnone
        split_ifs at hnone
        split at hnone <;> cases hnone
      · exact hg' rfl
    · rw [(h.stackOk j _ hget).resting g hbelow] at hresting
      cases hresting

/-- In a stuck state every thread that has not ended is blocked. -/
theorem Stuck.top (hstuck : Stuck γ) (hworkers : 0 < workers) (h : Stacks workers γ)
    (hcancel : NoCancel γ.shared γ.frames) (htop : γ.threads[i]? = some (f :: rest)) :
    (∃ w, f = .scheduleWorkerLoop w .asleep ∧ w ∈ γ.shared.wakeCondition) ∨
      ∃ s v, f = .waitForScheduleCompletion s (.blocked v) ∧ i ∈ γ.shared.waiters s := by
  have hmem : f ∈ γ.frames := Config.mem_frames.mpr ⟨i, _, htop, List.mem_cons_self⟩
  have hlock := hstuck.mutex_free h hcancel
  have hserve : γ.shared.scheduleWorkers ≠ [] := by
    rw [h.serving.workers_eq]
    simp
    omega
  have hnone := hstuck.advance_eq_none htop
  cases f with
  | code p =>
    cases p <;> simp [advance, codeStep, hserve] at hnone
  | scheduleTask pc =>
    cases pc with
    | fetchAdd => cases hnone
    | enqueue => simp [advance, scheduleTaskStep, hlock] at hnone
    | notifyOne =>
      by_cases hwake : γ.shared.wakeCondition = []
      · simp [advance, scheduleTaskStep, hwake] at hnone
      · obtain ⟨w, hw⟩ := List.exists_mem_of_ne_nil _ hwake
        have hnotify := hstuck.notifyOne_eq_none w htop
        simp [frameStep, hw] at hnotify
  | cancelTasksOfTag tag pc => exact (hcancel.no_frame _ _ hmem).elim
  | waitForScheduleCompletion s pc =>
    cases pc with
    | check =>
      simp only [advance, waitForScheduleCompletionStep] at hnone
      split_ifs at hnone
    | dequeue =>
      simp [advance, waitForScheduleCompletionStep, hlock] at hnone
      split at hnone <;> cases hnone
    | reload =>
      simp only [advance, waitForScheduleCompletionStep] at hnone
      split_ifs at hnone
    | compare v =>
      simp only [advance, waitForScheduleCompletionStep] at hnone
      split_ifs at hnone
    | blocked v =>
      simp only [advance, waitForScheduleCompletionStep] at hnone
      split_ifs at hnone with hwaits
      exact .inr ⟨s, v, rfl, hwaits⟩
  | scheduleWorkerLoop w pc =>
    cases pc with
    | head =>
      simp only [advance, scheduleWorkerLoopStep] at hnone
      split_ifs at hnone
    | lock => simp [advance, scheduleWorkerLoopStep, hlock] at hnone
    | predicate =>
      simp only [advance, scheduleWorkerLoopStep] at hnone
      split_ifs at hnone
    | block => cases hnone
    | asleep =>
      simp [advance, scheduleWorkerLoopStep, hlock] at hnone
      exact .inl ⟨w, rfl, hnone⟩
    | dequeue =>
      simp only [advance, scheduleWorkerLoopStep] at hnone
      split_ifs at hnone
      split at hnone <;> cases hnone
  | foundTask t => cases hnone
  | notifyAll s => cases hnone
  | terminateScheduler pc => exact (h.serving.no_terminate _ hmem).elim

/-- Every frame of a stuck state is resting, asleep or blocked in a wait. -/
theorem Stuck.frame (hstuck : Stuck γ) (hworkers : 0 < workers) (h : Stacks workers γ)
    (hcancel : NoCancel γ.shared γ.frames) {g : Frame} (hg : g ∈ γ.frames) :
    g.resting = true ∨ (∃ w, g = .scheduleWorkerLoop w .asleep) ∨
      ∃ s v, g = .waitForScheduleCompletion s (.blocked v) := by
  obtain ⟨j, stack, hget, hmem⟩ := Config.mem_frames.mp hg
  cases stack with
  | nil => cases hmem
  | cons top below =>
    obtain rfl | hbelow := List.mem_cons.mp hmem
    · rcases hstuck.top hworkers h hcancel hget with ⟨w, rfl, -⟩ | ⟨s, v, rfl, -⟩
      · exact .inr (.inl ⟨w, rfl⟩)
      · exact .inr (.inr ⟨s, v, rfl⟩)
    · exact .inl ((h.stackOk j _ hget).resting g hbelow)

/-- With empty queues, the tasks a stuck state still owes are running. -/
theorem Stuck.running_of_outstanding (hstuck : Stuck γ) (hworkers : 0 < workers)
    (h : Stacks workers γ) (hcancel : NoCancel γ.shared γ.frames) (hqueued : γ.shared.queued = [])
    {t : ScheduledTask} (ht : t ∈ (books γ.shared γ.frames).outstanding) :
    .foundTask t ∈ γ.frames := by
  have hentering : tasksOf Frame.entering γ.frames = 0 := by
    refine tasksOf_eq_zero fun g hg => ?_
    rcases hstuck.frame hworkers h hcancel hg with hrest | ⟨w, rfl⟩ | ⟨s, v, rfl⟩
    · unfold Frame.entering
      split
      · cases hrest
      · rfl
    · rfl
    · rfl
  have hwaiting :
      (γ.shared.queued : Multiset ScheduledTask) - tasksOf Frame.countedOff γ.frames = 0 := by
    rw [hqueued]
    exact Multiset.le_zero.mp (Multiset.sub_le_self _ _)
  rw [Books.outstanding, books, hentering, hwaiting, zero_add, zero_add] at ht
  obtain ⟨g, hg, htg⟩ := mem_tasksOf.mp (show t ∈ tasksOf Frame.running γ.frames from ht)
  unfold Frame.running at htg
  split at htg
  · obtain rfl := List.mem_singleton.mp htg
    exact hg
  · cases htg

/-- With empty queues, every running task of a stuck state is blocked by another one. -/
theorem Stuck.blockedBy (hstuck : Stuck γ) (hworkers : 0 < workers)
    (h : Stacks workers γ) (hcancel : NoCancel γ.shared γ.frames) (hqueued : γ.shared.queued = [])
    {x : ScheduledTask} (hx : .foundTask x ∈ γ.frames) :
    ∃ y, .foundTask y ∈ γ.frames ∧ BlockedBy γ x y := by
  obtain ⟨i, stack, hget, hmem⟩ := Config.mem_frames.mp hx
  have hrunning : x ∈ stack.flatMap Frame.running :=
    List.mem_flatMap.mpr ⟨_, hmem, List.mem_singleton_self x⟩
  obtain ⟨above, below, hsplit⟩ := List.append_of_mem hrunning
  -- `x` is the topmost task of its thread, whose wait blocks it, or another was stacked on it.
  rcases List.eq_nil_or_concat above with rfl | ⟨above, y, rfl⟩
  · cases stack with
    | nil => cases hmem
    | cons top rest =>
      rcases hstuck.top hworkers h hcancel hget with ⟨w, rfl, -⟩ | ⟨s, v, rfl, hwaits⟩
      · obtain ⟨-, -, rfl⟩ := (h.stackOk i _ hget).worker_top
        simp at hmem
      · have hout : (books γ.shared γ.frames).outstandingOn s ≠ 0 := by
          rcases h.blocking.waiting i s hwaits with hout | hnotify
          · exact hout
          · rcases hstuck.frame hworkers h hcancel hnotify with hrest | ⟨w, hw⟩ | ⟨s, v, hv⟩
            · cases hrest
            · cases hw
            · cases hv
        obtain ⟨y, hy⟩ := Multiset.exists_mem_of_ne_zero hout
        exact ⟨y, hstuck.running_of_outstanding hworkers h hcancel hqueued
          (Multiset.mem_filter.mp hy).1, .waits i s v rest below hget hsplit hy⟩
  · refine ⟨y, ?_, .stacked i stack above below hget (by simpa using hsplit)⟩
    have hy : y ∈ stack.flatMap Frame.running := by
      rw [hsplit]
      simp
    obtain ⟨g, hg, hyg⟩ := List.mem_flatMap.mp hy
    unfold Frame.running at hyg
    split at hyg
    · obtain rfl := List.mem_singleton.mp hyg
      exact Config.mem_frames.mpr ⟨i, stack, hget, hg⟩
    · cases hyg

/-- With a task queued, a stuck state has no helper left. -/
theorem Stuck.unhelped (hstuck : Stuck γ) (hworkers : 0 < workers)
    (h : Stacks workers γ) (hwatched : Watched workers γ) (hlooked : Looked workers γ)
    (hlength : γ.threads.length = workers + 1) (hcancel : NoCancel γ.shared γ.frames)
    (hqueued : γ.shared.queued ≠ []) : Unhelped workers γ := by
  have hpast : ∀ (i : ℕ) (f : Frame) (rest : List Frame), γ.threads[i]? = some (f :: rest) →
      f.pastLook γ.shared := by
    intro i f rest hget
    rcases hstuck.top hworkers h hcancel hget with ⟨w, rfl, hw⟩ | ⟨s, v, rfl, -⟩
    · exact hw
    · trivial
  have hnotAlert : ∀ i, ¬ Alert γ i := by
    rintro i ⟨f, rest, hget, hf⟩
    exact hf (hpast i f rest hget)
  -- Nobody is asleep on the condition: a sleeper would leave somebody alert or about to notify.
  have hwake : γ.shared.wakeCondition = [] := by
    by_contra hwake
    rcases hwatched hqueued hwake with ⟨i, -, halert⟩ | ⟨i, rest, hget⟩
    · exact hnotAlert i halert
    · exact hpast i _ rest hget
  refine ⟨hqueued, ?_, fun i hi => ?_⟩
  · have hmain : γ.threads[workers]? = some γ.threads[workers] :=
      List.getElem?_eq_getElem (by omega)
    cases hstack : γ.threads[workers] with
    | nil => rw [hmain, hstack]
    | cons f rest =>
      rw [hstack] at hmain
      obtain ⟨j, -, halert⟩ := hlooked hqueued ⟨f, rest, hmain, hpast _ f rest hmain⟩
      exact (hnotAlert j halert).elim
  · have hlt : i < γ.threads.length := by omega
    have hget : γ.threads[i]? = some γ.threads[i] := List.getElem?_eq_getElem hlt
    obtain ⟨upper, pc, hstack, -⟩ := (h.stackOk i _ hget).worker hi
    cases hcons : γ.threads[i] with
    | nil => rw [hcons] at hstack; simp at hstack
    | cons f rest =>
      rw [hcons] at hget
      rcases hstuck.top hworkers h hcancel hget with ⟨w, rfl, hw⟩ | ⟨s, v, rfl, -⟩
      · rw [hwake] at hw
        cases hw
      · exact ⟨s, v, rest, hget⟩

theorem running_finite (γ : Config Shared Frame) :
    {x : ScheduledTask | Frame.foundTask x ∈ γ.frames}.Finite := by
  refine (tasksOf Frame.running γ.frames).toFinset.finite_toSet.subset fun x hx => ?_
  rw [Finset.mem_coe, Multiset.mem_toFinset, mem_tasksOf]
  exact ⟨_, hx, List.mem_singleton_self x⟩

/-- **Helping waits and deadlock.**  With one main thread, at least one worker, no cancellation and
no termination: while some task is unfinished, some thread has an enabled step, unless tasks block
each other in a circle, by waits or by having been stacked, or a task is queued with the main thread
ended and every worker blocked in a nested wait. -/
theorem helping_waits_progress (hworkers : 0 < workers) {main : Program}
    (hrun : RunWhere frameStep (fun _ f => f.callsTerminate = false ∧ f.callsCancel = false)
      (start workers [main]) γ)
    (hunfinished : ∃ t ∈ γ.shared.issued, t ∉ γ.shared.finished) :
    (∃ i move, move ≠ .spurious ∧ (step frameStep i move γ).isSome) ∨
      (∃ x, Relation.TransGen (BlockedBy γ) x x) ∨ Unhelped workers γ := by
  obtain ⟨h, hwatched⟩ := stacks_and_watched (hrun.mono fun _ _ hC => hC.1)
  obtain ⟨hlooked, hlength, -⟩ :
      Looked workers γ ∧ γ.threads.length = workers + 1 ∧ Stacks workers γ :=
    RunWhere.invariant
      (I := fun γ => Looked workers γ ∧ γ.threads.length = workers + 1 ∧ Stacks workers γ) hrun
      (fun _ _ _ _ _ _ _ htop hC hP hI =>
        ⟨hI.1.step hI.2.2 hI.2.1 htop (frameStep_transition hP), by
          rw [List.length_set]
          exact hI.2.1, hI.2.2.step htop hC.1 (frameStep_transition hP)⟩)
      ⟨fun hqueued => (hqueued rfl).elim, by simp [start], Stacks.start workers [main]⟩
  have hcancel : NoCancel γ.shared γ.frames :=
    RunWhere.bag (I := NoCancel) hrun
      (fun _ _ _ _ _ _ _ hC _ hP hI => hI.transition hC.2 (frameStep_transition hP))
      (NoCancel.start workers [main])
  by_cases hstuck : Stuck γ
  · right
    by_cases hqueued : γ.shared.queued = []
    · left
      obtain ⟨t, ht, hunfinished⟩ := hunfinished
      have hout : t ∈ (books γ.shared γ.frames).outstanding := by
        have hmem : t ∈ (γ.shared.issued : Multiset ScheduledTask) := ht
        rw [← h.ledger.outstanding_add, hcancel.cancelled_eq] at hmem
        simpa [hunfinished] using hmem
      obtain ⟨x, -, hx⟩ := exists_cycle (r := BlockedBy γ) (running_finite γ)
        ⟨t, hstuck.running_of_outstanding hworkers h hcancel hqueued hout⟩
        fun x hx => hstuck.blockedBy hworkers h hcancel hqueued hx
      exact ⟨x, hx⟩
    · exact .inr (hstuck.unhelped hworkers h hwatched hlooked hlength hcancel hqueued)
  · left
    unfold Stuck at hstuck
    push Not at hstuck
    obtain ⟨i, move, hmove, hstep⟩ := hstuck
    exact ⟨i, move, hmove, Option.isSome_iff_ne_none.mpr hstep⟩

end

/-- A task is queued and nobody has looked at it yet. -/
theorem helping_waits_progress_queued :
    let γ := playWhere frameStep (fun _ f => f.callsTerminate = false ∧ f.callsCancel = false)
      ([1, 1, 1, 1, 1].map fun i => (i, .advance))
      (start 1 [.scheduleTask 7 1 .normal .finish .finish])
    (∃ i move, move ≠ .spurious ∧ (step frameStep i move γ).isSome) ∨
      (∃ x, Relation.TransGen (BlockedBy γ) x x) ∨ Unhelped 1 γ :=
  helping_waits_progress (by decide) (run_playWhere _ _)
    ⟨⟨0, 7, 1, .finish⟩, by decide, by decide⟩

/-! ### Acyclic programs that get stuck -/

namespace Program

/-- The tasks that a program schedules, and those that they schedule, with their schedules. -/
def tasks : Program → List (ℕ × Program)
  | .finish => []
  | .scheduleTask _ schedule _ task rest => (schedule, task) :: task.tasks ++ rest.tasks
  | .cancelTasksOfTag _ rest => rest.tasks
  | .waitForScheduleCompletion _ rest => rest.tasks
  | .terminateScheduler rest => rest.tasks

/-- The schedules that a program waits on. -/
def waitsOn : Program → List ℕ
  | .finish => []
  | .scheduleTask _ _ _ _ rest => rest.waitsOn
  | .cancelTasksOfTag _ rest => rest.waitsOn
  | .waitForScheduleCompletion schedule rest => schedule :: rest.waitsOn
  | .terminateScheduler rest => rest.waitsOn

/-- A task waits for the tasks of the schedules that it waits on. -/
def WaitsFor (main : Program) (x y : ℕ × Program) : Prop :=
  x ∈ main.tasks ∧ y ∈ main.tasks ∧ y.1 ∈ x.2.waitsOn

/-- No task waits for itself, directly or through others. -/
def Acyclic (main : Program) : Prop := ∀ x, ¬ Relation.TransGen main.WaitsFor x x

/-- A ranking of the schedules that every wait goes down. -/
theorem acyclic_of_rank {main : Program} (rank : ℕ → ℕ)
    (h : ∀ x ∈ main.tasks, ∀ s ∈ x.2.waitsOn, rank s < rank x.1) : main.Acyclic := by
  have hdown : ∀ x y, Relation.TransGen main.WaitsFor x y → rank y.1 < rank x.1 := by
    intro x y hxy
    induction hxy with
    | single hxy => exact h x hxy.1 _ hxy.2.2
    | tail _ hyz ih => exact (h _ hyz.1 _ hyz.2.2).trans ih
  exact fun x hx => (hdown x x hx).false

end Program

/-- One worker, blocked in a wait. -/
theorem stuck_of_blocked {γ : Config Shared Frame} {s v : ℕ} {rest : List Frame}
    (hthreads : γ.threads = [.waitForScheduleCompletion s (.blocked v) :: rest, []])
    (hwaits : 0 ∈ γ.shared.waiters s) : Stuck γ := by
  intro i move hmove
  match i, move with
  | 0, .advance =>
    simp [step, hthreads, frameStep, advance, waitForScheduleCompletionStep, hwaits]
  | 0, .notifyOne w => simp [step, hthreads, frameStep]
  | _, .spurious => exact (hmove rfl).elim
  | 1, .advance => simp [step, hthreads]
  | 1, .notifyOne w => simp [step, hthreads]
  | i + 2, .advance => simp [step, hthreads]
  | i + 2, .notifyOne w => simp [step, hthreads]

/-- The first task waits for the third one, and the second task for the first one: the worker runs
them on top of each other, and the second one waits for what lies below it. -/
def stackedProgram : Program :=
  .scheduleTask 7 1 .normal (.waitForScheduleCompletion 2 .finish)
    (.scheduleTask 7 3 .normal (.waitForScheduleCompletion 1 .finish)
      (.scheduleTask 7 2 .normal .finish .finish))

/-- The first task waits for the second one, which is enqueued after the worker has blocked. -/
def unhelpedProgram : Program :=
  .scheduleTask 7 1 .normal (.waitForScheduleCompletion 2 .finish)
    (.scheduleTask 7 2 .normal .finish .finish)

/-- A stuck state of an acyclic program, with a task unfinished. -/
structure Deadlocked (workers : ℕ) (main : Program) (γ : Config Shared Frame) : Prop where
  acyclic : main.Acyclic
  reachable : Reachable workers [main] γ
  stuck : Stuck γ
  unfinished : ∃ t ∈ γ.shared.issued, t ∉ γ.shared.finished

theorem stackedProgram_deadlocked : ∃ γ, Deadlocked 1 stackedProgram γ ∧ ¬ Unhelped 1 γ := by
  have hacyclic : stackedProgram.Acyclic :=
    Program.acyclic_of_rank (fun s => if s = 3 then 2 else if s = 1 then 1 else 0) (by decide)
  obtain ⟨γ, hrun, hthreads, hwaits, hqueued, hissued, hfinished⟩ : ∃ γ,
      Reachable 1 [stackedProgram] γ ∧
      γ.threads = [[.waitForScheduleCompletion 1 (.blocked 1), .code .finish,
        .foundTask ⟨1, 7, 3, .waitForScheduleCompletion 1 .finish⟩,
        .waitForScheduleCompletion 2 .check, .code .finish,
        .foundTask ⟨0, 7, 1, .waitForScheduleCompletion 2 .finish⟩,
        .scheduleWorkerLoop 0 .head], []] ∧
      0 ∈ γ.shared.waiters 1 ∧ γ.shared.queued = [] ∧
      ⟨0, 7, 1, .waitForScheduleCompletion 2 .finish⟩ ∈ γ.shared.issued ∧
      γ.shared.finished = [⟨2, 7, 2, .finish⟩] :=
    ⟨play frameStep ((List.replicate 13 1 ++ List.replicate 17 0).map fun i => (i, .advance))
      (start 1 [stackedProgram]), run_play _ _, by decide, by decide, by decide, by decide,
      by decide⟩
  exact ⟨γ, ⟨hacyclic, hrun, stuck_of_blocked hthreads hwaits, _, hissued, by simp [hfinished]⟩,
    fun h => h.queued hqueued⟩

theorem unhelpedProgram_deadlocked : ∃ γ, Deadlocked 1 unhelpedProgram γ ∧
    ∀ x, ¬ Relation.TransGen (BlockedBy γ) x x := by
  have hacyclic : unhelpedProgram.Acyclic :=
    Program.acyclic_of_rank (fun s => if s = 1 then 1 else 0) (by decide)
  obtain ⟨γ, hrun, hthreads, hwaits, hout, hissued, hfinished⟩ : ∃ γ,
      Reachable 1 [unhelpedProgram] γ ∧
      γ.threads = [[.waitForScheduleCompletion 2 (.blocked 1), .code .finish,
        .foundTask ⟨0, 7, 1, .waitForScheduleCompletion 2 .finish⟩,
        .scheduleWorkerLoop 0 .head], []] ∧
      0 ∈ γ.shared.waiters 2 ∧ outstanding γ 2 = {⟨1, 7, 2, .finish⟩} ∧
      ⟨1, 7, 2, .finish⟩ ∈ γ.shared.issued ∧ γ.shared.finished = [] :=
    ⟨play frameStep
      ((List.replicate 6 1 ++ List.replicate 10 0 ++ List.replicate 3 1).map fun i => (i, .advance))
      (start 1 [unhelpedProgram]), run_play _ _, by decide, by decide, by decide, by decide,
      by decide⟩
  have hup : ∀ x y, BlockedBy γ x y → x.id < y.id := by
    intro x y hxy
    cases hxy with
    | stacked i stack above below hget hrunning =>
      rw [hthreads] at hget
      have hlength := congrArg List.length hrunning
      match i with
      | 0 =>
        obtain rfl := Option.some.inj hget
        simp at hlength
        omega
      | 1 =>
        obtain rfl := Option.some.inj hget
        simp at hlength
    | waits i s v rest below hget hrunning hy =>
      rw [hthreads] at hget
      match i with
      | 0 =>
        obtain ⟨hf, rfl⟩ := List.cons.inj (Option.some.inj hget)
        obtain ⟨rfl, -⟩ := Frame.waitForScheduleCompletion.inj hf
        rw [hout, Multiset.mem_singleton] at hy
        obtain ⟨rfl, -⟩ := List.cons.inj hrunning
        rw [hy]
        decide
      | 1 => simp at hget
      | i + 2 => simp at hget
  refine ⟨γ, ⟨hacyclic, hrun, stuck_of_blocked hthreads hwaits, _, hissued, by simp [hfinished]⟩,
    fun x hx => ?_⟩
  have hlt : ∀ y, Relation.TransGen (BlockedBy γ) x y → x.id < y.id := by
    intro y hxy
    induction hxy with
    | single h => exact hup _ _ h
    | tail _ h ih => exact ih.trans (hup _ _ h)
  exact (hlt x hx).false

/-- Acyclic programs deadlock in either way. -/
theorem acyclic_deadlocks :
    (∃ main γ, Deadlocked 1 main γ ∧ ¬ Unhelped 1 γ) ∧
      ∃ main γ, Deadlocked 1 main γ ∧ ∀ x, ¬ Relation.TransGen (BlockedBy γ) x x :=
  ⟨⟨_, stackedProgram_deadlocked⟩, ⟨_, unhelpedProgram_deadlocked⟩⟩

end AsyncOps

end IACore
