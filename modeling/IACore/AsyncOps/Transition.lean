import IACore.AsyncOps

/-!
# The transitions of the scheduler

`Transition i σ f σ' fs` lists, branch by branch, what thread `i` can do with the frame `f` on top
of its stack; `frameStep_transition` reads it off the functions, and every invariant is proved by
cases on it.
-/

namespace IACore

open Interleaving

namespace AsyncOps

/-- One branch of one function: the accesses it makes and the frames it leaves. -/
inductive Transition (i : ℕ) (σ : Shared) : Frame → Shared → List Frame → Prop
  | finish : Transition i σ (.code .finish) σ []
  | callScheduleTask (tag schedule priority task rest) (h : σ.scheduleWorkers ≠ []) :
      Transition i σ (.code (.scheduleTask tag schedule priority task rest)) σ
        [.scheduleTask (.fetchAdd tag schedule priority task), .code rest]
  | callCancelTasksOfTag (tag rest) :
      Transition i σ (.code (.cancelTasksOfTag tag rest)) σ
        [.cancelTasksOfTag tag .lock, .code rest]
  | callWait (schedule rest) (h : σ.scheduleWorkers ≠ []) :
      Transition i σ (.code (.waitForScheduleCompletion schedule rest)) σ
        [.waitForScheduleCompletion schedule .check, .code rest]
  | callTerminate (rest) :
      Transition i σ (.code (.terminateScheduler rest)) σ
        [.terminateScheduler (.requestStop σ.scheduleWorkers), .code rest]
  | fetchAdd (tag schedule priority task t) (h : t = ⟨σ.issued.length, tag, schedule, task⟩) :
      Transition i σ (.scheduleTask (.fetchAdd tag schedule priority task)) (σ.fetchAdd t)
        [.scheduleTask (.enqueue t priority)]
  | enqueue (t priority) (h : σ.mutexLocked = false) :
      Transition i σ (.scheduleTask (.enqueue t priority))
        (σ.setQueue priority (σ.queue priority ++ [t])) [.scheduleTask .notifyOne]
  | notifyNone (h : σ.wakeCondition = []) : Transition i σ (.scheduleTask .notifyOne) σ []
  | notifyOne (worker) (h : worker ∈ σ.wakeCondition) :
      Transition i σ (.scheduleTask .notifyOne)
        { σ with wakeCondition := σ.wakeCondition.filter (· ≠ worker) } []
  | cancelLock (tag) (h : σ.mutexLocked = false) :
      Transition i σ (.cancelTasksOfTag tag .lock) { σ with mutexLocked := true }
        [.cancelTasksOfTag tag (.scan .high 0)]
  | cancelHit (tag queue it t) (h : (σ.queue queue)[it]? = some t) (htag : t.tag = tag) :
      Transition i σ (.cancelTasksOfTag tag (.scan queue it))
        { σ.fetchSub t.scheduleHandle with cancelled := σ.cancelled ++ [t] }
        (notifyIfLast (σ.counter t.scheduleHandle) t.scheduleHandle ++
          [.cancelTasksOfTag tag (.erase queue it t)])
  | cancelMiss (tag queue it t) (h : (σ.queue queue)[it]? = some t) (htag : t.tag ≠ tag) :
      Transition i σ (.cancelTasksOfTag tag (.scan queue it)) σ
        [.cancelTasksOfTag tag (.scan queue (it + 1))]
  | cancelNext (tag it) (h : (σ.queue .high)[it]? = none) :
      Transition i σ (.cancelTasksOfTag tag (.scan .high it)) σ
        [.cancelTasksOfTag tag (.scan .normal 0)]
  | cancelEnd (tag it) (h : (σ.queue .normal)[it]? = none) :
      Transition i σ (.cancelTasksOfTag tag (.scan .normal it)) { σ with mutexLocked := false } []
  | erase (tag queue it t) :
      Transition i σ (.cancelTasksOfTag tag (.erase queue it t))
        (σ.setQueue queue ((σ.queue queue).eraseIdx it)) [.cancelTasksOfTag tag (.scan queue it)]
  | checkOpen (schedule) (h : σ.counter schedule > 0) :
      Transition i σ (.waitForScheduleCompletion schedule .check) σ
        [.waitForScheduleCompletion schedule .dequeue]
  | checkOver (schedule) (h : ¬ σ.counter schedule > 0) :
      Transition i σ (.waitForScheduleCompletion schedule .check) σ []
  | helpFound (schedule t σ') (h : σ.mutexLocked = false) (hpop : σ.popFront = some (t, σ')) :
      Transition i σ (.waitForScheduleCompletion schedule .dequeue) σ'
        [.code t.task, .foundTask t, .waitForScheduleCompletion schedule .check]
  | helpNone (schedule) (h : σ.mutexLocked = false) (hpop : σ.popFront = none) :
      Transition i σ (.waitForScheduleCompletion schedule .dequeue) σ
        [.waitForScheduleCompletion schedule .reload]
  | reloadOpen (schedule v) (h : v = (σ.counter schedule % 4294967296).toNat) (hv : v > 0) :
      Transition i σ (.waitForScheduleCompletion schedule .reload) σ
        [.waitForScheduleCompletion schedule (.compare v)]
  | reloadOver (schedule) (h : ¬ (σ.counter schedule % 4294967296).toNat > 0) :
      Transition i σ (.waitForScheduleCompletion schedule .reload) σ
        [.waitForScheduleCompletion schedule .check]
  | compareSame (schedule v) (h : σ.counter schedule = i32 (v : ℕ)) :
      Transition i σ (.waitForScheduleCompletion schedule (.compare v))
        { σ with waiters := Function.update σ.waiters schedule (i :: σ.waiters schedule) }
        [.waitForScheduleCompletion schedule (.blocked v)]
  | compareChanged (schedule v) (h : σ.counter schedule ≠ i32 (v : ℕ)) :
      Transition i σ (.waitForScheduleCompletion schedule (.compare v)) σ
        [.waitForScheduleCompletion schedule .check]
  | wokenWaiter (schedule v) (h : i ∉ σ.waiters schedule) :
      Transition i σ (.waitForScheduleCompletion schedule (.blocked v)) σ
        [.waitForScheduleCompletion schedule (.compare v)]
  | spuriousWaiter (schedule v) :
      Transition i σ (.waitForScheduleCompletion schedule (.blocked v))
        { σ with
            waiters := Function.update σ.waiters schedule ((σ.waiters schedule).filter (· ≠ i)) }
        [.waitForScheduleCompletion schedule (.blocked v)]
  | headStop (worker) (h : worker ∈ σ.stopRequested) :
      Transition i σ (.scheduleWorkerLoop worker .head) (σ.leave worker) []
  | headGo (worker) (h : worker ∉ σ.stopRequested) :
      Transition i σ (.scheduleWorkerLoop worker .head) σ [.scheduleWorkerLoop worker .lock]
  | workerLock (worker) (h : σ.mutexLocked = false) :
      Transition i σ (.scheduleWorkerLoop worker .lock) { σ with mutexLocked := true }
        [.scheduleWorkerLoop worker .predicate]
  | predicateTrue (worker)
      (h : σ.highPriorityQueue ≠ [] ∨ σ.normalPriorityQueue ≠ [] ∨ worker ∈ σ.stopRequested) :
      Transition i σ (.scheduleWorkerLoop worker .predicate) σ
        [.scheduleWorkerLoop worker .dequeue]
  | predicateFalse (worker) (hhigh : σ.highPriorityQueue = [])
      (hnormal : σ.normalPriorityQueue = []) (hstop : worker ∉ σ.stopRequested) :
      Transition i σ (.scheduleWorkerLoop worker .predicate) σ [.scheduleWorkerLoop worker .block]
  | block (worker) :
      Transition i σ (.scheduleWorkerLoop worker .block)
        { σ with mutexLocked := false, wakeCondition := worker :: σ.wakeCondition }
        [.scheduleWorkerLoop worker .asleep]
  | wokenWorker (worker) (h : worker ∉ σ.wakeCondition) (hlock : σ.mutexLocked = false) :
      Transition i σ (.scheduleWorkerLoop worker .asleep) { σ with mutexLocked := true }
        [.scheduleWorkerLoop worker .predicate]
  | spuriousWorker (worker) :
      Transition i σ (.scheduleWorkerLoop worker .asleep)
        { σ with wakeCondition := σ.wakeCondition.filter (· ≠ worker) }
        [.scheduleWorkerLoop worker .asleep]
  | dequeueStop (worker) (h : worker ∈ σ.stopRequested) (hhigh : σ.highPriorityQueue = [])
      (hnormal : σ.normalPriorityQueue = []) :
      Transition i σ (.scheduleWorkerLoop worker .dequeue)
        { σ.leave worker with mutexLocked := false } []
  | dequeueFound (worker t σ') (hpop : σ.popFront = some (t, σ')) :
      Transition i σ (.scheduleWorkerLoop worker .dequeue) { σ' with mutexLocked := false }
        [.code t.task, .foundTask t, .scheduleWorkerLoop worker .head]
  | dequeueNone (worker) (hpop : σ.popFront = none) :
      Transition i σ (.scheduleWorkerLoop worker .dequeue) { σ with mutexLocked := false }
        [.scheduleWorkerLoop worker .head]
  | taskReturned (t) :
      Transition i σ (.foundTask t)
        { σ.fetchSub t.scheduleHandle with finished := σ.finished ++ [t] }
        (notifyIfLast (σ.counter t.scheduleHandle) t.scheduleHandle)
  | notifyAll (schedule) :
      Transition i σ (.notifyAll schedule)
        { σ with waiters := Function.update σ.waiters schedule [] } []
  | requestStop (worker workers) :
      Transition i σ (.terminateScheduler (.requestStop (worker :: workers)))
        { σ with stopRequested := worker :: σ.stopRequested }
        [.terminateScheduler (.requestStop workers)]
  | requestedStops :
      Transition i σ (.terminateScheduler (.requestStop [])) σ [.terminateScheduler .notifyAll]
  | terminateNotifyAll :
      Transition i σ (.terminateScheduler .notifyAll) { σ with wakeCondition := [] }
        [.terminateScheduler (.join σ.scheduleWorkers)]
  | join (worker workers) (h : worker ∈ σ.exited) :
      Transition i σ (.terminateScheduler (.join (worker :: workers))) σ
        [.terminateScheduler (.join workers)]
  | joined :
      Transition i σ (.terminateScheduler (.join [])) { σ with scheduleWorkers := [] } []

variable {i : ℕ} {σ σ' : Shared} {fs : List Frame}

/-- A branch answers the state and the frames that its transition leads to. -/
theorem Transition.of_some {f : Frame} {σ₁ : Shared} {fs₁ : List Frame}
    (ht : Transition i σ f σ₁ fs₁) (h : some (σ₁, fs₁) = some (σ', fs)) :
    Transition i σ f σ' fs := by
  obtain ⟨rfl, rfl⟩ := Prod.mk.inj (Option.some.inj h)
  exact ht

theorem codeStep_transition {p : Program} (h : codeStep σ p = some (σ', fs)) :
    Transition i σ (.code p) σ' fs := by
  cases p with
  | finish =>
    exact .of_some .finish h
  | scheduleTask tag schedule priority task rest =>
    rw [codeStep] at h
    split_ifs at h with hw
    exact .of_some (.callScheduleTask _ _ _ _ _ hw) h
  | cancelTasksOfTag tag rest =>
    exact .of_some (.callCancelTasksOfTag _ _) h
  | waitForScheduleCompletion schedule rest =>
    rw [codeStep] at h
    split_ifs at h with hw
    exact .of_some (.callWait _ _ hw) h
  | terminateScheduler rest =>
    exact .of_some (.callTerminate _) h

theorem scheduleTaskStep_transition {pc : SchedulePc}
    (h : scheduleTaskStep σ pc = some (σ', fs)) : Transition i σ (.scheduleTask pc) σ' fs := by
  cases pc with
  | fetchAdd tag schedule priority task =>
    exact .of_some (.fetchAdd _ _ _ _ _ rfl) h
  | enqueue t priority =>
    rw [scheduleTaskStep] at h
    split_ifs at h with hlock
    exact .of_some (.enqueue _ _ (by simpa using hlock)) h
  | notifyOne =>
    rw [scheduleTaskStep] at h
    split_ifs at h with hw
    exact .of_some (.notifyNone hw) h

theorem cancelTasksOfTagStep_transition {tag : UInt64} {pc : CancelPc}
    (h : cancelTasksOfTagStep σ tag pc = some (σ', fs)) :
    Transition i σ (.cancelTasksOfTag tag pc) σ' fs := by
  cases pc with
  | lock =>
    rw [cancelTasksOfTagStep] at h
    split_ifs at h with hlock
    exact .of_some (.cancelLock _ (by simpa using hlock)) h
  | scan queue it =>
    rw [cancelTasksOfTagStep.eq_def] at h
    dsimp only at h
    split at h
    · next t ht =>
      split_ifs at h with htag
      · exact .of_some (.cancelHit _ _ _ _ ht htag) h
      · exact .of_some (.cancelMiss _ _ _ _ ht htag) h
    · next hnone =>
      cases queue with
      | high =>
        exact .of_some (.cancelNext _ _ hnone) h
      | normal =>
        exact .of_some (.cancelEnd _ _ hnone) h
  | erase queue it t =>
    exact .of_some (.erase _ _ _ _) h

theorem waitForScheduleCompletionStep_transition {schedule : ℕ} {pc : WaitPc}
    (h : waitForScheduleCompletionStep i σ schedule pc = some (σ', fs)) :
    Transition i σ (.waitForScheduleCompletion schedule pc) σ' fs := by
  cases pc with
  | check =>
    rw [waitForScheduleCompletionStep] at h
    split_ifs at h with hcounter
    · exact .of_some (.checkOpen _ hcounter) h
    · exact .of_some (.checkOver _ hcounter) h
  | dequeue =>
    rw [waitForScheduleCompletionStep] at h
    split_ifs at h with hlock
    split at h
    · next t σ' hpop =>
      exact .of_some (.helpFound _ _ _ (by simpa using hlock) hpop) h
    · next hpop =>
      exact .of_some (.helpNone _ (by simpa using hlock) hpop) h
  | reload =>
    simp only [waitForScheduleCompletionStep] at h
    split_ifs at h with hv
    · exact .of_some (.reloadOpen _ _ rfl hv) h
    · exact .of_some (.reloadOver _ hv) h
  | compare v =>
    rw [waitForScheduleCompletionStep] at h
    split_ifs at h with hsame
    · exact .of_some (.compareSame _ _ hsame) h
    · exact .of_some (.compareChanged _ _ hsame) h
  | blocked v =>
    rw [waitForScheduleCompletionStep] at h
    split_ifs at h with hwaits
    exact .of_some (.wokenWaiter _ _ hwaits) h

theorem scheduleWorkerLoopStep_transition {worker : ℕ} {pc : WorkerPc}
    (h : scheduleWorkerLoopStep σ worker pc = some (σ', fs)) :
    Transition i σ (.scheduleWorkerLoop worker pc) σ' fs := by
  cases pc with
  | head =>
    rw [scheduleWorkerLoopStep] at h
    split_ifs at h with hstop
    · exact .of_some (.headStop _ hstop) h
    · exact .of_some (.headGo _ hstop) h
  | lock =>
    rw [scheduleWorkerLoopStep] at h
    split_ifs at h with hlock
    exact .of_some (.workerLock _ (by simpa using hlock)) h
  | predicate =>
    rw [scheduleWorkerLoopStep] at h
    split_ifs at h with hpred
    · exact .of_some (.predicateTrue _ hpred) h
    · push Not at hpred
      exact .of_some (.predicateFalse _ hpred.1 hpred.2.1 hpred.2.2) h
  | block =>
    exact .of_some (.block _) h
  | asleep =>
    rw [scheduleWorkerLoopStep] at h
    split_ifs at h with hblocked
    exact .of_some (.wokenWorker _ (fun hw => hblocked (.inl hw))
      (by simpa using fun hl => hblocked (.inr hl))) h
  | dequeue =>
    rw [scheduleWorkerLoopStep] at h
    split_ifs at h with hstop
    · exact .of_some (.dequeueStop _ hstop.1 hstop.2.1 hstop.2.2) h
    · split at h
      · next t σ' hpop =>
        exact .of_some (.dequeueFound _ _ _ hpop) h
      · next hpop =>
        exact .of_some (.dequeueNone _ hpop) h

theorem terminateSchedulerStep_transition {pc : TerminatePc}
    (h : terminateSchedulerStep σ pc = some (σ', fs)) :
    Transition i σ (.terminateScheduler pc) σ' fs := by
  match pc, h with
  | .requestStop [], h =>
    exact .of_some .requestedStops h
  | .requestStop (worker :: workers), h =>
    exact .of_some (.requestStop _ _) h
  | .notifyAll, h =>
    exact .of_some .terminateNotifyAll h
  | .join [], h =>
    exact .of_some .joined h
  | .join (worker :: workers), h =>
    rw [terminateSchedulerStep] at h
    split_ifs at h with hexited
    exact .of_some (.join _ _ hexited) h

/-- Every move of a thread is one of the transitions. -/
theorem frameStep_transition {move : Move} {f : Frame}
    (h : frameStep i move σ f = some (σ', fs)) : Transition i σ f σ' fs := by
  unfold frameStep at h
  split at h
  · cases f with
    | code p => exact codeStep_transition h
    | scheduleTask pc => exact scheduleTaskStep_transition h
    | cancelTasksOfTag tag pc => exact cancelTasksOfTagStep_transition h
    | waitForScheduleCompletion schedule pc => exact waitForScheduleCompletionStep_transition h
    | scheduleWorkerLoop worker pc => exact scheduleWorkerLoopStep_transition h
    | foundTask t =>
      exact .of_some (.taskReturned t) h
    | notifyAll schedule =>
      exact .of_some (.notifyAll schedule) h
    | terminateScheduler pc => exact terminateSchedulerStep_transition h
  · split_ifs at h with hw
    exact .of_some (.notifyOne _ hw) h
  · exact .of_some (.spuriousWorker _) h
  · exact .of_some (.spuriousWaiter _ _) h
  · cases h

@[simp] theorem mem_notifyIfLast {old : ℤ} {s : ℕ} {f : Frame} :
    f ∈ notifyIfLast old s ↔ old = 1 ∧ f = .notifyAll s := by
  unfold notifyIfLast
  split_ifs with h <;> simp [h]

/-- A frame of `terminate_scheduler` comes from the call of it or from the place before. -/
theorem Transition.terminating {f : Frame} {pc : TerminatePc} (ht : Transition i σ f σ' fs)
    (hmem : .terminateScheduler pc ∈ fs) :
    (∃ rest, f = .code (.terminateScheduler rest) ∧ pc = .requestStop σ.scheduleWorkers) ∨
    (∃ worker workers, f = .terminateScheduler (.requestStop (worker :: workers)) ∧
      pc = .requestStop workers ∧ σ'.stopRequested = worker :: σ.stopRequested) ∨
    (f = .terminateScheduler (.requestStop []) ∧ pc = .notifyAll) ∨
    (f = .terminateScheduler .notifyAll ∧ pc = .join σ.scheduleWorkers) ∨
    (∃ worker workers, f = .terminateScheduler (.join (worker :: workers)) ∧
      pc = .join workers ∧ worker ∈ σ.exited) := by
  cases ht <;> simp at hmem
  case callTerminate rest => exact .inl ⟨rest, rfl, hmem⟩
  case requestStop worker workers => exact .inr (.inl ⟨worker, workers, rfl, hmem, rfl⟩)
  case requestedStops => exact .inr (.inr (.inl ⟨rfl, hmem⟩))
  case terminateNotifyAll => exact .inr (.inr (.inr (.inl ⟨rfl, hmem⟩)))
  case join worker workers hexited =>
    exact .inr (.inr (.inr (.inr ⟨worker, workers, rfl, hmem, hexited⟩)))

end AsyncOps

end IACore
