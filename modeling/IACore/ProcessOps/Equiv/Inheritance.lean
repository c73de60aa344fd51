import IACore.ProcessOps.Equiv.Spawn
import IACore.ProcessOps.Handle

/-!
# Which processes a call waits for

The read loop of a call ends when every process with the other end of its pipe has closed it.  A
child inherits what its parent has open, so a `fork` by another call between `pipe` and
`close(pipefd[1])` hands the end to a process that may run for as long as it likes: the pipes stay
private exactly when no call forks there (`private_throughout_iff`).
-/

namespace IACore

namespace ProcessOps

open EventRun Kernel

variable {κ κ' : Kernel} {call call' : SpawnCall} {action : SpawnCall.Action} {p n i : ℕ}

namespace Stage

theorem awaits.pipefd {stage : Stage} (h : stage.awaits p) : stage.pipefd = some p := by
  cases stage with
  | fork q => exact congrArg some h
  | store q n => exact congrArg some h
  | closeWrite q n => exact congrArg some h
  | read q n => exact congrArg some h
  | _ => exact h.elim

/-- The call that has the end for writing open is exposed, or has failed to fork. -/
theorem exposed_of_held {stage : Stage} (h : .write p ∈ stage.held) (hawaits : stage.awaits p) :
    stage.exposed = true := by
  cases stage with
  | fork q => rfl
  | store q n => rfl
  | closeWrite q n => rfl
  | read q n => simp [held] at h
  | _ => exact hawaits.elim

theorem held_of_exposed {stage : Stage} (h : stage.exposed = true) :
    ∃ p, .write p ∈ stage.held ∧ stage.awaits p := by
  cases stage with
  | fork q => exact ⟨q, by simp [held], rfl⟩
  | store q n => exact ⟨q, by simp [held], rfl⟩
  | closeWrite q n => exact ⟨q, by simp [held], rfl⟩
  | _ => exact Bool.noConfusion h

end Stage

/-! ### Steps -/

/-- The processes have not got hold of more. -/
def Narrower (κ κ' : Kernel) : Prop :=
  ∀ process' ∈ κ'.processes, ∃ process ∈ κ.processes,
    process'.call = process.call ∧ process'.ends ⊆ process.ends

theorem Narrower.set_process {process process' : Process}
    (hprocess : κ.processes[n]? = some process)
    (hcall : process'.call = process.call) (hends : process'.ends ⊆ process.ends) :
    Narrower κ { κ with processes := κ.processes.set n process' } := by
  intro other hother
  rcases List.mem_or_eq_of_mem_set hother with hother | rfl
  · exact ⟨other, hother, rfl, List.Subset.refl _⟩
  · exact ⟨process, List.mem_of_getElem? hprocess, hcall, hends⟩

/-- A process passes on what it has to the processes that it forks, which count as its call's. -/
theorem deed_narrower {deed : Deed} (hdeed : κ.deed n deed = some κ') : Narrower κ κ' := by
  cases deed with
  | write q data =>
    obtain ⟨process, hrunning, hdeed⟩ := Option.bind_eq_some_iff.mp hdeed
    obtain ⟨pipe, hpipe, hdeed⟩ := Option.bind_eq_some_iff.mp hdeed
    obtain ⟨hmem, hdeed⟩ := Option.ite_none_right_eq_some.mp hdeed
    obtain rfl := Option.some.inj hdeed
    exact fun other hother => ⟨other, hother, rfl, List.Subset.refl _⟩
  | close fd =>
    obtain ⟨process, hrunning, hdeed⟩ := Option.bind_eq_some_iff.mp hdeed
    obtain rfl := Option.some.inj hdeed
    exact Narrower.set_process (running_eq_some hrunning).1 rfl List.erase_subset
  | fork =>
    obtain ⟨process, hrunning, hdeed⟩ := Option.bind_eq_some_iff.mp hdeed
    obtain rfl := Option.some.inj hdeed
    intro other hother
    rcases List.mem_append.mp hother with hother | hother
    · exact ⟨other, hother, rfl, List.Subset.refl _⟩
    · rw [List.mem_singleton.mp hother]
      exact ⟨process, List.mem_of_getElem? (running_eq_some hrunning).1, rfl, List.Subset.refl _⟩
  | exit status =>
    obtain ⟨process, hrunning, hdeed⟩ := Option.bind_eq_some_iff.mp hdeed
    obtain rfl := Option.some.inj hdeed
    exact Narrower.set_process (running_eq_some hrunning).1 rfl (List.nil_subset _)

namespace Moves

/-- Only a `fork` starts a process, and only `pipe` has a call wait for a pipe that it did not wait
for before. -/
theorem processes (h : Moves κ i call action κ' call') :
    (action ≠ .fork true ∧ κ'.processes = κ.processes ∧
      ∀ p, call'.stage.awaits p → call.stage.awaits p ∨ p = κ.pipes.length) ∨
    action = .fork true ∧ ∃ p, call.stage = .fork p ∧
      κ' = κ.fork i p (argv call.command call.args) ∧
      call' = { call with stage := .store p κ.processes.length } := by
  cases h with
  | pipe hstage => exact .inl ⟨nofun, rfl, fun p hp => .inr hp.symm⟩
  | fork hstage => exact .inr ⟨rfl, _, hstage, rfl, rfl⟩
  | readSome hstage hpipe hle => exact .inl ⟨nofun, rfl, fun p hp => .inl hp⟩
  | store hstage => exact .inl ⟨nofun, rfl, fun p hp => .inl (by rw [hstage]; exact hp)⟩
  | closeWrite hstage => exact .inl ⟨nofun, rfl, fun p hp => .inl (by rw [hstage]; exact hp)⟩
  | _ => exact .inl ⟨nofun, rfl, fun p hp => hp.elim⟩

end Moves

namespace Spawns

variable {σ σ' : Spawns} {event : Event} {events past : List Event}

theorem Private.narrower (h : Private σ) (hnarrower : Narrower σ.kernel κ') :
    Private { σ with kernel := κ' } := by
  intro process' hprocess' p hp i call hcall hawaits
  obtain ⟨process, hprocess, howner, hends⟩ := hnarrower process' hprocess'
  rw [howner]
  exact h process hprocess p (hends hp) i call hcall hawaits

/-- A child gets the ends that are open in the program, and is private exactly if no other call is
exposed. -/
theorem Private.fork_iff (hfits : Fits past σ) (h : Private σ) (hcall : σ.calls[i]? = some call)
    (hstage : call.stage = .fork p) :
    Private ⟨σ.kernel.fork i p (argv call.command call.args),
      σ.calls.set i { call with stage := .store p σ.kernel.processes.length }⟩ ↔
      Apart σ (.act i (.fork true)) := by
  -- the calls wait for the pipes that they waited for before
  have hcalls : ∀ (j : ℕ) (c : SpawnCall) (q : ℕ),
      (σ.calls.set i { call with stage := .store p σ.kernel.processes.length })[j]? = some c →
      c.stage.awaits q → ∃ c', σ.calls[j]? = some c' ∧ c'.stage.awaits q := by
    intro j c q hc hawaits
    rcases (getElem?_set hcall).mp hc with ⟨rfl, rfl⟩ | ⟨-, hc⟩
    · exact ⟨call, hcall, by rw [hstage]; exact hawaits⟩
    · exact ⟨c, hc, hawaits⟩
  constructor
  · intro hprivate j c hc hexposed
    obtain ⟨q, hheld, hawaits⟩ := Stage.held_of_exposed hexposed
    by_contra hj
    have hpq : q ≠ p := by
      rintro rfl
      have hfork : call.stage.pipefd = some q := by rw [hstage]; rfl
      exact hj (hfits.distinct j i c call q hc hcall hawaits.pipefd hfork)
    have hchild : PipeEnd.write q ∈ childEnds σ.kernel.ends p := by
      have hopen : PipeEnd.write q ∈ σ.kernel.ends := (hfits.held _).mpr ⟨j, c, hc, hheld⟩
      have hread : PipeEnd.write q ≠ .read p := by rintro ⟨⟩
      have hwrite : PipeEnd.write q ≠ .write p := by
        intro heq
        exact hpq (PipeEnd.write.inj heq)
      exact List.mem_cons_of_mem _ (List.mem_cons_of_mem _
        ((List.mem_erase_of_ne hwrite).mpr ((List.mem_erase_of_ne hread).mpr hopen)))
    have hmem : (⟨i, argv call.command call.args, childEnds σ.kernel.ends p, none⟩ : Process) ∈
        (σ.kernel.fork i p (argv call.command call.args)).processes :=
      List.mem_append_right _ (List.mem_singleton_self _)
    exact hj (hprivate _ hmem q hchild j c ((getElem?_set hcall).mpr (.inr ⟨hj, hc⟩)) hawaits).symm
  · intro hapart process hprocess q hq j c hc hawaits
    obtain ⟨c', hc', hawaits'⟩ := hcalls j c q hc hawaits
    rcases List.mem_append.mp hprocess with hprocess | hprocess
    · exact h process hprocess q hq j c' hc' hawaits'
    · rw [List.mem_singleton.mp hprocess] at hq ⊢
      show i = j
      rcases mem_childEnds hq with heq | hopen
      · -- its own pipe
        obtain rfl := PipeEnd.write.inj heq
        have hfork : call.stage.pipefd = some q := by rw [hstage]; rfl
        exact hfits.distinct i j call c' q hcall hc' hfork hawaits'.pipefd
      · -- a pipe of which a call has the end for writing open
        obtain ⟨k, c'', hc'', hheld⟩ := (hfits.held _).mp hopen
        obtain rfl := hfits.distinct k j c'' c' q hc'' hc' (Stage.pipefd_of_mem_held hheld)
          hawaits'.pipefd
        obtain rfl := Option.some.inj (hc'.symm.trans hc'')
        exact (hapart k c' hc' (Stage.exposed_of_held hheld hawaits')).symm

/-- **From a state with private pipes a step leads to one exactly if it keeps apart.** -/
theorem Private.step_iff (hfits : Fits past σ) (h : Private σ) (hstep : σ.step event = some σ') :
    Private σ' ↔ Apart σ event := by
  cases event with
  | call command args =>
    obtain rfl := Option.some.inj hstep
    refine iff_of_true ?_ trivial
    intro process hprocess p hp i c hc hawaits
    rcases getElem?_append.mp hc with ⟨-, rfl⟩ | hc
    · exact hawaits.elim
    · exact h process hprocess p hp i c hc hawaits
  | deed n deed =>
    obtain ⟨κ', hdeed, rfl⟩ := deed_eq_some hstep
    exact iff_of_true (h.narrower (deed_narrower hdeed)) trivial
  | act i action =>
    obtain ⟨call, κ', call', hcall, hmoves, rfl⟩ := act_eq_some hstep
    obtain ⟨hother, hsame, hawaits⟩ | ⟨rfl, p, hstage, rfl, rfl⟩ := hmoves.processes
    · have hapart : Apart σ (.act i action) := by
        cases action with
        | fork ok =>
          cases ok
          · trivial
          · exact absurd rfl hother
        | _ => trivial
      refine iff_of_true ?_ hapart
      intro process hprocess p hp j c hc hc'
      rw [hsame] at hprocess
      rcases (getElem?_set hcall).mp hc with ⟨rfl, rfl⟩ | ⟨-, hc⟩
      · rcases hawaits p hc' with hold | rfl
        · exact h process hprocess p hp _ call hcall hold
        · -- nobody has a pipe that has only just been made
          exact absurd (hfits.tidy.process_lt process hprocess _ hp) (Nat.lt_irrefl _)
      · exact h process hprocess p hp j c hc hc'
    · exact h.fork_iff hfits hcall hstage

/-- The child of the second call has the pipe of the first one open, which therefore waits for it
after its own child has ended. -/
example : ∃ σ, run step start [.call (text "sh") [], .call (text "sh") [], .act 0 (.pipe true),
      .act 1 (.pipe true), .act 1 (.fork true), .act 0 (.fork true), .act 0 .advance,
      .act 0 .advance, .deed 1 (.exit (.exited 0))] = some σ ∧
    σ.kernel.processes.map Process.call = [1, 0] ∧
    (σ.calls[0]?.map SpawnCall.stage) = some (.read 0 1) ∧ σ.step (.act 0 (.read 0)) = none :=
  ⟨_, rfl, rfl, rfl, rfl⟩

end Spawns

end ProcessOps

end IACore
