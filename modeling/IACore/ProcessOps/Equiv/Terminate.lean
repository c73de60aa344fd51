import IACore.Library.EventRun
import IACore.ProcessOps.Terminate

/-!
# Which process is killed

A call that has loaded a process id passes it to `kill` whatever has happened since.  It kills its
own child exactly as long as `waitpid` does not return in between and the load does not fall between
`waitpid` and the store of zero (`harmless_throughout_iff`).  Neither check of `terminate_process`
excludes the two windows (`kill_after_reap`).
-/

namespace IACore

namespace ProcessOps

namespace Terminate

open EventRun State

variable {σ σ' : State} {call : Terminate} {event : Event} {i pid : ℕ}

/-! ### The handle -/

/-- What `id` holds at each point of the watcher. -/
def Stored (handle : ProcessHandle) : Prop :=
  match handle.watcher with
  | .watching pid => handle.id = pid ∧ pid ≠ 0
  | .reaped => handle.id ≠ 0
  | .forked pid => handle.id = 0 ∧ pid ≠ 0
  | _ => handle.id = 0

theorem step_handle (hstep : σ.step (.advance i) = some σ') : σ'.handle = σ.handle := by
  obtain ⟨c, -, hstep⟩ := Option.bind_eq_some_iff.mp hstep
  obtain ⟨⟨c', killed⟩, -, hstep⟩ := Option.bind_eq_some_iff.mp hstep
  obtain rfl := Option.some.inj hstep
  rfl

theorem fork_eq_some {child : Option ℕ} (hstep : σ.step (.fork child) = some σ') :
    σ.handle.watcher = .starting ∧ ∃ watcher, σ' = { σ with
      handle := { σ.handle with watcher := watcher } } ∧
      (watcher = .cleared ∨ ∃ pid, pid ≠ 0 ∧ watcher = .forked pid) := by
  obtain ⟨hchild, hstep⟩ := Option.ite_none_left_eq_some.mp hstep
  obtain ⟨handle, hfork, rfl⟩ := Option.map_eq_some_iff.mp hstep
  cases hwatcher : σ.handle.watcher with
  | starting =>
    cases child with
    | none =>
      simp only [ProcessHandle.fork, hwatcher, Option.some.injEq] at hfork
      exact ⟨rfl, _, hfork ▸ rfl, .inl rfl⟩
    | some pid =>
      simp only [ProcessHandle.fork, hwatcher, Option.some.injEq] at hfork
      exact ⟨rfl, _, hfork ▸ rfl, .inr ⟨pid, fun h => hchild (h ▸ rfl), rfl⟩⟩
  | _ => simp [ProcessHandle.fork, hwatcher] at hfork

theorem watch_eq_some (hstep : σ.step .watch = some σ') :
    ∃ handle, σ.handle.watch = some handle ∧ σ' = { σ with handle := handle } := by
  obtain ⟨handle, hwatch, rfl⟩ := Option.map_eq_some_iff.mp hstep
  exact ⟨handle, hwatch, rfl⟩

theorem advance_eq_some (hstep : σ.step (.advance i) = some σ') :
    ∃ call call' killed, σ.calls[i]? = some call ∧
      call.step σ.handle = some (call', killed) ∧ σ' = { σ with
        calls := σ.calls.set i call'
        kills := σ.kills ++ killed.toList.map fun pid => (pid, σ.handle.child) } := by
  obtain ⟨call, hcall, hstep⟩ := Option.bind_eq_some_iff.mp hstep
  obtain ⟨⟨call', killed⟩, hnext, hstep⟩ := Option.bind_eq_some_iff.mp hstep
  exact ⟨call, call', killed, hcall, hnext, (Option.some.inj hstep).symm⟩

theorem Stored.step (h : Stored σ.handle) (hstep : σ.step event = some σ') :
    Stored σ'.handle := by
  cases event with
  | fork child =>
    obtain ⟨hwatcher, watcher, rfl, hnew⟩ := fork_eq_some hstep
    simp only [Stored, hwatcher] at h
    rcases hnew with rfl | ⟨pid, hpid, rfl⟩
    · exact h
    · exact ⟨h, hpid⟩
  | watch =>
    obtain ⟨handle, hwatch, rfl⟩ := watch_eq_some hstep
    cases hwatcher : σ.handle.watcher with
    | starting => simp [ProcessHandle.watch, hwatcher] at hwatch
    | finished => simp [ProcessHandle.watch, hwatcher] at hwatch
    | forked pid =>
      simp only [Stored, hwatcher] at h
      simp only [ProcessHandle.watch, hwatcher, Option.some.injEq] at hwatch
      exact hwatch ▸ ⟨rfl, h.2⟩
    | watching pid =>
      simp only [Stored, hwatcher] at h
      simp only [ProcessHandle.watch, hwatcher, Option.some.injEq] at hwatch
      subst hwatch
      exact h.1.symm ▸ h.2
    | reaped =>
      simp only [ProcessHandle.watch, hwatcher, Option.some.injEq] at hwatch
      exact hwatch ▸ rfl
    | cleared =>
      simp only [Stored, hwatcher] at h
      simp only [ProcessHandle.watch, hwatcher, Option.some.injEq] at hwatch
      exact hwatch ▸ h
  | call =>
    obtain rfl := Option.some.inj hstep
    exact h
  | advance i =>
    rw [step_handle hstep]
    exact h

/-! ### Pending kills -/

/-- The calls before their `kill` have the child's process id. -/
def Aimed (σ : State) : Prop := ∀ pid, .kill pid ∈ σ.calls → σ.handle.child = some pid

/-- No call is before its `kill` where there is no child to be killed. -/
theorem Aimed.not_kill (h : Aimed σ) (hchild : σ.handle.child = none) (pid : ℕ) :
    .kill pid ∉ σ.calls := by
  intro hmem
  cases hchild.symm.trans (h pid hmem)

theorem harmless_iff : Harmless σ ↔ OwnChild σ ∧ Aimed σ := by
  apply and_congr_right
  intro hown
  have hkill : ∀ i pid, σ.calls[i]? = some (.kill pid) → σ.step (.advance i) = some { σ with
      calls := σ.calls.set i .returned
      kills := σ.kills ++ [(pid, σ.handle.child)] } := by
    intro i pid hcall
    simp [State.step, hcall, Terminate.step]
  constructor
  · intro h pid hmem
    obtain ⟨i, hcall⟩ := List.getElem?_of_mem hmem
    exact h i pid _ hcall (hkill i pid hcall) (pid, σ.handle.child) (by simp)
  · intro haimed i pid σ' hcall hstep
    obtain rfl := Option.some.inj ((hkill i pid hcall).symm.trans hstep)
    intro kill hmem
    rcases List.mem_append.mp hmem with hold | hnew
    · exact hown kill hold
    · obtain rfl := List.mem_singleton.mp hnew
      exact haimed pid (List.mem_of_getElem? hcall)

/-- The watcher's step aims no call at a child that is gone exactly if it is timely. -/
theorem watch_aimed (h : Aimed σ) (hstep : σ.step .watch = some σ') :
    Aimed σ' ↔ Timely σ .watch := by
  obtain ⟨handle, hwatch, rfl⟩ := watch_eq_some hstep
  cases hwatcher : σ.handle.watcher with
  | starting => simp [ProcessHandle.watch, hwatcher] at hwatch
  | finished => simp [ProcessHandle.watch, hwatcher] at hwatch
  | forked pid =>
    simp only [ProcessHandle.watch, hwatcher, Option.some.injEq] at hwatch
    subst hwatch
    refine iff_of_true ?_ ?_
    · intro p hmem
      have hchild := h p hmem
      simp only [ProcessHandle.child, hwatcher] at hchild
      exact hchild
    · intro child hwatching
      cases hwatcher.symm.trans hwatching
  | watching pid =>
    simp only [ProcessHandle.watch, hwatcher, Option.some.injEq] at hwatch
    subst hwatch
    constructor
    · intro haimed child _ p hmem
      cases haimed p hmem
    · intro htimely p hmem
      exact absurd hmem (htimely pid hwatcher p)
  | reaped =>
    simp only [ProcessHandle.watch, hwatcher, Option.some.injEq] at hwatch
    subst hwatch
    have hnone : ∀ p, .kill p ∉ σ.calls := h.not_kill (by rw [ProcessHandle.child, hwatcher])
    exact iff_of_true (fun p hmem => absurd hmem (hnone p)) fun _ _ => hnone
  | cleared =>
    simp only [ProcessHandle.watch, hwatcher, Option.some.injEq] at hwatch
    subst hwatch
    have hnone : ∀ p, .kill p ∉ σ.calls := h.not_kill (by rw [ProcessHandle.child, hwatcher])
    exact iff_of_true (fun p hmem => absurd hmem (hnone p)) fun _ _ => hnone

theorem Aimed.set (h : Aimed σ) {call : Terminate}
    (hcall : ∀ pid, call = .kill pid → σ.handle.child = some pid) :
    Aimed { σ with calls := σ.calls.set i call } := by
  intro pid hmem
  rcases List.mem_or_eq_of_mem_set hmem with hold | hnew
  · exact h pid hold
  · exact hcall pid hnew.symm

/-- The id that a call loads is the child's, unless the child has just been waited for. -/
theorem child_of_stored (hstored : Stored σ.handle) (hid : σ.handle.id ≠ 0)
    (hwatcher : σ.handle.watcher ≠ .reaped) : σ.handle.child = some σ.handle.id := by
  unfold Stored at hstored
  split at hstored
  · next pid hwatching => simp [ProcessHandle.child, hwatching, hstored.1]
  · next hreaped => exact absurd hreaped hwatcher
  · next pid hforked => exact absurd hstored.1 hid
  · exact absurd hstored hid

theorem advance_harmless (hstored : Stored σ.handle) (hown : OwnChild σ) (h : Aimed σ)
    (hstep : σ.step (.advance i) = some σ') :
    OwnChild σ' ∧ (Aimed σ' ↔ Timely σ (.advance i)) := by
  obtain ⟨call, call', killed, hcall, hnext, rfl⟩ := advance_eq_some hstep
  have hquiet : ∀ calls, OwnChild { σ with calls := calls, kills := σ.kills ++ [] } := by
    intro calls kill hmem
    rw [List.append_nil] at hmem
    exact hown kill hmem
  have htimely : call ≠ .load → Timely σ (.advance i) := by
    intro hne hload
    exact absurd (Option.some.inj (hcall.symm.trans hload)) hne
  cases call with
  | isRunning =>
    obtain ⟨rfl, rfl⟩ := Prod.mk.inj (Option.some.inj hnext)
    refine ⟨hquiet _, iff_of_true (h.set ?_) (htimely nofun)⟩
    intro pid hpid
    split_ifs at hpid
  | isNonzero =>
    obtain ⟨rfl, rfl⟩ := Prod.mk.inj (Option.some.inj hnext)
    refine ⟨hquiet _, iff_of_true (h.set ?_) (htimely nofun)⟩
    intro pid hpid
    split_ifs at hpid
  | load =>
    obtain ⟨rfl, rfl⟩ := Prod.mk.inj (Option.some.inj hnext)
    refine ⟨hquiet _, ?_⟩
    by_cases hid : σ.handle.id = 0
    · refine iff_of_true (h.set (by simp [hid])) ?_
      intro _ hreaped
      simp only [Stored, hreaped] at hstored
      exact hstored hid
    · constructor
      · intro haimed _ hreaped
        have hmem : Terminate.kill σ.handle.id ∈ σ.calls.set i (.kill σ.handle.id) :=
          List.mem_set (List.getElem?_eq_some_iff.mp hcall).1 _
        have hchild := haimed σ.handle.id (by simpa [hid] using hmem)
        simp [ProcessHandle.child, hreaped] at hchild
      · intro htimely
        apply h.set
        intro pid hpid
        rw [if_neg hid] at hpid
        obtain rfl := Terminate.kill.inj hpid
        exact child_of_stored hstored hid (htimely hcall)
  | kill pid =>
    obtain ⟨rfl, rfl⟩ := Prod.mk.inj (Option.some.inj hnext)
    refine ⟨?_, iff_of_true (h.set nofun) (htimely nofun)⟩
    intro kill hmem
    rcases List.mem_append.mp hmem with hold | hnew
    · exact hown kill hold
    · obtain rfl := List.mem_singleton.mp hnew
      exact h pid (List.mem_of_getElem? hcall)
  | returned => cases hnext

/-- **From a harmless state a step leads to a harmless one exactly if it is timely.** -/
theorem Harmless.step_iff (hstored : Stored σ.handle) (h : Harmless σ)
    (hstep : σ.step event = some σ') : Harmless σ' ↔ Timely σ event := by
  obtain ⟨hown, haimed⟩ := harmless_iff.mp h
  rw [harmless_iff]
  cases event with
  | fork child =>
    obtain ⟨hwatcher, watcher, rfl, -⟩ := fork_eq_some hstep
    refine iff_of_true ⟨hown, ?_⟩ trivial
    intro pid hmem
    exact absurd hmem (haimed.not_kill (by rw [ProcessHandle.child, hwatcher]) pid)
  | watch =>
    have hiff := watch_aimed haimed hstep
    obtain ⟨handle, -, rfl⟩ := watch_eq_some hstep
    rw [← hiff]
    exact and_iff_right hown
  | call =>
    obtain rfl := Option.some.inj hstep
    refine iff_of_true ⟨hown, ?_⟩ trivial
    intro pid hmem
    rcases List.mem_append.mp hmem with hold | hnew
    · exact haimed pid hold
    · cases List.mem_singleton.mp hnew
  | advance i =>
    obtain ⟨hown', hiff⟩ := advance_harmless hstored hown haimed hstep
    rw [← hiff]
    exact and_iff_right hown'

/-! ### Runs -/

theorem harmless_start : Harmless start := by
  rw [harmless_iff]
  exact ⟨nofun, nofun⟩

/-- **Every `kill` of a run is of the live child as long as the run is timely**; and it is timely
exactly if moreover no call that has made its loads would kill anything else by its next step. -/
theorem harmless_throughout_iff {events : List Event} {σ : State}
    (hrun : run State.step start events = some σ) :
    (Along State.step Timely start events → Throughout State.step OwnChild start events) ∧
    (Along State.step Timely start events ↔ Throughout State.step Harmless start events) := by
  have hstored : Stored start.handle := rfl
  have hiff : Throughout State.step Harmless start events ↔
      Along State.step Timely start events :=
    throughout_iff_along (J := fun σ => Stored σ.handle)
      (fun _ _ _ hstored _ hstep => hstored.step hstep)
      (fun _ _ _ hstored h hstep => h.step_iff hstored hstep) hrun hstored harmless_start
  exact ⟨fun h => (hiff.mpr h).mono fun _ h => h.1, hiff.symm⟩

/-- A child is killed and then waited for. -/
theorem harmless_throughout_killed :
    Throughout State.step OwnChild start [.fork (some 7), .watch, .call, .advance 0, .advance 0,
      .advance 0, .advance 0, .watch] := by
  have htimely : Along State.step Timely start [.fork (some 7), .watch, .call, .advance 0,
      .advance 0, .advance 0, .advance 0, .watch] := by
    refine (along_cons rfl).mpr ⟨trivial, (along_cons rfl).mpr ⟨nofun, (along_cons rfl).mpr
      ⟨trivial, (along_cons rfl).mpr ⟨nofun, (along_cons rfl).mpr ⟨nofun, (along_cons rfl).mpr
        ⟨fun _ => nofun, (along_cons rfl).mpr ⟨nofun, (along_cons rfl).mpr ⟨?_, trivial⟩⟩⟩⟩⟩⟩⟩⟩
    intro child _ pid hmem
    cases List.mem_singleton.mp hmem
  exact (harmless_throughout_iff rfl).1 htimely

/-- The child ends and is waited for between the load of its id and the `kill`. -/
theorem kill_after_reap :
    ∃ σ, run State.step start [.fork (some 7), .watch, .call, .advance 0, .advance 0, .advance 0,
        .watch, .advance 0] = some σ ∧ σ.kills = [(7, none)] ∧ ¬ OwnChild σ := by
  refine ⟨_, rfl, rfl, ?_⟩
  intro hown
  cases hown (7, none) List.mem_cons_self

end Terminate

end ProcessOps

end IACore
