import IACore.IPC.Manager
import IACore.Library.EventRun
import Mathlib.Algebra.Order.Group.Multiset
import Mathlib.Data.Multiset.UnionInter
import Mathlib.Tactic.Abel

/-!
# When the manager's map and its active sessions agree

The containers always own distinct, existing sessions (`WellFormed`), whatever the children do.
Given that, a step from a state in which map and active sessions agree leads to such a state exactly
under `KeyUnchanged` (`Coherent.step_iff`), so a run stays in agreement exactly if all its steps
meet it (`coherent_throughout_iff`).  A child that exits before it is disconnected is enough to
break it (`exited_node_leaves_entry`).
-/

namespace IACore

namespace IpcManager

open EventRun State

variable {σ σ' : State} {s node pid : ℕ}

/-- The sessions that the containers own. -/
def State.owned (σ : State) : Multiset ℕ := σ.pendingSessions + σ.activeSessions

/-- The containers own distinct sessions, which exist; the session that `spawn_node` is at work on
is not among them. -/
structure WellFormed (σ : State) : Prop where
  nodup : σ.owned.Nodup
  alive : ∀ s ∈ σ.owned, (σ.sessions s).isSome
  bounded : ∀ s, (σ.sessions s).isSome → s < σ.fresh
  spawning : ∀ s, σ.control = .spawning s ∨ σ.control = .returning s → s ∉ σ.owned

theorem WellFormed.start : WellFormed start := by
  refine ⟨?_, ?_, ?_, ?_⟩ <;> simp [IpcManager.start, owned]

/-! ### Inversion -/

theorem destroy_eq_some (h : σ.destroy s = some σ') :
    ∃ handle, σ.sessions s = some handle ∧
      σ' = { σ with sessions := Function.update σ.sessions s none } := by
  obtain ⟨handle, hs, h⟩ := Option.bind_eq_some_iff.mp h
  split_ifs at h
  exact ⟨handle, hs, (Option.some.inj h).symm⟩

theorem fork_eq_some {child : Option ℕ} (h : σ.fork s child = some σ') :
    (σ.sessions s).isSome ∧ ∃ handle,
      σ' = { σ with sessions := Function.update σ.sessions s (some handle) } := by
  obtain ⟨handle, hs, h⟩ := Option.bind_eq_some_iff.mp h
  obtain ⟨-, h⟩ := Option.ite_none_right_eq_some.mp h
  obtain ⟨handle', -, h⟩ := Option.bind_eq_some_iff.mp h
  exact ⟨by simp [hs], handle', (Option.some.inj h).symm⟩

theorem watch_eq_some (h : σ.watch s = some σ') :
    (σ.sessions s).isSome ∧ ∃ handle,
      σ' = { σ with sessions := Function.update σ.sessions s (some handle) } := by
  obtain ⟨handle, hs, h⟩ := Option.bind_eq_some_iff.mp h
  obtain ⟨handle', -, h⟩ := Option.bind_eq_some_iff.mp h
  exact ⟨by simp [hs], handle', (Option.some.inj h).symm⟩

theorem spawnNode_eq_some (h : σ.spawnNode = some σ') :
    σ' = { σ with
      sessions := Function.update σ.sessions σ.fresh (some .spawned)
      fresh := σ.fresh + 1
      control := .spawning σ.fresh } := by
  obtain ⟨-, h⟩ := Option.ite_none_right_eq_some.mp h
  exact (Option.some.inj h).symm

theorem checkActive_eq_some (h : σ.checkActive = some σ') :
    ∃ s, σ.control = .spawning s ∧ (σ' = { σ with control := .returning s } ∨
      σ' = { σ with sessions := Function.update σ.sessions s none, control := .idle }) := by
  unfold State.checkActive at h
  split at h
  · next s hcontrol =>
    obtain ⟨handle, -, h⟩ := Option.bind_eq_some_iff.mp h
    refine ⟨s, hcontrol, ?_⟩
    split_ifs at h
    · exact .inl (Option.some.inj h).symm
    · obtain ⟨-, -, rfl⟩ := destroy_eq_some h
      exact .inr rfl
  · cases h

theorem spawnReturn_eq_some (h : σ.spawnReturn = some σ') :
    ∃ s handle, σ.control = .returning s ∧ σ.sessions s = some handle ∧ σ' = { σ with
      pendingSessions := σ.pendingSessions ++ [s]
      returned := Function.update σ.returned s (some handle.id)
      control := .idle } := by
  unfold State.spawnReturn at h
  split at h
  · next s hcontrol =>
    obtain ⟨handle, hs, h⟩ := Option.bind_eq_some_iff.mp h
    exact ⟨s, handle, hcontrol, hs, (Option.some.inj h).symm⟩
  · cases h

theorem timeout_eq_some (h : σ.timeout = some σ') :
    ∃ i s, σ.pendingSessions[i]? = some s ∧ σ' = { σ with
      sessions := Function.update σ.sessions s none
      pendingSessions := σ.pendingSessions.eraseIdx i
      control := .pendingLoop i } := by
  unfold State.timeout at h
  split at h
  · next i hcontrol =>
    obtain ⟨s, hget, h⟩ := Option.bind_eq_some_iff.mp h
    obtain ⟨-, -, rfl⟩ := destroy_eq_some h
    exact ⟨i, s, hget, rfl⟩
  · cases h

theorem activate_eq_some (h : σ.activate = some σ') :
    ∃ i s handle, σ.control = .accepted i ∧ σ.pendingSessions[i]? = some s ∧
      σ.sessions s = some handle ∧ σ' = { σ with
        activeSessions := σ.activeSessions ++ [s]
        pendingSessions := σ.pendingSessions.eraseIdx i
        activeSessionMap := Function.update σ.activeSessionMap handle.id (some s)
        control := .pendingLoop i } := by
  unfold State.activate at h
  split at h
  · next i hcontrol =>
    obtain ⟨s, hget, h⟩ := Option.bind_eq_some_iff.mp h
    obtain ⟨handle, hs, h⟩ := Option.bind_eq_some_iff.mp h
    exact ⟨i, s, handle, hcontrol, hget, hs, (Option.some.inj h).symm⟩
  · cases h

theorem disconnect_eq_some (h : σ.disconnect = some σ') :
    ∃ i nodeId s, σ.control = .visiting i nodeId ∧ σ.activeSessions[i]? = some s ∧ σ' = { σ with
      sessions := Function.update σ.sessions s none
      activeSessions := σ.activeSessions.eraseIdx i
      activeSessionMap := Function.update σ.activeSessionMap nodeId none
      control := .activeLoop i } := by
  unfold State.disconnect at h
  split at h
  · next i nodeId hcontrol =>
    obtain ⟨s, hget, h⟩ := Option.bind_eq_some_iff.mp h
    obtain ⟨-, -, rfl⟩ := destroy_eq_some h
    exact ⟨i, nodeId, s, hcontrol, hget, rfl⟩
  · cases h

theorem shutdownNode_eq_some (h : σ.shutdownNode pid = some σ') :
    σ.control = .idle ∧ (σ' = σ ∨ ∃ node, σ.activeSessionMap pid = some node ∧ σ' = { σ with
      sessions := Function.update σ.sessions node none
      activeSessions := σ.activeSessions.filter fun s => s ≠ node
      activeSessionMap := Function.update σ.activeSessionMap pid none }) := by
  obtain ⟨hidle, h⟩ := Option.ite_none_right_eq_some.mp h
  refine ⟨hidle, ?_⟩
  split at h
  · exact .inl (Option.some.inj h).symm
  · next node hnode =>
    obtain ⟨-, -, rfl⟩ := destroy_eq_some h
    exact .inr ⟨node, hnode, rfl⟩

theorem eraseIdx_owned {l : List ℕ} {i : ℕ} (h : l[i]? = some s) :
    (l : Multiset ℕ) = s ::ₘ (l.eraseIdx i : Multiset ℕ) := by
  obtain ⟨hi, rfl⟩ := List.getElem?_eq_some_iff.mp h
  exact (Multiset.coe_eq_coe.mpr (List.getElem_cons_eraseIdx_perm hi)).symm

/-- The events that only take the manager's thread further, through `update` or over a look-up. -/
def Event.moves : Event → Bool
  | .update | .acceptFails | .accept | .pendingDone | .visit | .keep | .activeDone => true
  | .send _ => true
  | _ => false

theorem moves_of_step {event : Event} (hmoves : event.moves = true)
    (hstep : σ.step event = some σ') :
    ∃ c, (∀ s, c ≠ .spawning s ∧ c ≠ .returning s) ∧ σ' = { σ with control := c } := by
  cases event with
  | update =>
    obtain ⟨-, hstep⟩ := Option.ite_none_right_eq_some.mp hstep
    exact ⟨_, by simp, (Option.some.inj hstep).symm⟩
  | acceptFails =>
    simp only [State.step, State.acceptFails] at hstep
    split at hstep
    · exact ⟨_, by simp, (Option.some.inj hstep).symm⟩
    · cases hstep
  | accept =>
    simp only [State.step, State.accept] at hstep
    split at hstep
    · exact ⟨_, by simp, (Option.some.inj hstep).symm⟩
    · cases hstep
  | pendingDone =>
    obtain ⟨-, hstep⟩ := Option.ite_none_right_eq_some.mp hstep
    exact ⟨_, by simp, (Option.some.inj hstep).symm⟩
  | visit =>
    simp only [State.step, State.visit] at hstep
    split at hstep
    · obtain ⟨s, -, hstep⟩ := Option.bind_eq_some_iff.mp hstep
      obtain ⟨handle, -, hstep⟩ := Option.bind_eq_some_iff.mp hstep
      exact ⟨_, by simp, (Option.some.inj hstep).symm⟩
    · cases hstep
  | keep =>
    simp only [State.step, State.keep] at hstep
    split at hstep
    · exact ⟨_, by simp, (Option.some.inj hstep).symm⟩
    · cases hstep
  | activeDone =>
    obtain ⟨-, hstep⟩ := Option.ite_none_right_eq_some.mp hstep
    exact ⟨_, by simp, (Option.some.inj hstep).symm⟩
  | send pid =>
    obtain ⟨hidle, hstep⟩ := Option.ite_none_right_eq_some.mp hstep
    refine ⟨.idle, by simp, ?_⟩
    rw [← hidle]
    split at hstep
    · exact (Option.some.inj hstep).symm
    · obtain ⟨handle, -, rfl⟩ := Option.map_eq_some_iff.mp hstep
      rfl
  | fork | watch | spawnNode | checkActive | spawnReturn | timeout | activate | disconnect
  | shutdownNode => cases hmoves

namespace WellFormed

theorem active_nodup (h : WellFormed σ) : σ.activeSessions.Nodup :=
  Multiset.coe_nodup.mp (Multiset.nodup_of_le (Multiset.le_add_left _ _) h.nodup)

theorem not_active (h : WellFormed σ) (hs : s ∈ σ.pendingSessions) : s ∉ σ.activeSessions :=
  fun hactive => (Multiset.disjoint_left.mp (Multiset.nodup_add.mp h.nodup).2.2) hs hactive

theorem spawning_not_active (h : WellFormed σ)
    (hs : σ.control = .spawning s ∨ σ.control = .returning s) : s ∉ σ.activeSessions :=
  fun hactive => h.spawning s hs (Multiset.mem_add.mpr (.inr hactive))

/-- A step of the manager within a call, or of a watcher. -/
theorem quiet (h : WellFormed σ) (howned : σ'.owned = σ.owned) (hfresh : σ'.fresh = σ.fresh)
    (hsessions : ∀ s, (σ'.sessions s).isSome = (σ.sessions s).isSome)
    (hcontrol : ∀ s, σ'.control = .spawning s ∨ σ'.control = .returning s → s ∉ σ.owned) :
    WellFormed σ' := by
  refine ⟨howned ▸ h.nodup, fun s hs => ?_, fun s hs => ?_, fun s hs => ?_⟩
  · rw [hsessions]
    exact h.alive s (howned ▸ hs)
  · rw [hfresh]
    exact h.bounded s (hsessions s ▸ hs)
  · rw [howned]
    exact hcontrol s hs

/-- A session goes out of existence with its place in the containers. -/
theorem drop (h : WellFormed σ) (howned : σ.owned = s ::ₘ σ'.owned) (hfresh : σ'.fresh = σ.fresh)
    (hsessions : σ'.sessions = Function.update σ.sessions s none)
    (hcontrol : ∀ t, σ'.control ≠ .spawning t ∧ σ'.control ≠ .returning t) : WellFormed σ' := by
  have hnodup := h.nodup
  rw [howned, Multiset.nodup_cons] at hnodup
  refine ⟨hnodup.2, fun t ht => ?_, fun t ht => ?_, fun t ht => ?_⟩
  · rw [hsessions, Function.update_of_ne (ne_of_mem_of_not_mem ht hnodup.1)]
    exact h.alive t (howned ▸ Multiset.mem_cons_of_mem ht)
  · rw [hfresh]
    refine h.bounded t ?_
    by_cases hts : t = s
    · simp [hsessions, hts] at ht
    · rwa [hsessions, Function.update_of_ne hts] at ht
  · exact (ht.elim (hcontrol t).1 (hcontrol t).2).elim

/-- A session changes, and still exists. -/
theorem set (h : WellFormed σ) (hs : (σ.sessions s).isSome) (handle : ProcessHandle) :
    WellFormed { σ with sessions := Function.update σ.sessions s (some handle) } := by
  refine h.quiet rfl rfl (fun t => ?_) h.spawning
  by_cases hts : t = s
  · subst hts
    simp [hs]
  · simp [Function.update_of_ne hts]

theorem control (h : WellFormed σ) {c : Control}
    (hc : ∀ s, c = .spawning s ∨ c = .returning s → s ∉ σ.owned) :
    WellFormed { σ with control := c } :=
  h.quiet rfl rfl (fun _ => rfl) hc

theorem spawnNode (h : WellFormed σ) (hstep : σ.spawnNode = some σ') : WellFormed σ' := by
  obtain rfl := spawnNode_eq_some hstep
  -- Addresses are handed out in order, so what is owned is older.
  have hfresh : σ.fresh ∉ σ.owned := fun hs => (h.bounded _ (h.alive _ hs)).false
  refine ⟨h.nodup, fun s hs => ?_, fun s hs => ?_, fun s hs => ?_⟩
  · have hne : s ≠ σ.fresh := ne_of_mem_of_not_mem hs hfresh
    simpa only [Function.update_of_ne hne] using h.alive s hs
  · by_cases hne : s = σ.fresh
    · simp [hne]
    · have := h.bounded s (by simpa only [Function.update_of_ne hne] using hs)
      simp only
      omega
  · simp only [Control.spawning.injEq, reduceCtorEq, or_false] at hs
    exact hs ▸ hfresh

theorem checkActive (h : WellFormed σ) (hstep : σ.checkActive = some σ') : WellFormed σ' := by
  obtain ⟨s, hcontrol, rfl | rfl⟩ := checkActive_eq_some hstep
  · have hnot := h.spawning s (.inl hcontrol)
    exact h.control fun t ht => by
      obtain rfl : s = t := by simpa using ht
      exact hnot
  · have hnot := h.spawning s (.inl hcontrol)
    refine ⟨h.nodup, fun t ht => ?_, fun t ht => ?_, by simp⟩
    · have hne : t ≠ s := ne_of_mem_of_not_mem ht hnot
      simpa only [Function.update_of_ne hne] using h.alive t ht
    · by_cases hne : t = s
      · simp [hne] at ht
      · exact h.bounded t (by simpa only [Function.update_of_ne hne] using ht)

theorem spawnReturn (h : WellFormed σ) (hstep : σ.spawnReturn = some σ') : WellFormed σ' := by
  obtain ⟨s, handle, hcontrol, hs, rfl⟩ := spawnReturn_eq_some hstep
  -- The session that only `spawn_node` knew is now owned.
  have howned : owned { σ with
      pendingSessions := σ.pendingSessions ++ [s]
      returned := Function.update σ.returned s (some handle.id)
      control := .idle } = s ::ₘ σ.owned := by
    simp only [owned, ← Multiset.coe_add, Multiset.coe_singleton, ← Multiset.singleton_add]
    abel
  refine ⟨?_, fun t ht => ?_, h.bounded, by simp⟩
  · rw [howned, Multiset.nodup_cons]
    exact ⟨h.spawning s (.inr hcontrol), h.nodup⟩
  · rw [howned, Multiset.mem_cons] at ht
    rcases ht with rfl | ht
    · simp [hs]
    · exact h.alive t ht

theorem timeout (h : WellFormed σ) (hstep : σ.timeout = some σ') : WellFormed σ' := by
  obtain ⟨i, s, hget, rfl⟩ := timeout_eq_some hstep
  refine h.drop (s := s) ?_ rfl rfl (by simp)
  rw [owned, eraseIdx_owned hget, Multiset.cons_add]
  rfl

theorem activate (h : WellFormed σ) (hstep : σ.activate = some σ') : WellFormed σ' := by
  obtain ⟨i, s, handle, -, hget, -, rfl⟩ := activate_eq_some hstep
  refine h.quiet ?_ rfl (fun _ => rfl) (by simp)
  -- It moves from one container to the other, so together they own what they owned.
  simp only [owned, eraseIdx_owned hget, ← Multiset.coe_add, Multiset.coe_singleton,
    ← Multiset.singleton_add]
  abel

theorem disconnect (h : WellFormed σ) (hstep : σ.disconnect = some σ') : WellFormed σ' := by
  obtain ⟨i, nodeId, s, -, hget, rfl⟩ := disconnect_eq_some hstep
  refine h.drop (s := s) ?_ rfl rfl (by simp)
  rw [owned, eraseIdx_owned hget, Multiset.add_cons]
  rfl

theorem shutdownNode (h : WellFormed σ) (hC : Coherent σ) (hstep : σ.shutdownNode pid = some σ') :
    WellFormed σ' := by
  obtain ⟨hidle, rfl | ⟨node, hnode, rfl⟩⟩ := shutdownNode_eq_some hstep
  · exact h
  · refine h.drop (s := node) ?_ rfl rfl (by simp [hidle])
    have hperm := List.perm_cons_erase (hC.owned pid node hnode).1
    rw [owned, Multiset.coe_eq_coe.mpr hperm, ← Multiset.cons_coe, Multiset.add_cons,
      h.active_nodup.erase_eq_filter]
    simp only [owned, bne, decide_not]
    rfl

theorem step (h : WellFormed σ) (hC : Coherent σ) {event : Event}
    (hstep : σ.step event = some σ') : WellFormed σ' := by
  cases event with
  | fork s pid =>
    obtain ⟨hs, handle, rfl⟩ := fork_eq_some hstep
    exact h.set hs handle
  | watch s =>
    obtain ⟨hs, handle, rfl⟩ := watch_eq_some hstep
    exact h.set hs handle
  | spawnNode => exact h.spawnNode hstep
  | checkActive => exact h.checkActive hstep
  | spawnReturn => exact h.spawnReturn hstep
  | timeout => exact h.timeout hstep
  | activate => exact h.activate hstep
  | disconnect => exact h.disconnect hstep
  | shutdownNode pid => exact h.shutdownNode hC hstep
  | update | acceptFails | accept | pendingDone | visit | keep | activeDone | send pid =>
    obtain ⟨c, hc, rfl⟩ := moves_of_step rfl hstep
    exact h.control fun s hs => (hs.elim (hc s).1 (hc s).2).elim

end WellFormed

/-! ### One step and the map -/

theorem Coherent.start : Coherent start := by
  refine ⟨?_, ?_⟩ <;> simp [IpcManager.start]

namespace Coherent

theorem congr (hC : Coherent σ) (hmap : σ'.activeSessionMap = σ.activeSessionMap)
    (hactive : σ'.activeSessions = σ.activeSessions)
    (hreturned : ∀ s ∈ σ.activeSessions, σ'.returned s = σ.returned s)
    (hsessions : ∀ s ∈ σ.activeSessions, (σ.sessions s).isSome → (σ'.sessions s).isSome) :
    Coherent σ' := by
  refine ⟨fun pid s hs => ?_, fun s hs => ?_⟩
  · rw [hmap] at hs
    obtain ⟨hmem, hsome⟩ := hC.owned pid s hs
    exact ⟨hactive ▸ hmem, hsessions s hmem hsome⟩
  · rw [hactive] at hs
    rw [hreturned s hs, hmap]
    exact hC.entry s hs

/-- A session comes into existence or changes. -/
theorem set (hC : Coherent σ) (s : ℕ) (handle : ProcessHandle) :
    Coherent { σ with sessions := Function.update σ.sessions s (some handle) } := by
  refine hC.congr rfl rfl (fun _ _ => rfl) fun t _ hsome => ?_
  by_cases hts : t = s
  · simp [hts]
  · simpa only [Function.update_of_ne hts] using hsome

/-- An entry's key is what `spawn_node` returned for its session. -/
theorem key (hC : Coherent σ) (hs : σ.activeSessionMap pid = some s) : σ.returned s = some pid := by
  obtain ⟨returned, hreturned, hkey⟩ := hC.entry s (hC.owned pid s hs).1
  rw [hreturned, (hkey pid).mp hs]

/-- Entering a session under `pid` is right exactly if `pid` was returned for it, and for no session
that is active already. -/
theorem enter_iff (hC : Coherent σ) (hs : (σ.sessions s).isSome) (hnot : s ∉ σ.activeSessions)
    {pending : List ℕ} {c : Control} :
    Coherent { σ with
        activeSessions := σ.activeSessions ++ [s], pendingSessions := pending,
        activeSessionMap := Function.update σ.activeSessionMap pid (some s), control := c } ↔
      σ.returned s = some pid ∧ ∀ t ∈ σ.activeSessions, σ.returned t ≠ some pid := by
  constructor
  · intro hC'
    refine ⟨hC'.key (Function.update_self _ _ _), fun t ht hreturned => ?_⟩
    obtain ⟨returned, hreturned', hkey⟩ := hC'.entry t (List.mem_append_left _ ht)
    obtain rfl : pid = returned := Option.some.inj (hreturned.symm.trans hreturned')
    have hboth := (hkey pid).mpr rfl
    simp only [Function.update_self, Option.some.injEq] at hboth
    exact hnot (hboth ▸ ht)
  · rintro ⟨hreturned, hothers⟩
    refine ⟨fun key t ht => ?_, fun t ht => ?_⟩
    · by_cases hkey : key = pid
      · subst hkey
        obtain rfl : s = t := by simpa using ht
        exact ⟨List.mem_append_right _ (List.mem_singleton_self s), hs⟩
      · simp only [Function.update_of_ne hkey] at ht
        obtain ⟨hmem, hsome⟩ := hC.owned key t ht
        exact ⟨List.mem_append_left _ hmem, hsome⟩
    -- An older session keeps its key, which `pid` must not be.
    · rcases List.mem_append.mp ht with hold | hnew
      · obtain ⟨returned, hreturned', hkey⟩ := hC.entry t hold
        have hne : returned ≠ pid := fun heq => hothers t hold (heq ▸ hreturned')
        refine ⟨returned, hreturned', fun key => ?_⟩
        by_cases hpid : key = pid
        · subst hpid
          simp only [Function.update_self, Option.some.injEq, hne.symm, iff_false]
          exact fun heq => hnot (heq ▸ hold)
        · simpa only [Function.update_of_ne hpid] using hkey key
      · obtain rfl := List.mem_singleton.mp hnew
        refine ⟨pid, hreturned, fun key => ?_⟩
        by_cases hpid : key = pid
        · simp [hpid]
        · simp only [Function.update_of_ne hpid, hpid, iff_false]
          exact fun hentry => hnot (hC.owned key t hentry).1

/-- Erasing a session and the entry of `pid` is right exactly if `pid` was returned for it. -/
theorem erase_iff (hC : Coherent σ) (hs : s ∈ σ.activeSessions)
    (hmem : ∀ t, t ∈ σ'.activeSessions ↔ t ≠ s ∧ t ∈ σ.activeSessions)
    (hmap : σ'.activeSessionMap = Function.update σ.activeSessionMap pid none)
    (hsessions : σ'.sessions = Function.update σ.sessions s none)
    (hreturned : σ'.returned = σ.returned) : Coherent σ' ↔ σ.returned s = some pid := by
  obtain ⟨returned, hs', hkey⟩ := hC.entry s hs
  constructor
  -- Otherwise the entry under the returned id would outlive its session.
  · intro hC'
    by_contra hne
    have hentry : σ'.activeSessionMap returned = some s := by
      rw [hmap, Function.update_of_ne (fun heq => hne (by rw [hs', heq]))]
      exact (hkey returned).mpr rfl
    exact ((hmem s).mp (hC'.owned returned s hentry).1).1 rfl
  · intro hpid
    obtain rfl : returned = pid := Option.some.inj (hs'.symm.trans hpid)
    refine ⟨fun key t ht => ?_, fun t ht => ?_⟩
    · rw [hmap] at ht
      by_cases hkey' : key = returned
      · simp [hkey'] at ht
      · rw [Function.update_of_ne hkey'] at ht
        have hne : t ≠ s := fun heq => hkey' ((hkey key).mp (heq ▸ ht))
        obtain ⟨hactive, hsome⟩ := hC.owned key t ht
        exact ⟨(hmem t).mpr ⟨hne, hactive⟩, by rwa [hsessions, Function.update_of_ne hne]⟩
    · obtain ⟨hne, hactive⟩ := (hmem t).mp ht
      obtain ⟨returned', ht', hkey'⟩ := hC.entry t hactive
      refine ⟨returned', by rw [hreturned, ht'], fun key => ?_⟩
      rw [hmap]
      by_cases heq : key = returned
      · subst heq
        simp only [Function.update_self, reduceCtorEq, false_iff]
        intro heq
        -- The erased key belonged to `s` alone.
        have hboth := ((hkey' key).mpr heq).symm.trans ((hkey key).mpr rfl)
        exact hne (Option.some.inj hboth)
      · rw [Function.update_of_ne heq]
        exact hkey' key

theorem activate_iff (hC : Coherent σ) (h : WellFormed σ) (hstep : σ.activate = some σ') :
    Coherent σ' ↔ KeyUnchanged σ .activate := by
  obtain ⟨i, s, handle, hcontrol, hget, hs, rfl⟩ := activate_eq_some hstep
  refine (hC.enter_iff (by simp [hs]) (h.not_active (List.mem_of_getElem? hget))).trans
    ⟨fun hkey j t handle' hcontrol' hget' hs' => ?_, fun hkey => hkey i s handle hcontrol hget hs⟩
  obtain rfl := Control.accepted.inj (hcontrol.symm.trans hcontrol')
  obtain rfl := Option.some.inj (hget.symm.trans hget')
  obtain rfl := Option.some.inj (hs.symm.trans hs')
  exact hkey

theorem disconnect_iff (hC : Coherent σ) (h : WellFormed σ) (hstep : σ.disconnect = some σ') :
    Coherent σ' ↔ KeyUnchanged σ .disconnect := by
  obtain ⟨i, nodeId, s, hcontrol, hget, hσ'⟩ := disconnect_eq_some hstep
  have hmem : ∀ t, t ∈ σ'.activeSessions ↔ t ≠ s ∧ t ∈ σ.activeSessions := by
    obtain ⟨hi, rfl⟩ := List.getElem?_eq_some_iff.mp hget
    intro t
    rw [hσ', ← h.active_nodup.erase_getElem i hi]
    exact h.active_nodup.mem_erase_iff
  have hmap : σ'.activeSessionMap = Function.update σ.activeSessionMap nodeId none := by
    rw [hσ']
  refine (hC.erase_iff (List.mem_of_getElem? hget) hmem hmap (by rw [hσ']) (by rw [hσ'])).trans
    ⟨fun hkey j nodeId' t hcontrol' hget' => ?_, fun hkey => hkey i nodeId s hcontrol hget⟩
  obtain ⟨rfl, rfl⟩ := Control.visiting.inj (hcontrol.symm.trans hcontrol')
  obtain rfl := Option.some.inj (hget.symm.trans hget')
  exact hkey

theorem shutdownNode (hC : Coherent σ) (hstep : σ.shutdownNode pid = some σ') : Coherent σ' := by
  obtain ⟨-, rfl | ⟨node, hnode, hσ'⟩⟩ := shutdownNode_eq_some hstep
  · exact hC
  · have hmem : ∀ t, t ∈ σ'.activeSessions ↔ t ≠ node ∧ t ∈ σ.activeSessions := by
      simp [hσ', and_comm]
    exact (hC.erase_iff (hC.owned pid node hnode).1 hmem (by rw [hσ']) (by rw [hσ'])
      (by rw [hσ'])).mpr (hC.key hnode)

/-- A session that the active ones do not include goes out of existence. -/
theorem drop (hC : Coherent σ) (hs : s ∉ σ.activeSessions)
    (hmap : σ'.activeSessionMap = σ.activeSessionMap)
    (hactive : σ'.activeSessions = σ.activeSessions) (hreturned : σ'.returned = σ.returned)
    (hsessions : σ'.sessions = Function.update σ.sessions s none) : Coherent σ' := by
  refine hC.congr hmap hactive (fun t _ => by rw [hreturned]) fun t ht hsome => ?_
  rwa [hsessions, Function.update_of_ne (ne_of_mem_of_not_mem ht hs)]

/-- **Exactly when a step keeps map and active sessions in agreement.** -/
theorem step_iff (hC : Coherent σ) (h : WellFormed σ) {event : Event}
    (hstep : σ.step event = some σ') : Coherent σ' ↔ KeyUnchanged σ event := by
  cases event with
  | activate => exact hC.activate_iff h hstep
  | disconnect => exact hC.disconnect_iff h hstep
  | shutdownNode pid => simpa [KeyUnchanged] using hC.shutdownNode hstep
  | fork s pid =>
    obtain ⟨-, handle, rfl⟩ := fork_eq_some hstep
    exact iff_of_true (hC.set s handle) trivial
  | watch s =>
    obtain ⟨-, handle, rfl⟩ := watch_eq_some hstep
    exact iff_of_true (hC.set s handle) trivial
  | spawnNode =>
    obtain rfl := spawnNode_eq_some hstep
    exact iff_of_true ((hC.set σ.fresh .spawned).congr rfl rfl (fun _ _ => rfl) fun _ _ => id)
      trivial
  | checkActive =>
    refine iff_of_true ?_ trivial
    obtain ⟨s, hcontrol, rfl | rfl⟩ := checkActive_eq_some hstep
    · exact hC.congr rfl rfl (fun _ _ => rfl) fun _ _ => id
    · exact hC.drop (h.spawning_not_active (.inl hcontrol)) rfl rfl rfl rfl
  | spawnReturn =>
    refine iff_of_true ?_ trivial
    obtain ⟨s, handle, hcontrol, -, rfl⟩ := spawnReturn_eq_some hstep
    have hs := h.spawning_not_active (.inr hcontrol)
    exact hC.congr rfl rfl (fun t ht => Function.update_of_ne (ne_of_mem_of_not_mem ht hs) _ _)
      fun _ _ => id
  | timeout =>
    refine iff_of_true ?_ trivial
    obtain ⟨i, s, hget, rfl⟩ := timeout_eq_some hstep
    exact hC.drop (h.not_active (List.mem_of_getElem? hget)) rfl rfl rfl rfl
  | update | acceptFails | accept | pendingDone | visit | keep | activeDone | send pid =>
    obtain ⟨c, -, rfl⟩ := moves_of_step rfl hstep
    exact iff_of_true (hC.congr rfl rfl (fun _ _ => rfl) fun _ _ => id) trivial

end Coherent

/-- **The manager's map.**  In every state of a run, the map's entries point to existing active
sessions, and every active session has one entry, under the id that `spawn_node` returned for it, if
and only if no session becomes active or is disconnected under another id, or under another active
session's. -/
theorem coherent_throughout_iff {events : List Event}
    (hrun : run State.step start events = some σ) :
    Throughout State.step Coherent start events ↔ Along State.step KeyUnchanged start events :=
  throughout_iff_along (fun _ _ _ h hC hstep => h.step hC hstep)
    (fun _ _ _ h hC hstep => hC.step_iff h hstep) hrun WellFormed.start Coherent.start

/-- The calls of a manager that spawns a node, takes its connection and finds it disconnected, with
what the watcher does before each of the last two. -/
def spawnAcceptDisconnect (beforeAccept beforeVisit afterVisit : List Event) : List Event :=
  [.spawnNode, .fork 0 (some 1001), .watch 0, .checkActive, .spawnReturn, .update, .accept] ++
    beforeAccept ++ [.activate, .pendingDone] ++ beforeVisit ++ [.visit] ++ afterVisit ++
    [.disconnect, .activeDone]

/-- The child lives until it has been visited. -/
theorem coherent_throughout_iff_late_exit :
    let events := spawnAcceptDisconnect [] [] [.watch 0, .watch 0, .watch 0]
    Throughout State.step Coherent start events ↔ Along State.step KeyUnchanged start events := by
  intro events
  have hrun : (run State.step start events).isSome = true := by rfl
  obtain ⟨σ, hrun⟩ := Option.isSome_iff_exists.mp hrun
  exact coherent_throughout_iff hrun

/-- The child exits before it is visited: its session is destroyed, its entry stays. -/
theorem exited_node_leaves_entry : ∃ events σ, run State.step start events = some σ ∧
    σ.activeSessionMap 1001 = some 0 ∧ σ.activeSessions = [] ∧ σ.sessions 0 = none := by
  have hrun : (run State.step start
      (spawnAcceptDisconnect [] [.watch 0, .watch 0, .watch 0] [])).map (fun σ =>
        (σ.activeSessionMap 1001, σ.activeSessions, σ.sessions 0)) = some (some 0, [], none) := by
    rfl
  simp only [Option.map_eq_some_iff, Prod.mk.injEq] at hrun
  obtain ⟨σ, hrun, hstate⟩ := hrun
  exact ⟨_, σ, hrun, hstate⟩

end IpcManager

end IACore
