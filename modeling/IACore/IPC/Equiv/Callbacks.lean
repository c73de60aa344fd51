import IACore.IPC.Equiv.Sessions
import IACore.Library.EventRun

/-!
# When callbacks may call the manager

`shutdown_node` erases from the vector that `update` is going through, so what a callback leaves
decides what the slot holds next.  A step from a state in which the slot is right leads to such a
state exactly under `CallbackSafe` (`SlotRight.step_iff`), which holds as long as callbacks shut
down sessions behind the slot only (`slotRight_throughout_of_behind`).  A callback that shuts down
the session it is called for is enough to break it (`shut_down_in_callback`).
-/

namespace IACore

namespace IpcSessions

open EventRun State

variable {σ σ' : State} {s i nodeId : ℕ} {calls : List Call} {event : Event}

/-! ### One step -/

/-- A slot that is drained is right if a session stands there that has nothing in its ring or has
the loaded id. -/
theorem slotRight_draining (hcontrol : σ.control = .draining i nodeId) :
    SlotRight σ ↔ ∃ s, σ.activeSessions[i]? = some s ∧
      ((σ.sessions s).mino = [] ∨ (σ.sessions s).id = nodeId) := by
  simp only [SlotRight, hcontrol, ne_eq, or_iff_not_imp_left]

theorem slotRight_slot (hcontrol : σ.control = .draining i nodeId)
    (hs : σ.activeSessions[i]? = some s) :
    SlotRight σ ↔ (σ.sessions s).mino = [] ∨ (σ.sessions s).id = nodeId := by
  rw [slotRight_draining hcontrol]
  constructor
  · rintro ⟨t, ht, hright⟩
    obtain rfl := Option.some.inj (ht.symm.trans hs)
    exact hright
  · exact fun hright => ⟨s, hs, hright⟩

theorem slotRight_activeLoop (hcontrol : σ.control = .activeLoop i) :
    SlotRight σ ↔ i ≤ σ.activeSessions.length := by
  cases i with
  | zero => simp [SlotRight, hcontrol]
  | succ i =>
    simp only [SlotRight, hcontrol]
    exact Nat.succ_le_iff.symm

theorem slotRight_receiving (hcontrol : σ.control = .receiving i nodeId) :
    SlotRight σ ↔ i < σ.activeSessions.length := by simp [SlotRight, hcontrol]

/-- A packet that arrives is right for the slot unless a session with another id stands there. -/
theorem push_slotRight {packet : UInt16 × List UInt8} (h : SlotRight σ)
    (hstep : σ.push s packet = some σ') : SlotRight σ' ↔ CallbackSafe σ (.push s packet) := by
  obtain rfl := push_eq_some hstep
  by_cases hdraining : ∃ i nodeId, σ.control = .draining i nodeId
  · obtain ⟨i, nodeId, hcontrol⟩ := hdraining
    obtain ⟨t, ht, hright⟩ := (slotRight_draining hcontrol).mp h
    rw [slotRight_slot (σ := σ.modify s _) hcontrol ht]
    simp only [CallbackSafe, hcontrol, Control.draining.injEq]
    by_cases hts : t = s
    · subst hts
      simp [ht]
    · rw [modify_sessions_of_ne hts]
      constructor
      · rintro - j id ⟨rfl, rfl⟩ hs
        exact absurd (Option.some.inj (ht.symm.trans hs)) hts
      · exact fun _ => hright
  · -- only a slot that is drained looks at the rings
    have hsafe : CallbackSafe σ (.push s packet) := by
      intro i nodeId hcontrol
      exact absurd ⟨i, nodeId, hcontrol⟩ hdraining
    refine iff_of_true ?_ hsafe
    cases hcontrol : σ.control with
    | draining i nodeId => exact absurd ⟨i, nodeId, hcontrol⟩ hdraining
    | activeLoop i =>
      rw [slotRight_activeLoop hcontrol] at h
      exact (slotRight_activeLoop (σ := σ.modify s _) hcontrol).mpr h
    | receiving i nodeId =>
      rw [slotRight_receiving hcontrol] at h
      exact (slotRight_receiving (σ := σ.modify s _) hcontrol).mpr h
    | failed i nodeId t =>
      simp only [SlotRight, modify_control, hcontrol, modify_activeSessions] at h ⊢
      exact h
    | idle | pendingLoop | destroyed => simp [SlotRight, hcontrol]

/-- What `on_packet` does is right for the slot exactly if it is safe. -/
theorem onPacket_slotRight (hbounded : Bounded σ) (h : SlotRight σ)
    (hstep : σ.onPacket calls = some σ') : SlotRight σ' ↔ CallbackSafe σ (.onPacket calls) := by
  obtain ⟨i, nodeId, s, packet, packets, hcontrol, hs, hmino, hstep⟩ := onPacket_eq_some hstep
  have hcalled := callback_called hstep
  -- popping changes no list and no map entry, so the calls leave what they would have left before
  have hactive : σ'.activeSessions = σ.left calls := hcalled.active
  have hid : (σ.sessions s).id = nodeId := by
    rcases (slotRight_slot hcontrol hs).mp h with hempty | hid
    · simp [hmino] at hempty
    · exact hid
  have hsession : ∀ t ∈ σ.left calls, ((σ'.sessions t).mino = [] ∨ (σ'.sessions t).id = nodeId) ↔
      ((σ.sessions t).mino = [] ∨ (σ.sessions t).id = nodeId) := by
    intro t ht
    have hlt : t < σ.fresh := hbounded t (.inr (List.mem_of_mem_filter ht))
    have hmino' := hcalled.mino t hlt
    have hid' := hcalled.id t hlt
    by_cases hts : t = s
    · subst hts
      rw [modify_sessions_self] at hid'
      rw [hid']
      simp [hid]
    · rw [modify_sessions_of_ne hts] at hmino' hid'
      rw [hmino', hid']
  rw [slotRight_draining (hcalled.control.trans hcontrol), hactive]
  simp only [CallbackSafe, hcontrol, Control.draining.injEq]
  constructor
  · rintro ⟨t, ht, hright⟩ j id ⟨rfl, rfl⟩
    exact ⟨t, ht, (hsession t (List.mem_of_getElem? ht)).mp hright⟩
  · intro hsafe
    obtain ⟨t, ht, hright⟩ := hsafe i nodeId ⟨rfl, rfl⟩
    exact ⟨t, ht, (hsession t (List.mem_of_getElem? ht)).mpr hright⟩

theorem onSignal_slotRight (hstep : σ.onSignal calls = some σ') :
    SlotRight σ' ↔ CallbackSafe σ (.onSignal calls) := by
  obtain ⟨i, nodeId, hcontrol, hstep⟩ := onSignal_eq_some hstep
  have hcalled := callback_called hstep
  have hactive : σ'.activeSessions = σ.left calls := hcalled.active
  rw [slotRight_activeLoop hcalled.control, hactive]
  simp [CallbackSafe, hcontrol]

/-- **From a right slot a step leads to a right slot exactly if its callbacks and arrivals are
safe.** -/
theorem SlotRight.step_iff (hbounded : Bounded σ) (h : SlotRight σ)
    (hstep : σ.step event = some σ') : SlotRight σ' ↔ CallbackSafe σ event := by
  cases event with
  | push s packet => exact push_slotRight h hstep
  | onPacket calls => exact onPacket_slotRight hbounded h hstep
  | onSignal calls => exact onSignal_slotRight hstep
  | call c =>
    obtain ⟨hidle, hstep⟩ := Option.ite_none_right_eq_some.mp hstep
    refine iff_of_true ?_ trivial
    simp [SlotRight, (call_called hstep).control, hidle]
  | update =>
    obtain ⟨-, rfl⟩ := update_eq_some hstep
    exact iff_of_true trivial trivial
  | timeout =>
    obtain ⟨i, s, -, -, rfl⟩ := timeout_eq_some hstep
    exact iff_of_true trivial trivial
  | acceptFails =>
    obtain ⟨i, -, rfl⟩ := acceptFails_eq_some hstep
    exact iff_of_true trivial trivial
  | accept =>
    obtain ⟨i, s, -, -, rfl⟩ := accept_eq_some hstep
    exact iff_of_true trivial trivial
  | pendingDone =>
    obtain ⟨-, rfl⟩ := pendingDone_eq_some hstep
    exact iff_of_true ((slotRight_activeLoop rfl).mpr (Nat.le_refl _)) trivial
  | visit =>
    obtain ⟨i, s, -, hs, rfl⟩ := visit_eq_some hstep
    exact iff_of_true ⟨s, hs, fun _ => rfl⟩ trivial
  | drained =>
    obtain ⟨i, nodeId, s, -, hs, -, rfl⟩ := drained_eq_some hstep
    obtain ⟨hlt, -⟩ := List.getElem?_eq_some_iff.mp hs
    exact iff_of_true ((slotRight_receiving rfl).mpr hlt) trivial
  | recvNothing =>
    obtain ⟨i, nodeId, hcontrol, rfl⟩ := recvNothing_eq_some hstep
    have hlt := (slotRight_receiving hcontrol).mp h
    exact iff_of_true ((slotRight_activeLoop rfl).mpr (Nat.le_of_lt hlt)) trivial
  | recvFails =>
    obtain ⟨i, nodeId, s, -, hs, rfl⟩ := recvFails_eq_some hstep
    exact iff_of_true hs trivial
  | remove =>
    obtain ⟨i, nodeId, t, s, -, hs, rfl⟩ := remove_eq_some hstep
    obtain ⟨hlt, -⟩ := List.getElem?_eq_some_iff.mp hs
    refine iff_of_true ((slotRight_activeLoop rfl).mpr ?_) trivial
    simp only [List.length_eraseIdx_of_lt hlt]
    omega
  | activeDone =>
    obtain ⟨-, rfl⟩ := activeDone_eq_some hstep
    exact iff_of_true trivial trivial
  | destroy =>
    obtain ⟨-, sessions, rfl⟩ := destroy_eq_some hstep
    exact iff_of_true trivial trivial

/-! ### Callbacks that shut down sessions behind the slot -/

/-- The sessions before a position stay there if no call shuts them down. -/
theorem take_prefix_left {n : ℕ}
    (h : ∀ s ∈ σ.activeSessions.take n, ∀ c ∈ calls, σ.shutsDown c ≠ some s) :
    σ.activeSessions.take n <+: σ.left calls := by
  have hkept : (σ.activeSessions.take n).filter
      (fun s => calls.all fun c => σ.shutsDown c != some s) = σ.activeSessions.take n := by
    rw [List.filter_eq_self]
    intro s hs
    simpa using h s hs
  refine ⟨(σ.activeSessions.drop n).filter fun s => calls.all fun c => σ.shutsDown c != some s, ?_⟩
  rw [← hkept, ← List.filter_append, List.take_append_drop]
  rfl

theorem left_slot (h : ∀ s ∈ σ.activeSessions.take (i + 1), ∀ c ∈ calls, σ.shutsDown c ≠ some s)
    (hs : σ.activeSessions[i]? = some s) : (σ.left calls)[i]? = some s := by
  obtain ⟨hlt, -⟩ := List.getElem?_eq_some_iff.mp hs
  obtain ⟨rest, hrest⟩ := take_prefix_left h
  have hlt' : i < (σ.activeSessions.take (i + 1)).length := by
    rw [List.length_take]
    omega
  rw [← hrest, List.getElem?_append_left hlt', List.getElem?_take_of_lt (Nat.lt_succ_self i), hs]

/-- The session in the slot that is drained is the one whose id was loaded. -/
def Visited (σ : State) : Prop :=
  ∀ i nodeId, σ.control = .draining i nodeId →
    ∃ s, σ.activeSessions[i]? = some s ∧ (σ.sessions s).id = nodeId

theorem Visited.callbackSafe (h : Visited σ) (hright : SlotRight σ) (hbehind : Behind σ event) :
    CallbackSafe σ event := by
  cases event with
  | onPacket calls =>
    intro i nodeId hcontrol
    obtain ⟨s, hs, hid⟩ := h i nodeId hcontrol
    exact ⟨s, left_slot (hbehind i nodeId hcontrol) hs, .inr hid⟩
  | onSignal calls =>
    intro i nodeId hcontrol
    have hlt := (slotRight_receiving hcontrol).mp hright
    obtain ⟨rest, hrest⟩ := take_prefix_left (hbehind i nodeId hcontrol)
    rw [← hrest, List.length_append, List.length_take]
    omega
  | push t packet =>
    intro i nodeId hcontrol ht
    obtain ⟨s, hs, hid⟩ := h i nodeId hcontrol
    obtain rfl := Option.some.inj (hs.symm.trans ht)
    exact hid
  | _ => trivial

/-- The thread comes to drain a slot by a visit, and stays there while packets arrive and are given
to `on_packet`. -/
theorem draining_of_step (hstep : σ.step event = some σ')
    (hcontrol' : σ'.control = .draining i nodeId) :
    event = .visit ∨ σ.control = .draining i nodeId ∧
      ((∃ s packet, event = .push s packet) ∨ ∃ calls, event = .onPacket calls) := by
  cases event with
  | visit => exact .inl rfl
  | push s packet =>
    obtain rfl := push_eq_some hstep
    exact .inr ⟨hcontrol', .inl ⟨s, packet, rfl⟩⟩
  | onPacket calls =>
    obtain ⟨j, id, s, packet, packets, hcontrol, -, -, hcallback⟩ := onPacket_eq_some hstep
    have hsame : σ'.control = σ.control := (callback_called hcallback).control
    exact .inr ⟨hsame.symm.trans hcontrol', .inr ⟨calls, rfl⟩⟩
  | onSignal calls =>
    obtain ⟨j, id, -, hcallback⟩ := onSignal_eq_some hstep
    have hloop : σ'.control = .activeLoop j := (callback_called hcallback).control
    cases hloop.symm.trans hcontrol'
  | call c =>
    obtain ⟨hidle, hcall⟩ := Option.ite_none_right_eq_some.mp hstep
    have hloop : σ'.control = .idle := (call_called hcall).control.trans hidle
    cases hloop.symm.trans hcontrol'
  | update =>
    obtain ⟨-, rfl⟩ := update_eq_some hstep
    cases hcontrol'
  | timeout =>
    obtain ⟨i, s, -, -, rfl⟩ := timeout_eq_some hstep
    cases hcontrol'
  | acceptFails =>
    obtain ⟨i, -, rfl⟩ := acceptFails_eq_some hstep
    cases hcontrol'
  | accept =>
    obtain ⟨i, s, -, -, rfl⟩ := accept_eq_some hstep
    cases hcontrol'
  | pendingDone =>
    obtain ⟨-, rfl⟩ := pendingDone_eq_some hstep
    cases hcontrol'
  | drained =>
    obtain ⟨i, nodeId, s, -, -, -, rfl⟩ := drained_eq_some hstep
    cases hcontrol'
  | recvNothing =>
    obtain ⟨i, nodeId, -, rfl⟩ := recvNothing_eq_some hstep
    cases hcontrol'
  | recvFails =>
    obtain ⟨i, nodeId, s, -, -, rfl⟩ := recvFails_eq_some hstep
    cases hcontrol'
  | remove =>
    obtain ⟨i, nodeId, t, s, -, -, rfl⟩ := remove_eq_some hstep
    cases hcontrol'
  | activeDone =>
    obtain ⟨-, rfl⟩ := activeDone_eq_some hstep
    cases hcontrol'
  | destroy =>
    obtain ⟨-, sessions, rfl⟩ := destroy_eq_some hstep
    cases hcontrol'

theorem Visited.step (hbounded : Bounded σ) (h : Visited σ) (hbehind : Behind σ event)
    (hstep : σ.step event = some σ') : Visited σ' := by
  intro i nodeId hcontrol'
  rcases draining_of_step hstep hcontrol' with
    rfl | ⟨hcontrol, ⟨t, packet, rfl⟩ | ⟨calls, rfl⟩⟩
  · -- the id is loaded from the session that stands there
    obtain ⟨j, s, -, hs, rfl⟩ := visit_eq_some hstep
    obtain ⟨rfl, rfl⟩ := Control.draining.inj hcontrol'
    exact ⟨s, hs, rfl⟩
  · obtain rfl := push_eq_some hstep
    obtain ⟨s, hs, hid⟩ := h i nodeId hcontrol
    exact ⟨s, hs, (modify_mino_id _ s).trans hid⟩
  · obtain ⟨j, id, t, packet, packets, -, -, -, hcallback⟩ := onPacket_eq_some hstep
    have hcalled := callback_called hcallback
    obtain ⟨s, hs, hid⟩ := h i nodeId hcontrol
    have hlt : s < σ.fresh := hbounded s (.inr (List.mem_of_getElem? hs))
    refine ⟨s, ?_, ?_⟩
    · rw [hcalled.active]
      exact left_slot (hbehind i nodeId hcontrol) hs
    · rw [hcalled.id s hlt]
      exact (modify_mino_id _ s).trans hid

/-! ### Runs -/

/-- In a run of updates and calls from any state between two calls, with any sessions, map, rings
and callbacks, every index, every `on_packet` and every removal is right exactly if the run is safe
all along. -/
theorem slotRight_throughout_iff {events : List Event} (hidle : σ.control = .idle)
    (hbounded : Bounded σ) (hrun : run State.step σ events = some σ') :
    Throughout State.step SlotRight σ events ↔ Along State.step CallbackSafe σ events := by
  apply throughout_iff_along (J := Bounded) _ _ hrun hbounded
  · simp [SlotRight, hidle]
  · intro σ event σ' hbounded _ hstep
    exact hbounded.step hstep
  · intro σ event σ' hbounded h hstep
    exact h.step_iff hbounded hstep

/-- Callbacks that shut down sessions behind the slot only do no harm, whatever the nodes put in
their rings. -/
theorem slotRight_throughout_of_behind {events : List Event} (hidle : σ.control = .idle)
    (hbounded : Bounded σ) (hrun : run State.step σ events = some σ')
    (hbehind : Along State.step Behind σ events) : Throughout State.step SlotRight σ events := by
  have hstart : Bounded σ ∧ SlotRight σ ∧ Visited σ := by
    refine ⟨hbounded, by simp [SlotRight, hidle], ?_⟩
    intro i nodeId hcontrol
    cases hidle.symm.trans hcontrol
  have hall : Throughout State.step (fun σ => Bounded σ ∧ SlotRight σ ∧ Visited σ) σ events := by
    refine throughout_of_along ?_ hrun hstart hbehind
    rintro σ event σ' ⟨hbounded, hright, hvisited⟩ hbehind hstep
    have hsafe := hvisited.callbackSafe hright hbehind
    exact ⟨hbounded.step hstep, (hright.step_iff hbounded hstep).mpr hsafe,
      hvisited.step hbounded hbehind hstep⟩
  exact hall.mono fun _ h => h.2.1

/-- One node with a packet in its ring: its `on_packet` spawns another node and answers. -/
def answered : State where
  sessions := fun _ => { NodeSession.spawned 7 with mino := [(1, [])] }
  pendingSessions := []
  activeSessions := [0]
  activeSessionMap := fun id => if id = 7 then some 0 else none
  control := .idle
  fresh := 1

theorem slotRight_throughout_answered :
    Throughout State.step SlotRight answered [.update, .pendingDone, .visit,
      .onPacket [.spawnNode (some 8), .sendPacket 7], .drained, .recvNothing, .activeDone] := by
  have hbounded : Bounded answered := by
    rintro s (hs | hs)
    · cases hs
    · rw [List.mem_singleton.mp hs]
      decide
  have hsafe : Along State.step CallbackSafe answered [.update, .pendingDone, .visit,
      .onPacket [.spawnNode (some 8), .sendPacket 7], .drained, .recvNothing, .activeDone] := by
    refine (along_cons rfl).mpr ⟨trivial, (along_cons rfl).mpr ⟨trivial, (along_cons rfl).mpr
      ⟨trivial, (along_cons rfl).mpr ⟨?_, (along_cons rfl).mpr ⟨trivial, (along_cons rfl).mpr
        ⟨trivial, (along_cons rfl).mpr ⟨trivial, trivial⟩⟩⟩⟩⟩⟩⟩
    rintro i nodeId hcontrol
    obtain ⟨rfl, rfl⟩ := Control.draining.inj hcontrol
    exact ⟨0, rfl, .inr rfl⟩
  exact (slotRight_throughout_iff rfl hbounded rfl).mpr hsafe

/-- An `on_packet` that shuts down the only session leaves nothing in the slot that is drained. -/
theorem shut_down_in_callback :
    ∃ σ', run State.step answered [.update, .pendingDone, .visit, .onPacket [.shutdownNode 7]]
      = some σ' ∧ σ'.control = .draining 0 7 ∧ σ'.activeSessions[0]? = none ∧ ¬ SlotRight σ' := by
  refine ⟨_, rfl, rfl, rfl, ?_⟩
  rintro ⟨s, hs, -⟩
  cases hs

end IpcSessions

end IACore
