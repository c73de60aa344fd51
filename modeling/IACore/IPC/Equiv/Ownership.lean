import IACore.IPC.Equiv.Sessions
import IACore.Library.EventRun
import Mathlib.Data.List.Nodup
import Mathlib.Data.List.Perm.Basic

/-!
# Sessions are conserved

`spawn_node` puts a session into `m_pending_sessions`; `accept` moves it over; the five-second
timeout, a failed `recv` and the destructor take it out, each with its own list of releases.  As
long as callbacks stay outside the manager every step keeps every session in its place
(`Conserved.step`), so behind the destructor all are released, each resource once.
-/

namespace IACore

namespace IpcSessions

open EventRun State

variable {σ σ' : State} {s i : ℕ} {event : Event}

/-! ### Releases -/

namespace NodeSession

variable {session : NodeSession}

theorem Unreleased.accepted (h : session.Unreleased) : session.accepted.Accepted := by
  obtain ⟨-, hlistener, hunmaps, hunlinks, hlisteners, hdatas⟩ := h
  refine ⟨rfl, rfl, hunmaps, hunlinks, ?_, hdatas⟩
  simp [NodeSession.accepted, closeListener, hlistener, hlisteners]

/-- The timeout and the destructor's second loop. -/
theorem Unreleased.released (h : session.Unreleased) :
    session.releaseMemory.closeListener.Released := by
  obtain ⟨hdata, hlistener, hunmaps, hunlinks, hlisteners, hdatas⟩ := h
  simp [Released, releaseMemory, closeListener, hdata, hlistener, hunmaps, hunlinks, hlisteners,
    hdatas]

/-- A failed `recv` and the destructor's first loop. -/
theorem Accepted.released (h : session.Accepted) : session.releaseMemory.closeData.Released := by
  obtain ⟨hdata, -, hunmaps, hunlinks, hlisteners, hdatas⟩ := h
  simp [Released, releaseMemory, closeData, hdata, hunmaps, hunlinks, hlisteners, hdatas]

end NodeSession

/-! ### Places -/

theorem count_eraseIdx_self {l : List ℕ} (h : l[i]? = some s) :
    (l.eraseIdx i).count s + 1 = l.count s := by
  obtain ⟨hi, rfl⟩ := List.getElem?_eq_some_iff.mp h
  have hperm := (List.getElem_cons_eraseIdx_perm hi).count_eq l[i]
  rw [← hperm, List.count_cons_self]

theorem count_eraseIdx_of_ne {l : List ℕ} (h : l[i]? = some s) {t : ℕ} (ht : t ≠ s) :
    (l.eraseIdx i).count t = l.count t := by
  obtain ⟨hi, rfl⟩ := List.getElem?_eq_some_iff.mp h
  have hperm := (List.getElem_cons_eraseIdx_perm hi).count_eq t
  rw [← hperm, List.count_cons_of_ne (Ne.symm ht)]

namespace Conserved

theorem pending (h : Conserved σ) (hbounded : Bounded σ) (hs : s ∈ σ.pendingSessions) :
    σ.pendingSessions.count s = 1 ∧ σ.activeSessions.count s = 0 ∧
      (σ.sessions s).Unreleased := by
  have hpos := List.count_pos_iff.mpr hs
  rcases h s (hbounded s (.inl hs)) with hplaced | ⟨hzero, -, -⟩ | ⟨hzero, -, -⟩
  · exact hplaced
  · omega
  · omega

theorem active (h : Conserved σ) (hbounded : Bounded σ) (hs : s ∈ σ.activeSessions) :
    σ.pendingSessions.count s = 0 ∧ σ.activeSessions.count s = 1 ∧ (σ.sessions s).Accepted := by
  have hpos := List.count_pos_iff.mpr hs
  rcases h s (hbounded s (.inr hs)) with ⟨-, hzero, -⟩ | hplaced | ⟨-, hzero, -⟩
  · omega
  · exact hplaced
  · omega

theorem pending_nodup (h : Conserved σ) (hbounded : Bounded σ) : σ.pendingSessions.Nodup := by
  rw [List.nodup_iff_count_le_one]
  intro s
  by_cases hs : s ∈ σ.pendingSessions
  · exact Nat.le_of_eq (h.pending hbounded hs).1
  · simp [List.count_eq_zero_of_not_mem hs]

theorem active_nodup (h : Conserved σ) (hbounded : Bounded σ) : σ.activeSessions.Nodup := by
  rw [List.nodup_iff_count_le_one]
  intro s
  by_cases hs : s ∈ σ.activeSessions
  · exact Nat.le_of_eq (h.active hbounded hs).2.1
  · simp [List.count_eq_zero_of_not_mem hs]

/-- One session moves; the others keep their places. -/
theorem move (h : Conserved σ) (hfresh : σ'.fresh = σ.fresh)
    (hself : Placed (σ'.pendingSessions.count s) (σ'.activeSessions.count s) (σ'.sessions s))
    (hothers : ∀ t, t ≠ s → σ'.pendingSessions.count t = σ.pendingSessions.count t ∧
      σ'.activeSessions.count t = σ.activeSessions.count t ∧ σ'.sessions t = σ.sessions t) :
    Conserved σ' := by
  intro t ht
  by_cases hts : t = s
  · exact hts ▸ hself
  · obtain ⟨hpending, hactive, hsession⟩ := hothers t hts
    rw [hpending, hactive, hsession]
    exact h t (hfresh ▸ ht)

/-- A ring changes. -/
theorem modify_mino (h : Conserved σ) (s : ℕ) (f : NodeSession → List (UInt16 × List UInt8)) :
    Conserved (σ.modify s fun session => { session with mino := f session }) := by
  intro t ht
  by_cases hts : t = s
  · subst hts
    rw [modify_sessions_self]
    exact h t ht
  · rw [modify_sessions_of_ne hts]
    exact h t ht

theorem spawnNode (h : Conserved σ) (hbounded : Bounded σ) (id : Option ℕ) :
    Conserved (σ.spawnNode id) := by
  cases id with
  | none => exact h
  | some id =>
    intro t ht
    have hpending : σ.fresh ∉ σ.pendingSessions :=
      fun hmem => Nat.lt_irrefl _ (hbounded _ (.inl hmem))
    have hactive : σ.fresh ∉ σ.activeSessions :=
      fun hmem => Nat.lt_irrefl _ (hbounded _ (.inr hmem))
    simp only [State.spawnNode, List.count_append, List.count_singleton] at ht ⊢
    by_cases htf : t = σ.fresh
    · subst htf
      rw [List.count_eq_zero_of_not_mem hpending, List.count_eq_zero_of_not_mem hactive,
        Function.update_self]
      exact .inl ⟨by simp, rfl, rfl, rfl, rfl, rfl, rfl, rfl⟩
    · rw [Function.update_of_ne htf]
      have hother : (σ.fresh == t) = false := by simpa using Ne.symm htf
      rw [hother]
      exact h t (by omega)

theorem timeout (h : Conserved σ) (hbounded : Bounded σ) (hstep : σ.timeout = some σ') :
    Conserved σ' := by
  obtain ⟨i, s, -, hs, rfl⟩ := timeout_eq_some hstep
  obtain ⟨hpending, hactive, hheld⟩ := h.pending hbounded (List.mem_of_getElem? hs)
  have herase := count_eraseIdx_self hs
  refine h.move (s := s) rfl (.inr (.inr ⟨?_, hactive, ?_⟩)) fun t ht => ⟨?_, rfl, ?_⟩
  · dsimp only
    omega
  · simpa using hheld.released
  · exact count_eraseIdx_of_ne hs ht
  · exact Function.update_of_ne ht _ _

theorem accept (h : Conserved σ) (hbounded : Bounded σ) (hstep : σ.accept = some σ') :
    Conserved σ' := by
  obtain ⟨i, s, -, hs, rfl⟩ := accept_eq_some hstep
  obtain ⟨hpending, hactive, hheld⟩ := h.pending hbounded (List.mem_of_getElem? hs)
  have herase := count_eraseIdx_self hs
  refine h.move (s := s) rfl (.inr (.inl ⟨?_, ?_, ?_⟩)) fun t ht => ⟨?_, ?_, ?_⟩
  · dsimp only
    omega
  · simp [hactive]
  · simpa using hheld.accepted
  · exact count_eraseIdx_of_ne hs ht
  · simp [Ne.symm ht]
  · exact Function.update_of_ne ht _ _

theorem remove (h : Conserved σ) (hbounded : Bounded σ) (hstep : σ.remove = some σ') :
    Conserved σ' := by
  obtain ⟨i, nodeId, u, s, -, hs, rfl⟩ := remove_eq_some hstep
  obtain ⟨hpending, hactive, hheld⟩ := h.active hbounded (List.mem_of_getElem? hs)
  have herase := count_eraseIdx_self hs
  refine h.move (s := s) rfl (.inr (.inr ⟨hpending, ?_, ?_⟩)) fun t ht => ⟨rfl, ?_, ?_⟩
  · dsimp only
    omega
  · simpa using hheld.released
  · exact count_eraseIdx_of_ne hs ht
  · exact Function.update_of_ne ht _ _

/-- Behind the destructor every session is released. -/
theorem released (h : Conserved σ) (hbounded : Bounded σ) (hstep : σ.destroy = some σ') :
    ∀ t < σ.fresh, (σ'.sessions t).Released := by
  intro t ht
  rw [destroy_sessions hstep (h.active_nodup hbounded) (h.pending_nodup hbounded)]
  rcases h t ht with ⟨hpending, hactive, hheld⟩ | ⟨hpending, hactive, hheld⟩ |
    ⟨hpending, hactive, hreleased⟩
  · have hmem : t ∈ σ.pendingSessions := List.count_pos_iff.mp (by omega)
    have hnot : t ∉ σ.activeSessions := List.count_eq_zero.mp hactive
    simpa [hmem, hnot] using hheld.released
  · have hmem : t ∈ σ.activeSessions := List.count_pos_iff.mp (by omega)
    have hnot : t ∉ σ.pendingSessions := List.count_eq_zero.mp hpending
    simpa [hmem, hnot] using hheld.released
  · have hnot : t ∉ σ.activeSessions := List.count_eq_zero.mp hactive
    have hnot' : t ∉ σ.pendingSessions := List.count_eq_zero.mp hpending
    simpa [hnot, hnot'] using hreleased

theorem destroy (h : Conserved σ) (hbounded : Bounded σ) (hstep : σ.destroy = some σ') :
    Conserved σ' := by
  have hreleased := h.released hbounded hstep
  obtain ⟨-, sessions, rfl⟩ := destroy_eq_some hstep
  intro t ht
  exact .inr (.inr ⟨rfl, rfl, hreleased t ht⟩)

theorem step (h : Conserved σ) (hbounded : Bounded σ) (hevent : NonReentrant event)
    (hstep : σ.step event = some σ') : Conserved σ' := by
  cases event with
  | call c =>
    obtain ⟨-, hstep⟩ := Option.ite_none_right_eq_some.mp hstep
    cases c with
    | spawnNode id =>
      obtain rfl := Option.some.inj hstep
      exact h.spawnNode hbounded id
    | sendSignal | sendPacket | shutdownNode => cases hevent
  | push s packet =>
    obtain rfl := push_eq_some hstep
    exact h.modify_mino s _
  | onPacket calls =>
    obtain rfl : calls = [] := hevent
    obtain ⟨i, nodeId, s, packet, packets, -, -, -, hstep⟩ := onPacket_eq_some hstep
    obtain rfl := Option.some.inj hstep
    exact h.modify_mino s _
  | onSignal calls =>
    obtain rfl : calls = [] := hevent
    obtain ⟨i, nodeId, -, hstep⟩ := onSignal_eq_some hstep
    obtain rfl := Option.some.inj hstep
    exact h
  | timeout => exact h.timeout hbounded hstep
  | accept => exact h.accept hbounded hstep
  | remove => exact h.remove hbounded hstep
  | destroy => exact h.destroy hbounded hstep
  | update | acceptFails | pendingDone | visit | drained | recvNothing | recvFails | activeDone =>
    obtain ⟨control, rfl⟩ := movesOn_eq_some hstep trivial
    exact h

end Conserved

/-! ### Indices -/

/-- The index that `update` uses next on one of the vectors is in range. -/
def InRange (σ : State) : Prop :=
  match σ.control with
  | .pendingLoop i => i ≤ σ.pendingSessions.length
  | .activeLoop i => i ≤ σ.activeSessions.length
  | .draining i _ => i < σ.activeSessions.length
  | .receiving i _ => i < σ.activeSessions.length
  | .failed i _ _ => i < σ.activeSessions.length
  | _ => True

theorem lt_of_getElem? {l : List ℕ} (h : l[i]? = some s) : i < l.length :=
  (List.getElem?_eq_some_iff.mp h).1

/-- The downward loops stay in range over what they erase. -/
theorem InRange.step (h : InRange σ) (hevent : NonReentrant event)
    (hstep : σ.step event = some σ') : InRange σ' := by
  cases event with
  | call c =>
    obtain ⟨hidle, hstep⟩ := Option.ite_none_right_eq_some.mp hstep
    simp [InRange, (call_called hstep).control, hidle]
  | push s packet =>
    obtain rfl := push_eq_some hstep
    exact h
  | update =>
    obtain ⟨-, rfl⟩ := update_eq_some hstep
    exact Nat.le_refl _
  | timeout =>
    obtain ⟨i, s, -, hs, rfl⟩ := timeout_eq_some hstep
    have hi := lt_of_getElem? hs
    simp only [InRange, List.length_eraseIdx_of_lt hi]
    omega
  | acceptFails =>
    obtain ⟨i, hcontrol, rfl⟩ := acceptFails_eq_some hstep
    simp only [InRange, hcontrol] at h ⊢
    omega
  | accept =>
    obtain ⟨i, s, -, hs, rfl⟩ := accept_eq_some hstep
    have hi := lt_of_getElem? hs
    simp only [InRange, List.length_eraseIdx_of_lt hi]
    omega
  | pendingDone =>
    obtain ⟨-, rfl⟩ := pendingDone_eq_some hstep
    exact Nat.le_refl _
  | visit =>
    obtain ⟨i, s, -, hs, rfl⟩ := visit_eq_some hstep
    exact lt_of_getElem? hs
  | onPacket calls =>
    obtain rfl : calls = [] := hevent
    obtain ⟨i, nodeId, s, packet, packets, -, -, -, hstep⟩ := onPacket_eq_some hstep
    obtain rfl := Option.some.inj hstep
    exact h
  | drained =>
    obtain ⟨i, nodeId, s, -, hs, -, rfl⟩ := drained_eq_some hstep
    exact lt_of_getElem? hs
  | recvNothing =>
    obtain ⟨i, nodeId, hcontrol, rfl⟩ := recvNothing_eq_some hstep
    simp only [InRange, hcontrol] at h ⊢
    omega
  | onSignal calls =>
    obtain rfl : calls = [] := hevent
    obtain ⟨i, nodeId, hcontrol, hstep⟩ := onSignal_eq_some hstep
    obtain rfl := Option.some.inj hstep
    simp only [InRange, hcontrol] at h ⊢
    omega
  | recvFails =>
    obtain ⟨i, nodeId, s, -, hs, rfl⟩ := recvFails_eq_some hstep
    exact lt_of_getElem? hs
  | remove =>
    obtain ⟨i, nodeId, t, s, -, hs, rfl⟩ := remove_eq_some hstep
    have hi := lt_of_getElem? hs
    simp only [InRange, List.length_eraseIdx_of_lt hi]
    omega
  | activeDone =>
    obtain ⟨-, rfl⟩ := activeDone_eq_some hstep
    trivial
  | destroy =>
    obtain ⟨-, sessions, rfl⟩ := destroy_eq_some hstep
    trivial

/-! ### Runs -/

section Runs

variable {events : List Event}

/-- What every state of a run satisfies whose callbacks stay outside the manager. -/
theorem holds_of_run (hevents : ∀ event ∈ events, NonReentrant event)
    (hrun : run State.step start events = some σ) : Bounded σ ∧ Conserved σ ∧ InRange σ := by
  refine invariant_of_events (I := fun σ => Bounded σ ∧ Conserved σ ∧ InRange σ) ?_ hevents hrun
    ⟨?_, ?_, trivial⟩
  · rintro σ event σ' hevent ⟨hbounded, hconserved, hrange⟩ hstep
    exact ⟨hbounded.step hstep, hconserved.step hbounded hevent hstep, hrange.step hevent hstep⟩
  · rintro s (hs | hs) <;> cases hs
  · intro s hs
    cases hs

/-- No run is cut short by an index: `update` always has a session to look at. -/
theorem inRange_of_run (hevents : ∀ event ∈ events, NonReentrant event)
    (hrun : run State.step start events = some σ) : InRange σ :=
  (holds_of_run hevents hrun).2.2

/-- After any calls of `spawn_node` and `update`, whatever the sockets and the clock do, every
spawned session is once in one of the two lists, held, or in neither, released; and behind the
destructor each has been released, every resource once. -/
theorem sessions_conserved (hevents : ∀ event ∈ events, NonReentrant event)
    (hrun : run State.step start events = some σ) :
    Conserved σ ∧
      ∀ σ', σ.step .destroy = some σ' → ∀ s < σ'.fresh, (σ'.sessions s).Released := by
  obtain ⟨hbounded, hconserved, -⟩ := holds_of_run hevents hrun
  refine ⟨hconserved, ?_⟩
  intro σ' hstep s hs
  have hstep' : σ.destroy = some σ' := hstep
  obtain ⟨-, sessions, rfl⟩ := destroy_eq_some hstep'
  exact hconserved.released hbounded hstep' s hs

/-- Two sessions, one of which is accepted and then found disconnected. -/
theorem sessions_conserved_two :
    ∃ σ, run State.step start [.call (.spawnNode (some 7)), .call (.spawnNode (some 8)), .update,
        .accept, .acceptFails, .pendingDone, .visit, .drained, .recvFails, .remove, .activeDone]
        = some σ ∧ Conserved σ ∧
      ∀ σ', σ.step .destroy = some σ' → ∀ s < σ'.fresh, (σ'.sessions s).Released := by
  have hevents : ∀ event ∈ [Event.call (.spawnNode (some 7)), .call (.spawnNode (some 8)),
      .update, .accept, .acceptFails, .pendingDone, .visit, .drained, .recvFails, .remove,
      .activeDone], NonReentrant event := by
    intro event hevent
    simp only [List.mem_cons, List.not_mem_nil, or_false] at hevent
    rcases hevent with rfl | rfl | rfl | rfl | rfl | rfl | rfl | rfl | rfl | rfl | rfl <;> trivial
  exact ⟨_, rfl, sessions_conserved hevents rfl⟩

end Runs

end IpcSessions

end IACore
