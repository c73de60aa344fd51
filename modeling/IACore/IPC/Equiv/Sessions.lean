import IACore.IPC.Sessions

/-!
# Steps of the sessions

What each event can do, once for all invariants: the control it needs, the session it finds and the
state it leads to.  A callback is taken as a whole (`Called`): it takes the sessions that it shuts
down from the active ones and leaves the others' rings and ids alone.
-/

namespace IACore

namespace IpcSessions

open State

variable {σ σ' : State} {s : ℕ} {calls : List Call} {event : Event}

/-! ### What a call does -/

@[simp] theorem modify_pendingSessions (f : NodeSession → NodeSession) :
    (σ.modify s f).pendingSessions = σ.pendingSessions := rfl

@[simp] theorem modify_activeSessions (f : NodeSession → NodeSession) :
    (σ.modify s f).activeSessions = σ.activeSessions := rfl

@[simp] theorem modify_activeSessionMap (f : NodeSession → NodeSession) :
    (σ.modify s f).activeSessionMap = σ.activeSessionMap := rfl

@[simp] theorem modify_control (f : NodeSession → NodeSession) :
    (σ.modify s f).control = σ.control := rfl

@[simp] theorem modify_fresh (f : NodeSession → NodeSession) :
    (σ.modify s f).fresh = σ.fresh := rfl

@[simp] theorem modify_sessions_self (f : NodeSession → NodeSession) :
    (σ.modify s f).sessions s = f (σ.sessions s) := Function.update_self _ _ _

theorem modify_sessions_of_ne {t : ℕ} (h : t ≠ s) (f : NodeSession → NodeSession) :
    (σ.modify s f).sessions t = σ.sessions t := Function.update_of_ne h _ _

/-- A change of a ring changes no id. -/
theorem modify_mino_id (f : NodeSession → List (UInt16 × List UInt8)) (t : ℕ) :
    ((σ.modify s fun session => { session with mino := f session }).sessions t).id
      = (σ.sessions t).id := by
  by_cases hts : t = s
  · subst hts
    rw [modify_sessions_self]
  · rw [modify_sessions_of_ne hts]

/-- A callback takes the sessions that it shuts down from the active ones and touches neither the
rings nor the ids of those that there were. -/
structure Called (σ : State) (calls : List Call) (σ' : State) : Prop where
  active : σ'.activeSessions = σ.left calls
  control : σ'.control = σ.control
  mino : ∀ s < σ.fresh, (σ'.sessions s).mino = (σ.sessions s).mino
  id : ∀ s < σ.fresh, (σ'.sessions s).id = (σ.sessions s).id
  fresh : σ.fresh ≤ σ'.fresh
  pending : ∀ s ∈ σ'.pendingSessions, s ∈ σ.pendingSessions ∨ s < σ'.fresh

theorem left_nil : σ.left [] = σ.activeSessions := by simp [State.left]

/-- A call that shuts nothing down. -/
theorem left_singleton_of_none {c : Call} (h : σ.shutsDown c = none) :
    σ.left [c] = σ.activeSessions := by simp [State.left, h]

theorem Called.refl (σ : State) : Called σ [] σ :=
  ⟨left_nil.symm, rfl, fun _ _ => rfl, fun _ _ => rfl, Nat.le_refl _, fun _ hs => .inl hs⟩

/-- A call that leaves everything as it is. -/
theorem Called.same {c : Call} (h : σ.shutsDown c = none) : Called σ [c] σ :=
  ⟨(left_singleton_of_none h).symm, rfl, fun _ _ => rfl, fun _ _ => rfl, Nat.le_refl _,
    fun _ hs => .inl hs⟩

theorem send_eq_some {id : ℕ} (h : σ.send id = some σ') : σ' = σ := by
  unfold State.send at h
  split at h
  · exact (Option.some.inj h).symm
  · obtain ⟨-, h⟩ := Option.ite_none_right_eq_some.mp h
    exact (Option.some.inj h).symm

/-- `shutdown_node` of an id that is in the map. -/
theorem shutdownNode_eq_some {id : ℕ} (h : σ.shutdownNode id = some σ') :
    (σ.activeSessionMap id = none ∧ σ' = σ) ∨
    ∃ node, σ.activeSessionMap id = some node ∧
      σ' = { σ.modify node fun session => session.releaseMemory.closeData with
        activeSessions := σ.activeSessions.filter fun s => s ≠ node
        activeSessionMap := Function.update σ.activeSessionMap id none } := by
  unfold State.shutdownNode at h
  split at h
  · next hnone => exact .inl ⟨hnone, (Option.some.inj h).symm⟩
  · next node hnode =>
    obtain ⟨-, h⟩ := Option.ite_none_right_eq_some.mp h
    exact .inr ⟨node, hnode, (Option.some.inj h).symm⟩

theorem call_called {c : Call} (h : σ.call c = some σ') : Called σ [c] σ' := by
  cases c with
  | sendSignal id =>
    obtain rfl := send_eq_some h
    exact .same rfl
  | sendPacket id =>
    obtain rfl := send_eq_some h
    exact .same rfl
  | shutdownNode id =>
    rcases shutdownNode_eq_some h with ⟨hnone, rfl⟩ | ⟨node, hnode, rfl⟩
    · exact .same hnone
    · refine ⟨?_, rfl, fun s _ => ?_, fun s _ => ?_, Nat.le_refl _, fun s hs => .inl hs⟩
      · simp only [State.left, State.shutsDown, hnode, List.all_cons, List.all_nil, Bool.and_true]
        apply List.filter_congr
        intro s _
        rw [Bool.eq_iff_iff]
        simp only [ne_eq, decide_eq_true_eq, bne_iff_ne, Option.some.injEq]
        exact not_congr eq_comm
      · by_cases hs : s = node
        · subst hs
          simp [NodeSession.releaseMemory, NodeSession.closeData]
        · simp [modify_sessions_of_ne hs]
      · by_cases hs : s = node
        · subst hs
          simp [NodeSession.releaseMemory, NodeSession.closeData]
        · simp [modify_sessions_of_ne hs]
  | spawnNode id =>
    obtain rfl := Option.some.inj h
    cases id with
    | none => exact .same rfl
    | some id =>
      refine ⟨(left_singleton_of_none rfl).symm, rfl, fun s hs => ?_, fun s hs => ?_,
        Nat.le_succ _, fun s hs => ?_⟩
      · simp [State.spawnNode, Function.update_of_ne (Nat.ne_of_lt hs)]
      · simp [State.spawnNode, Function.update_of_ne (Nat.ne_of_lt hs)]
      · rcases List.mem_append.mp hs with hs | hs
        · exact .inl hs
        · rw [List.mem_singleton] at hs
          exact .inr (hs ▸ Nat.lt_succ_self _)

/-- For a session that a call spares, it does not matter to the later calls that it was made. -/
theorem shutsDown_of_call {c : Call} (h : σ.call c = some σ') (hs : σ.shutsDown c ≠ some s)
    (c' : Call) : σ'.shutsDown c' = some s ↔ σ.shutsDown c' = some s := by
  cases c with
  | sendSignal id =>
    obtain rfl := send_eq_some h
    rfl
  | sendPacket id =>
    obtain rfl := send_eq_some h
    rfl
  | shutdownNode id =>
    rcases shutdownNode_eq_some h with ⟨hnone, rfl⟩ | ⟨node, hnode, rfl⟩
    · rfl
    · cases c' with
      | shutdownNode id' =>
        by_cases hid : id' = id
        · -- the entry is gone, and was not that of `s`
          subst hid
          simp only [State.shutsDown, Function.update_self, reduceCtorEq, false_iff]
          exact hs
        · simp only [State.shutsDown, Function.update_of_ne hid]
      | sendSignal | sendPacket | spawnNode => rfl
  | spawnNode id =>
    obtain rfl := Option.some.inj h
    cases id <;> cases c' <;> rfl

theorem left_cons {c : Call} (h : σ.call c = some σ') : σ'.left calls = σ.left (c :: calls) := by
  have hactive := (call_called h).active
  rw [State.left, hactive, State.left, State.left, List.filter_filter]
  apply List.filter_congr
  intro s _
  rw [Bool.eq_iff_iff]
  simp only [List.all_cons, List.all_nil, Bool.and_true, Bool.and_eq_true, bne_iff_ne,
    List.all_eq_true]
  constructor
  · rintro ⟨hall, hs⟩
    exact ⟨hs, fun c' hc' hshuts => hall c' hc' ((shutsDown_of_call h hs c').mpr hshuts)⟩
  · rintro ⟨hs, hall⟩
    exact ⟨fun c' hc' hshuts => hall c' hc' ((shutsDown_of_call h hs c').mp hshuts), hs⟩

/-- What a callback does. -/
theorem callback_called (h : σ.callback calls = some σ') : Called σ calls σ' := by
  induction calls generalizing σ with
  | nil => exact Option.some.inj h ▸ Called.refl σ
  | cons c calls ih =>
    obtain ⟨σ₁, hc, hcalls⟩ := Option.bind_eq_some_iff.mp h
    have h₁ := call_called hc
    have h₂ := ih hcalls
    refine ⟨h₂.active.trans (left_cons hc), h₂.control.trans h₁.control, fun s hs => ?_,
      fun s hs => ?_, Nat.le_trans h₁.fresh h₂.fresh, fun s hs => ?_⟩
    · exact (h₂.mino s (Nat.lt_of_lt_of_le hs h₁.fresh)).trans (h₁.mino s hs)
    · exact (h₂.id s (Nat.lt_of_lt_of_le hs h₁.fresh)).trans (h₁.id s hs)
    · rcases h₂.pending s hs with hs | hs
      · rcases h₁.pending s hs with hs | hs
        · exact .inl hs
        · exact .inr (Nat.lt_of_lt_of_le hs h₂.fresh)
      · exact .inr hs

/-! ### What an event does -/

theorem update_eq_some (h : σ.update = some σ') :
    σ.control = .idle ∧ σ' = { σ with control := .pendingLoop σ.pendingSessions.length } := by
  obtain ⟨hidle, h⟩ := Option.ite_none_right_eq_some.mp h
  exact ⟨hidle, (Option.some.inj h).symm⟩

theorem timeout_eq_some (h : σ.timeout = some σ') :
    ∃ i s, σ.control = .pendingLoop (i + 1) ∧ σ.pendingSessions[i]? = some s ∧
      σ' = { σ.modify s fun session => session.releaseMemory.closeListener with
        pendingSessions := σ.pendingSessions.eraseIdx i
        control := .pendingLoop i } := by
  unfold State.timeout at h
  split at h
  · next i hcontrol =>
    obtain ⟨s, hs, h⟩ := Option.bind_eq_some_iff.mp h
    exact ⟨i, s, hcontrol, hs, (Option.some.inj h).symm⟩
  · cases h

theorem acceptFails_eq_some (h : σ.acceptFails = some σ') :
    ∃ i, σ.control = .pendingLoop (i + 1) ∧ σ' = { σ with control := .pendingLoop i } := by
  unfold State.acceptFails at h
  split at h
  · next i hcontrol => exact ⟨i, hcontrol, (Option.some.inj h).symm⟩
  · cases h

theorem accept_eq_some (h : σ.accept = some σ') :
    ∃ i s, σ.control = .pendingLoop (i + 1) ∧ σ.pendingSessions[i]? = some s ∧
      σ' = { σ.modify s NodeSession.accepted with
        activeSessions := σ.activeSessions ++ [s]
        pendingSessions := σ.pendingSessions.eraseIdx i
        activeSessionMap := Function.update σ.activeSessionMap (σ.sessions s).id (some s)
        control := .pendingLoop i } := by
  unfold State.accept at h
  split at h
  · next i hcontrol =>
    obtain ⟨s, hs, h⟩ := Option.bind_eq_some_iff.mp h
    exact ⟨i, s, hcontrol, hs, (Option.some.inj h).symm⟩
  · cases h

theorem pendingDone_eq_some (h : σ.pendingDone = some σ') :
    σ.control = .pendingLoop 0 ∧
      σ' = { σ with control := .activeLoop σ.activeSessions.length } := by
  obtain ⟨hcontrol, h⟩ := Option.ite_none_right_eq_some.mp h
  exact ⟨hcontrol, (Option.some.inj h).symm⟩

theorem visit_eq_some (h : σ.visit = some σ') :
    ∃ i s, σ.control = .activeLoop (i + 1) ∧ σ.activeSessions[i]? = some s ∧
      σ' = { σ with control := .draining i (σ.sessions s).id } := by
  unfold State.visit at h
  split at h
  · next i hcontrol =>
    obtain ⟨s, hs, h⟩ := Option.bind_eq_some_iff.mp h
    exact ⟨i, s, hcontrol, hs, (Option.some.inj h).symm⟩
  · cases h

theorem onPacket_eq_some (h : σ.onPacket calls = some σ') :
    ∃ i nodeId s packet packets, σ.control = .draining i nodeId ∧
      σ.activeSessions[i]? = some s ∧ (σ.sessions s).mino = packet :: packets ∧
      (σ.modify s fun session => { session with mino := packets }).callback calls = some σ' := by
  unfold State.onPacket at h
  split at h
  · next i nodeId hcontrol =>
    obtain ⟨s, hs, h⟩ := Option.bind_eq_some_iff.mp h
    split at h
    · cases h
    · next packet packets hmino => exact ⟨i, nodeId, s, packet, packets, hcontrol, hs, hmino, h⟩
  · cases h

theorem drained_eq_some (h : σ.drained = some σ') :
    ∃ i nodeId s, σ.control = .draining i nodeId ∧ σ.activeSessions[i]? = some s ∧
      (σ.sessions s).mino = [] ∧ σ' = { σ with control := .receiving i nodeId } := by
  unfold State.drained at h
  split at h
  · next i nodeId hcontrol =>
    obtain ⟨s, hs, h⟩ := Option.bind_eq_some_iff.mp h
    obtain ⟨hmino, h⟩ := Option.ite_none_right_eq_some.mp h
    exact ⟨i, nodeId, s, hcontrol, hs, hmino, (Option.some.inj h).symm⟩
  · cases h

theorem recvNothing_eq_some (h : σ.recvNothing = some σ') :
    ∃ i nodeId, σ.control = .receiving i nodeId ∧ σ' = { σ with control := .activeLoop i } := by
  unfold State.recvNothing at h
  split at h
  · next i nodeId hcontrol => exact ⟨i, nodeId, hcontrol, (Option.some.inj h).symm⟩
  · cases h

theorem onSignal_eq_some (h : σ.onSignal calls = some σ') :
    ∃ i nodeId, σ.control = .receiving i nodeId ∧
      { σ with control := .activeLoop i }.callback calls = some σ' := by
  unfold State.onSignal at h
  split at h
  · next i nodeId hcontrol => exact ⟨i, nodeId, hcontrol, h⟩
  · cases h

theorem recvFails_eq_some (h : σ.recvFails = some σ') :
    ∃ i nodeId s, σ.control = .receiving i nodeId ∧ σ.activeSessions[i]? = some s ∧
      σ' = { σ with control := .failed i nodeId s } := by
  unfold State.recvFails at h
  split at h
  · next i nodeId hcontrol =>
    obtain ⟨s, hs, h⟩ := Option.bind_eq_some_iff.mp h
    exact ⟨i, nodeId, s, hcontrol, hs, (Option.some.inj h).symm⟩
  · cases h

theorem remove_eq_some (h : σ.remove = some σ') :
    ∃ i nodeId t s, σ.control = .failed i nodeId t ∧ σ.activeSessions[i]? = some s ∧
      σ' = { σ.modify s fun session => session.releaseMemory.closeData with
        activeSessions := σ.activeSessions.eraseIdx i
        activeSessionMap := Function.update σ.activeSessionMap nodeId none
        control := .activeLoop i } := by
  unfold State.remove at h
  split at h
  · next i nodeId t hcontrol =>
    obtain ⟨s, hs, h⟩ := Option.bind_eq_some_iff.mp h
    exact ⟨i, nodeId, t, s, hcontrol, hs, (Option.some.inj h).symm⟩
  · cases h

theorem activeDone_eq_some (h : σ.activeDone = some σ') :
    σ.control = .activeLoop 0 ∧ σ' = { σ with control := .idle } := by
  obtain ⟨hcontrol, h⟩ := Option.ite_none_right_eq_some.mp h
  exact ⟨hcontrol, (Option.some.inj h).symm⟩

theorem push_eq_some {packet : UInt16 × List UInt8} (h : σ.push s packet = some σ') :
    σ' = σ.modify s fun session => { session with mino := session.mino ++ [packet] } := by
  obtain ⟨-, h⟩ := Option.ite_none_left_eq_some.mp h
  exact (Option.some.inj h).symm

/-- A loop over sessions changes nothing but these sessions. -/
theorem foldl_modify (f : NodeSession → NodeSession) (l : List ℕ) (σ : State) :
    l.foldl (fun σ s => σ.modify s f) σ
      = { σ with sessions := (l.foldl (fun σ s => σ.modify s f) σ).sessions } := by
  induction l generalizing σ with
  | nil => rfl
  | cons s l ih =>
    rw [List.foldl_cons, ih]
    rfl

/-- It changes each of them once. -/
theorem foldl_modify_sessions (f : NodeSession → NodeSession) {l : List ℕ} (hl : l.Nodup)
    (σ : State) (t : ℕ) : (l.foldl (fun σ s => σ.modify s f) σ).sessions t
      = if t ∈ l then f (σ.sessions t) else σ.sessions t := by
  induction l generalizing σ with
  | nil => simp
  | cons s l ih =>
    obtain ⟨hs, hl⟩ := List.nodup_cons.mp hl
    rw [List.foldl_cons, ih hl]
    by_cases hts : t = s
    · subst hts
      simp [hs]
    · simp [hts, modify_sessions_of_ne hts]

/-- The destructor empties both containers. -/
theorem destroy_eq_some (h : σ.destroy = some σ') :
    σ.control = .idle ∧ ∃ sessions, σ' = { σ with
      sessions := sessions
      activeSessions := []
      pendingSessions := []
      control := .destroyed } := by
  obtain ⟨hidle, h⟩ := Option.ite_none_right_eq_some.mp h
  have hactive : σ.activeSessions.foldl destroyActive σ = _ := foldl_modify _ _ σ
  rw [hactive] at h
  dsimp only at h
  have hpending : ∀ τ : State, σ.pendingSessions.foldl destroyPending τ = _ := foldl_modify _ _
  rw [hpending] at h
  exact ⟨hidle, _, (Option.some.inj h).symm⟩

/-- It releases each session with what it has: an active one's data socket, a pending one's
listener. -/
theorem destroy_sessions (h : σ.destroy = some σ') (hactive : σ.activeSessions.Nodup)
    (hpending : σ.pendingSessions.Nodup) (t : ℕ) :
    σ'.sessions t =
      let session := if t ∈ σ.activeSessions then (σ.sessions t).releaseMemory.closeData
        else σ.sessions t
      if t ∈ σ.pendingSessions then session.releaseMemory.closeListener else session := by
  obtain ⟨-, h⟩ := Option.ite_none_right_eq_some.mp h
  have hfirst : σ.activeSessions.foldl destroyActive σ = _ := foldl_modify _ _ σ
  have hsecond : ∀ τ : State, (σ.pendingSessions.foldl destroyPending τ).sessions t = _ :=
    fun τ => foldl_modify_sessions _ hpending τ t
  rw [hfirst] at h
  simp only [← Option.some.inj h, hsecond]
  rw [foldl_modify_sessions _ hactive]

/-! ### Steps that only move the thread on -/

/-- An event that changes nothing but where the manager's thread is. -/
def MovesOn : Event → Prop
  | .update | .acceptFails | .pendingDone | .visit => True
  | .drained | .recvNothing | .recvFails | .activeDone => True
  | _ => False

theorem movesOn_eq_some (hstep : σ.step event = some σ') (hevent : MovesOn event) :
    ∃ control, σ' = { σ with control := control } := by
  cases event with
  | update => exact ⟨_, (update_eq_some hstep).2⟩
  | acceptFails =>
    obtain ⟨i, -, hσ'⟩ := acceptFails_eq_some hstep
    exact ⟨_, hσ'⟩
  | pendingDone => exact ⟨_, (pendingDone_eq_some hstep).2⟩
  | visit =>
    obtain ⟨i, s, -, -, hσ'⟩ := visit_eq_some hstep
    exact ⟨_, hσ'⟩
  | drained =>
    obtain ⟨i, nodeId, s, -, -, -, hσ'⟩ := drained_eq_some hstep
    exact ⟨_, hσ'⟩
  | recvNothing =>
    obtain ⟨i, nodeId, -, hσ'⟩ := recvNothing_eq_some hstep
    exact ⟨_, hσ'⟩
  | recvFails =>
    obtain ⟨i, nodeId, s, -, -, hσ'⟩ := recvFails_eq_some hstep
    exact ⟨_, hσ'⟩
  | activeDone => exact ⟨_, (activeDone_eq_some hstep).2⟩
  | call | push | timeout | accept | onPacket | onSignal | remove | destroy => cases hevent

/-! ### Addresses -/

/-- The addresses of the sessions in the containers have been handed out. -/
def Bounded (σ : State) : Prop :=
  ∀ s, s ∈ σ.pendingSessions ∨ s ∈ σ.activeSessions → s < σ.fresh

namespace Bounded

/-- No step puts a session into a container that was in neither and is not new. -/
theorem of_subset (h : Bounded σ) (hfresh : σ.fresh ≤ σ'.fresh)
    (hpending : ∀ s ∈ σ'.pendingSessions, s ∈ σ.pendingSessions ∨ s < σ'.fresh)
    (hactive : ∀ s ∈ σ'.activeSessions, s ∈ σ.pendingSessions ∨ s ∈ σ.activeSessions) :
    Bounded σ' := by
  rintro s (hs | hs)
  · rcases hpending s hs with hs | hs
    · exact Nat.lt_of_lt_of_le (h s (.inl hs)) hfresh
    · exact hs
  · exact Nat.lt_of_lt_of_le (h s (hactive s hs)) hfresh

theorem called (h : Bounded σ) (hcalled : Called σ calls σ') : Bounded σ' := by
  apply h.of_subset hcalled.fresh hcalled.pending
  intro s hs
  rw [hcalled.active] at hs
  exact .inr (List.mem_of_mem_filter hs)

theorem step (h : Bounded σ) (hstep : σ.step event = some σ') : Bounded σ' := by
  cases event with
  | call c =>
    obtain ⟨-, hstep⟩ := Option.ite_none_right_eq_some.mp hstep
    exact h.called (call_called hstep)
  | push s packet =>
    obtain rfl := push_eq_some hstep
    exact h
  | timeout =>
    obtain ⟨i, s, -, -, rfl⟩ := timeout_eq_some hstep
    exact h.of_subset (Nat.le_refl _) (fun t ht => .inl (List.mem_of_mem_eraseIdx ht))
      fun t ht => .inr ht
  | accept =>
    obtain ⟨i, s, -, hs, rfl⟩ := accept_eq_some hstep
    refine h.of_subset (Nat.le_refl _) (fun t ht => .inl (List.mem_of_mem_eraseIdx ht))
      fun t ht => ?_
    rcases List.mem_append.mp ht with ht | ht
    · exact .inr ht
    · rw [List.mem_singleton] at ht
      exact .inl (ht ▸ List.mem_of_getElem? hs)
  | onPacket calls =>
    obtain ⟨i, nodeId, s, packet, packets, -, -, -, hstep⟩ := onPacket_eq_some hstep
    exact Bounded.called (σ := σ.modify s _) h (callback_called hstep)
  | onSignal calls =>
    obtain ⟨i, nodeId, -, hstep⟩ := onSignal_eq_some hstep
    exact Bounded.called (σ := { σ with control := .activeLoop i }) h (callback_called hstep)
  | remove =>
    obtain ⟨i, nodeId, t, s, -, -, rfl⟩ := remove_eq_some hstep
    exact h.of_subset (Nat.le_refl _) (fun t ht => .inl ht)
      fun t ht => .inr (List.mem_of_mem_eraseIdx ht)
  | destroy =>
    obtain ⟨-, sessions, rfl⟩ := destroy_eq_some hstep
    rintro s (hs | hs) <;> cases hs
  | update | acceptFails | pendingDone | visit | drained | recvNothing | recvFails | activeDone =>
    obtain ⟨control, rfl⟩ := movesOn_eq_some hstep trivial
    exact h

end Bounded

end IpcSessions

end IACore
