import IACore.IPC.Connect
import IACore.IPC.Equiv.SpawnFailure

/-!
# What a failing `connect` leaves

`connect` assigns the socket as soon as it has it, and gives back nothing when a later step fails:
then the node has a socket to send on, and the socket stays open (`afterSocket_preserves`).  So a
failing call leaves the node unconnected exactly if it fails before that, or not at all
(`connect_unconnected_iff`).
-/

namespace IACore

open ExceptState

namespace IpcNode

open Connecting

variable {os : NodeOs} {σ : Resources} {c c' : Connection} {desc : IpcConnectionDescriptor}

theorem idle_of_fields {n : IpcNode} (hmoni : n.moni.isValid = false) (hsocket : n.socket = none)
    (hmino : n.mino.isValid = false) : Idle n where
  update := by
    intro converts recv header fuel mem
    rw [IpcNode.update, hmoni]
    rfl
  sendSignal := by
    intro signal
    rw [IpcNode.sendSignal, hsocket]
    rfl
  sendPacket := by
    intro packetId payload mem
    rw [IpcNode.sendPacket, hmino]
    rfl

/-! ### Parts -/

theorem returns_modifyNode {f : IpcNode → IpcNode} {u : Unit} :
    Returns (modifyNode f) c u c' ↔ c' = { c with node := f c.node } := returns_modify

theorem attachRing_returns {σ' : Resources} {sharedMemory controlOffset dataOffset dataSize : ℕ}
    {view : RingBufferView} :
    Returns (attachRing os sharedMemory controlOffset dataOffset dataSize) σ view σ' ↔
      dataSize ≠ 0 ∧ view = ⟨some (usize (sharedMemory + dataOffset)), u32 dataSize,
        some (usize (sharedMemory + controlOffset))⟩ ∧ σ' = σ := by
  unfold attachRing
  refine returns_attempt.trans ?_
  by_cases hzero : dataSize = 0
  · simp [RingBufferView.create, hzero, Except.map, Except.mapError]
  · simp [RingBufferView.create, RingBufferView.construct, hzero, Except.map, Except.mapError,
      eq_comm]

theorem preserves_onResources {α : Type} {P : Resources → Prop} {x : Acquiring α}
    (h : Preserves P x) : Preserves (fun c => P c.resources) (onResources x) :=
  preserves_zoom (fun _ _ => rfl) h

theorem connect_eq {connectionString : Text}
    (h : IpcConnectionDescriptor.deserialize (cString connectionString) = some desc) :
    connect os connectionString = (do
      modifyNode fun n => { n with shmName := desc.sharedMemPath }
      let sock ← onResources (SocketOps.createUnixSocket os.toOs)
      afterSocket os desc sock) := by
  rw [connect, h]

/-- Nothing behind the socket closes one. -/
theorem afterSocket_preserves {sock : ℕ} {P : List ℕ → Prop} :
    Preserves (fun c => P c.resources.openSockets) (afterSocket os desc sock) := by
  have hnode : ∀ f, Preserves (fun c : Connection => P c.resources.openSockets) (modifyNode f) :=
    fun f => preserves_modify fun _ h => h
  have hattempt : ∀ {α : Type} (result : Except Text α),
      Preserves (fun σ : Resources => P σ.openSockets) (tryOutcome result) :=
    fun result => preserves_attempt
  have hrings : ∀ mappedPtr,
      Preserves (fun c : Connection => P c.resources.openSockets) (attachRings os mappedPtr) := by
    intro mappedPtr
    unfold attachRings
    apply preserves_bind (preserves_onResources (hattempt _))
    intro moni
    apply preserves_bind (hnode _)
    intro _
    apply preserves_bind (preserves_onResources (hattempt _))
    intro mino
    exact preserves_bind (hnode _) fun _ => hnode _
  unfold afterSocket
  apply preserves_bind (hnode _)
  intro _
  apply preserves_bind (preserves_onResources (hattempt _))
  intro _
  apply preserves_bind (preserves_onResources FileOps.mapSharedMemory_preserves)
  intro mappedPtr
  apply preserves_bind (hnode _)
  intro _
  apply preserves_check
  apply preserves_check
  exact hrings mappedPtr

/-- A node that is given its rings is so whatever it was. -/
theorem attachRings_succeeds_iff {mappedPtr : ℕ} :
    Succeeds (attachRings os mappedPtr) c ↔ (os.layout mappedPtr).moniDataSize ≠ 0 ∧
      (os.layout mappedPtr).minoDataSize ≠ 0 := by
  unfold attachRings
  constructor
  · intro h
    obtain ⟨moni, c₁, hmoni, h⟩ := succeeds_bind.mp h
    obtain ⟨_, c₂, -, h⟩ := succeeds_bind.mp h
    obtain ⟨mino, c₃, hmino, -⟩ := succeeds_bind.mp h
    obtain ⟨σ₁, hmoni, -⟩ := returns_zoom.mp hmoni
    obtain ⟨σ₃, hmino, -⟩ := returns_zoom.mp hmino
    exact ⟨(attachRing_returns.mp hmoni).1, (attachRing_returns.mp hmino).1⟩
  · rintro ⟨hmoni, hmino⟩
    refine succeeds_bind.mpr ⟨_, _, returns_zoom.mpr
      ⟨_, attachRing_returns.mpr ⟨hmoni, rfl, rfl⟩, rfl⟩, ?_⟩
    refine succeeds_bind.mpr ⟨(), _, returns_modifyNode.mpr rfl, ?_⟩
    refine succeeds_bind.mpr ⟨_, _, returns_zoom.mpr
      ⟨_, attachRing_returns.mpr ⟨hmino, rfl, rfl⟩, rfl⟩, ?_⟩
    refine succeeds_bind.mpr ⟨(), _, returns_modifyNode.mpr rfl, ?_⟩
    exact ⟨(), _, returns_modifyNode.mpr rfl⟩

/-- Behind the socket the call succeeds exactly if nothing of what it needs fails. -/
theorem afterSocket_succeeds_iff (sock : ℕ) (c : Connection) :
    Succeeds (afterSocket os desc sock) c ↔ Completes os desc := by
  unfold afterSocket
  constructor
  · intro h
    obtain ⟨_, c₁, -, h⟩ := succeeds_bind.mp h
    obtain ⟨_, c₂, hconnect, h⟩ := succeeds_bind.mp h
    obtain ⟨mappedPtr, c₃, hmap, h⟩ := succeeds_bind.mp h
    obtain ⟨_, c₄, -, h⟩ := succeeds_bind.mp h
    obtain ⟨σ₂, hconnect, -⟩ := returns_zoom.mp hconnect
    obtain ⟨σ₃, hmap, -⟩ := returns_zoom.mp hmap
    obtain ⟨fd, hfd, -, haddress, -⟩ := FileOps.mapSharedMemory_returns_iff.mp hmap
    obtain ⟨hmagic, h⟩ := succeeds_check.mp h
    obtain ⟨hversion, h⟩ := succeeds_check.mp h
    have hrings := attachRings_succeeds_iff.mp h
    refine ⟨?_, ⟨fd, hfd⟩, ⟨mappedPtr, haddress, of_not_not hmagic, of_not_not hversion, hrings⟩⟩
    exact tryOutcome_mapError_eq_ok.mp (returns_attempt.mp hconnect).1
  · intro h
    obtain ⟨fd, hfd⟩ := h.shmOpen
    obtain ⟨mappedPtr, haddress, hmagic, hversion, hmoni, hmino⟩ := h.mmap
    refine succeeds_bind.mpr ⟨(), _, returns_modifyNode.mpr rfl, ?_⟩
    refine succeeds_bind.mpr ⟨(), _, returns_zoom.mpr
      ⟨_, returns_attempt.mpr ⟨tryOutcome_mapError_eq_ok.mpr h.connect, rfl⟩, rfl⟩, ?_⟩
    refine succeeds_bind.mpr ⟨mappedPtr, _, returns_zoom.mpr ⟨_,
      FileOps.mapSharedMemory_returns_iff.mpr ⟨fd, hfd, nofun, haddress, rfl⟩, rfl⟩, ?_⟩
    refine succeeds_bind.mpr ⟨(), _, returns_modifyNode.mpr rfl, ?_⟩
    refine succeeds_check.mpr ⟨not_not_intro hmagic, ?_⟩
    refine succeeds_check.mpr ⟨not_not_intro hversion, ?_⟩
    exact attachRings_succeeds_iff.mpr ⟨hmoni, hmino⟩

/-! ### The call -/

theorem idle_fresh : Idle fresh := idle_of_fields rfl rfl rfl

theorem outcome_connect {connectionString : Text}
    (h : IpcConnectionDescriptor.deserialize (cString connectionString) = some desc) :
    outcome (connect os connectionString) ⟨fresh, σ⟩ =
      match os.socket with
      | .error errno => (.error (SocketOps.failed "socket(AF_UNIX) failed: " errno),
          ⟨{ fresh with shmName := desc.sharedMemPath }, σ⟩)
      | .ok sock => outcome (afterSocket os desc sock)
          ⟨{ fresh with shmName := desc.sharedMemPath },
            { σ with openSockets := sock :: σ.openSockets }⟩ := by
  have hnode : outcome (modifyNode fun n => { n with shmName := desc.sharedMemPath }) ⟨fresh, σ⟩ =
      (.ok (), ⟨{ fresh with shmName := desc.sharedMemPath }, σ⟩) := rfl
  rw [connect_eq h, outcome_bind, hnode]
  simp only
  rw [outcome_bind, onResources, outcome_zoom]
  cases hsocket : os.socket with
  | error errno => rw [SocketOps.createUnixSocket_error hsocket]
  | ok sock => rw [SocketOps.createUnixSocket_ok hsocket]

/-- **A failing `connect` leaves its node unconnected, as it is before, exactly if the connection
string is not understood or there is no socket**, or if the call does not fail. -/
theorem connect_unconnected_iff (os : NodeOs) (connectionString : Text) (σ : Resources)
    (hfresh : os.FreshSocket σ) :
    Unconnected σ ⟨fresh, σ⟩ ∧
    ((∀ message c, outcome (connect os connectionString) ⟨fresh, σ⟩ = (.error message, c) →
        Unconnected σ c) ↔
      IpcConnectionDescriptor.deserialize (cString connectionString) = none ∨
        (∃ errno, os.socket = .error errno) ∨
        ∃ desc, IpcConnectionDescriptor.deserialize (cString connectionString) = some desc ∧
          Completes os desc) := by
  refine ⟨⟨idle_fresh, fun _ => .rfl, fun _ => .rfl⟩, ?_⟩
  cases hparse : IpcConnectionDescriptor.deserialize (cString connectionString) with
  | none =>
    refine iff_of_true ?_ (.inl rfl)
    intro message c h
    rw [connect, hparse] at h
    rw [← (Prod.mk.inj h).2]
    exact ⟨idle_fresh, fun _ => .rfl, fun _ => .rfl⟩
  | some desc =>
    rw [outcome_connect hparse]
    cases hsocket : os.socket with
    | error errno =>
      refine iff_of_true ?_ (.inr (.inl ⟨errno, rfl⟩))
      intro message c h
      rw [← (Prod.mk.inj h).2]
      exact ⟨idle_of_fields rfl rfl rfl, fun _ => .rfl, fun _ => .rfl⟩
    | ok sock =>
      simp only
      set c₁ : Connection := ⟨{ fresh with shmName := desc.sharedMemPath },
        { σ with openSockets := sock :: σ.openSockets }⟩
      constructor
      · intro h
        right; right
        by_contra hnot
        have hfails : ¬ Completes os desc := fun hcompletes => hnot ⟨desc, rfl, hcompletes⟩
        obtain ⟨message, c, hfail⟩ := not_succeeds_iff.mp (mt (afterSocket_succeeds_iff sock c₁).mp
          hfails)
        have hopen : sock ∈ (outcome (afterSocket os desc sock) c₁).2.resources.openSockets :=
          afterSocket_preserves c₁ List.mem_cons_self
        rw [hfail] at hopen
        exact hfresh sock hsocket (((h message c hfail).openSockets sock).mp hopen)
      · rintro (hnone | ⟨errno, herror⟩ | ⟨desc', hdesc, hcompletes⟩) message c h
        · cases hnone
        · cases herror
        · obtain rfl := Option.some.inj hdesc
          obtain ⟨_, c', hreturns⟩ := (afterSocket_succeeds_iff sock c₁).mpr hcompletes
          have hok : outcome (afterSocket os desc sock) c₁ = (.ok (), c') := hreturns
          rw [hok] at h
          cases h

/-- A system on which everything succeeds, with the manager's layout of 1024 bytes in every block.
-/
def everything : NodeOs where
  toOs := IpcManager.everything
  connect := fun _ => .ok ()
  layout := fun _ => .ofSize 1024
  ring := fun _ => ⟨⟨0, 0, 0⟩, fun _ => 0⟩

/-- A process with a socket, a file, a name and a mapping. -/
def inUse : Resources := ⟨[7], [5], [text "other"], [(131072, 5, 64)], []⟩

/-- A text that is no connection string, in a process that has a socket and a mapping; with a text
that is one and nobody at its socket the node does not stay unconnected. -/
theorem connect_unconnected_of_parse :
    (∀ message c, outcome (connect everything (text "a|b")) ⟨fresh, inUse⟩ = (.error message, c) →
        Unconnected inUse c) ∧
      ¬ ∀ message c, outcome (connect { everything with connect := fun _ => .error 111 }
        (text "a|b|1024|")) ⟨fresh, inUse⟩ = (.error message, c) → Unconnected inUse c := by
  have hfresh : ∀ f, ({ everything with connect := f } : NodeOs).FreshSocket inUse := by
    intro f sock hsock
    cases hsock
    decide
  constructor
  · have hparse : IpcConnectionDescriptor.deserialize (cString (text "a|b")) = none := by
      decide +kernel
    exact (connect_unconnected_iff everything (text "a|b") inUse (hfresh _)).2.mpr (.inl hparse)
  · have hparse : IpcConnectionDescriptor.deserialize (cString (text "a|b|1024|")) =
        some ⟨text "a", text "b", 1024⟩ := by
      decide +kernel
    intro hunconnected
    rcases (connect_unconnected_iff { everything with connect := fun _ => .error 111 }
      (text "a|b|1024|") inUse (hfresh _)).2.mp hunconnected with
      hnone | ⟨errno, hsocket⟩ | ⟨desc, -, hcompletes⟩
    · rw [hparse] at hnone
      cases hnone
    · cases hsocket
    · cases hcompletes.connect

/-- The manager's layout has another version: the call fails, its socket and its mapping stay open,
and a signal is sent. -/
theorem connect_leaves : ∃ c,
    outcome (connect { everything with
      layout := fun _ => { IpcSharedMemoryLayout.ofSize 1024 with version := 2 } }
      (text "a|b|1024|")) ⟨fresh, ⟨[], [], [], [], []⟩⟩ =
        (.error (text "IPC version mismatch"), c) ∧
      c.resources.openSockets = [3] ∧ c.resources.mappedFiles = [(65536, 4, 1024)] ∧
      c.node.sendSignal 9 = some (3, 9) ∧ ¬ Unconnected ⟨[], [], [], [], []⟩ c := by
  have hparse : IpcConnectionDescriptor.deserialize (cString (text "a|b|1024|")) =
      some ⟨text "a", text "b", 1024⟩ := by
    decide +kernel
  refine ⟨⟨{ fresh with shmName := text "b", socket := some 3, sharedMemory := some 65536 },
    ⟨[3], [4], [], [(65536, 4, 1024)], []⟩⟩, ?_, rfl, rfl, rfl, ?_⟩
  · rw [outcome_connect hparse]
    rfl
  · intro h
    exact absurd ((h.openSockets 3).mp List.mem_cons_self) (by simp)

end IpcNode

end IACore
