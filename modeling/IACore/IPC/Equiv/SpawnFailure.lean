import IACore.IPC.Equiv.SpawnNode

/-!
# What a failing `spawn_node` leaves behind

Nothing in `spawn_node` gives anything back, and a `NodeSession` has no destructor.  The first thing
that is acquired is the socket of the listener: whatever fails after it leaves it open
(`afterSocket_preserves`), so a failing call leaves everything as it was only if the socket is what
fails (`spawnNode_unchanged_iff`).
-/

namespace IACore

open ExceptState

variable {os : Os} {σ σ' : Resources} {sock : ℕ}

/-! ### Acquiring -/

theorem SocketOps.createUnixSocket_error {errno : UInt32} (h : os.socket = .error errno) :
    outcome (createUnixSocket os) σ = (.error (failed "socket(AF_UNIX) failed: " errno), σ) := by
  rw [createUnixSocket, h]
  rfl

theorem SocketOps.createUnixSocket_ok (h : os.socket = .ok sock) :
    outcome (createUnixSocket os) σ =
      (.ok sock, { σ with openSockets := sock :: σ.openSockets }) := by
  rw [createUnixSocket, h]
  rfl

theorem tryOutcome_mapError_eq_ok {α : Type} {f : UInt32 → Text} {result : Except UInt32 α}
    {a : α} :
    result.mapError f = .ok a ↔ result = .ok a := by
  cases result with
  | error errno => simp [Except.mapError]
  | ok a' => simp [Except.mapError]

/-- However it ends, it leaves the sockets alone. -/
theorem FileOps.mapSharedMemory_preserves {name : Text} {size : ℕ} {isOwner : Bool}
    {P : List ℕ → Prop} :
    Preserves (fun σ => P σ.openSockets) (mapSharedMemory os name size isOwner) := by
  rw [mapSharedMemory]
  split
  · exact preserves_throw
  · apply preserves_bind
    · exact preserves_modify fun _ h => h
    intro _
    split_ifs
    · apply preserves_bind
      · exact preserves_modify fun _ h => h
      exact fun _ => preserves_throw
    · split
      · apply preserves_bind
        · exact preserves_modify fun _ h => h
        exact fun _ => preserves_throw
      · apply preserves_bind
        · exact preserves_modify fun _ h => h
        exact fun _ => preserves_pure

namespace IpcManager

variable {sid sharedMemorySize : UInt32} {executablePath normalized : Text}

/-! ### Behind the socket -/

theorem spawnNode_eq : spawnNode os sid executablePath normalized sharedMemorySize =
    SocketOps.createUnixSocket os >>=
      afterSocket os sid executablePath normalized sharedMemorySize := rfl

/-- Nothing behind the socket closes one. -/
theorem afterSocket_preserves {listenerSocket : ℕ} {P : List ℕ → Prop} :
    Preserves (fun σ => P σ.openSockets)
      (afterSocket os sid executablePath normalized sharedMemorySize listenerSocket) := by
  have hpush : ∀ g : Resources → List SpawnedNode, Preserves (fun σ => P σ.openSockets)
      (modify (fun σ => { σ with pendingSessions := g σ }) >>= fun _ => pure os.processId :
        Acquiring ℕ) := by
    intro g
    apply preserves_bind
    · exact preserves_modify fun _ h => h
    exact fun _ => preserves_pure
  unfold afterSocket
  apply preserves_bind
  · exact preserves_attempt
  intro _
  apply preserves_bind
  · exact preserves_attempt
  intro _
  apply preserves_bind FileOps.mapSharedMemory_preserves
  intro mappedPtr
  apply preserves_bind
  · exact preserves_attempt
  intro moni
  apply preserves_bind
  · exact preserves_attempt
  intro mino
  exact preserves_check (hpush _)

/-- Behind the socket the call succeeds exactly if nothing of what it needs fails. -/
theorem afterSocket_succeeds_iff (executablePath normalized : Text) (listenerSocket : ℕ)
    (σ : Resources) :
    Succeeds (afterSocket os sid executablePath normalized sharedMemorySize listenerSocket) σ ↔
      Completes os sid sharedMemorySize := by
  unfold afterSocket
  constructor
  · intro h
    obtain ⟨_, hbind, h⟩ := succeeds_attempt_bind.mp h
    obtain ⟨_, hlisten, h⟩ := succeeds_attempt_bind.mp h
    obtain ⟨mappedPtr, σ₃, hmap, h⟩ := succeeds_bind.mp h
    obtain ⟨moni, σ₄, hmoni, h⟩ := succeeds_bind.mp h
    obtain ⟨mino, σ₅, hmino, h⟩ := succeeds_bind.mp h
    obtain ⟨fd, hfd, htruncate, haddress, -⟩ := FileOps.mapSharedMemory_returns_iff.mp hmap
    refine ⟨?_, ?_, ⟨fd, hfd⟩, htruncate rfl, ⟨mappedPtr, haddress⟩, ?_, ?_, ?_⟩
    · exact tryOutcome_mapError_eq_ok.mp hbind
    · exact tryOutcome_mapError_eq_ok.mp hlisten
    · exact (createRing_returns.mp hmoni).1
    · exact (createRing_returns.mp hmino).1
    · simpa using (succeeds_check.mp h).1
  · intro h
    obtain ⟨fd, hfd⟩ := h.shmOpen
    obtain ⟨address, haddress⟩ := h.mmap
    refine succeeds_attempt_bind.mpr ⟨(), ?_, ?_⟩
    · exact tryOutcome_mapError_eq_ok.mpr h.bind
    refine succeeds_attempt_bind.mpr ⟨(), ?_, ?_⟩
    · exact tryOutcome_mapError_eq_ok.mpr h.listen
    refine succeeds_bind.mpr ⟨address, _, FileOps.mapSharedMemory_returns_iff.mpr
      ⟨fd, hfd, fun _ => h.ftruncate, haddress, rfl⟩, ?_⟩
    refine succeeds_bind.mpr ⟨_, _, createRing_returns.mpr ⟨h.moni, rfl, rfl⟩, ?_⟩
    refine succeeds_bind.mpr ⟨_, _, createRing_returns.mpr ⟨h.mino, rfl, rfl⟩, ?_⟩
    refine succeeds_check.mpr ⟨by simp [h.isActive], ?_⟩
    exact ⟨_, _, returns_bind.mpr ⟨(), _, returns_modify.mpr rfl, returns_pure.mpr ⟨rfl, rfl⟩⟩⟩

/-! ### The call -/

theorem Unchanged.refl (m : Managed) : Unchanged m m :=
  ⟨fun _ => .rfl, fun _ => .rfl, fun _ => .rfl, rfl, rfl⟩

/-- **A failing `spawn_node` leaves everything as it was exactly if it is the socket that fails.**
-/
theorem spawnNode_unchanged_iff (os : Os) (sid sharedMemorySize : UInt32)
    (executablePath normalized : Text) (m : Managed) (hfresh : os.FreshSocket m.resources) :
    (∀ message m', m.spawnNode os sid executablePath normalized sharedMemorySize =
        (.error message, m') → Unchanged m m') ↔
      (∃ errno, os.socket = .error errno) ∨ Completes os sid sharedMemorySize := by
  set call := spawnNode os sid executablePath normalized sharedMemorySize with hcall
  have hrun : m.spawnNode os sid executablePath normalized sharedMemorySize =
      ((outcome call m.resources).1, { m with resources := (outcome call m.resources).2 }) := rfl
  rw [hrun]
  cases hsocket : os.socket with
  | error errno =>
    refine iff_of_true ?_ (.inl ⟨errno, rfl⟩)
    intro message m' h
    rw [hcall, spawnNode_eq, outcome_bind, SocketOps.createUnixSocket_error hsocket] at h
    rw [← (Prod.mk.inj h).2]
    exact Unchanged.refl m
  | ok sock =>
    set σ : Resources := { m.resources with openSockets := sock :: m.resources.openSockets }
    have hafter : outcome call m.resources =
        outcome (afterSocket os sid executablePath normalized sharedMemorySize sock) σ := by
      rw [hcall, spawnNode_eq, outcome_bind, SocketOps.createUnixSocket_ok hsocket]
    constructor
    · intro h
      right
      by_contra hnot
      obtain ⟨message, σ', hfails⟩ := not_succeeds_iff.mp
        (mt (afterSocket_succeeds_iff executablePath normalized sock σ).mp hnot)
      -- the listener's socket is among the open ones
      have hopen : sock ∈ (outcome (afterSocket os sid executablePath normalized sharedMemorySize
          sock) σ).2.openSockets := afterSocket_preserves σ List.mem_cons_self
      rw [hafter, hfails] at h
      rw [hfails] at hopen
      exact hfresh sock hsocket (((h message _ rfl).openSockets sock).mp hopen)
    · rintro (⟨errno, herror⟩ | hcompletes) message m' h
      · cases herror
      · obtain ⟨pid, σ', hreturns⟩ := (afterSocket_succeeds_iff executablePath normalized sock
          σ).mpr hcompletes
        have hok : outcome (afterSocket os sid executablePath normalized sharedMemorySize sock) σ =
            (.ok pid, σ') := hreturns
        rw [hafter, hok] at h
        cases h

/-- A manager that has a session with a socket, a mapping and a name already, and the socket `7`. -/
def inUse : Managed :=
  (Managed.spawnNode everything 1 (text "node") (text "./node") 1024
    ⟨⟨[7], [], [], [], []⟩, []⟩).2

/-- No descriptor is free for the socket: what is there stays.  With a new socket that cannot be
bound it does not. -/
theorem spawnNode_unchanged_of_socket :
    inUse.resources.openSockets = [3, 7] ∧ inUse.resources.mappedFiles = [(65536, 4, 1024)] ∧
      inUse.resources.pendingSessions.map (·.listenerSocket) = [3] ∧
      (∀ message m', inUse.spawnNode { everything with socket := .error 24 } 2 [] [] 1024 =
        (.error message, m') → Unchanged inUse m') ∧
      ¬ ∀ message m', inUse.spawnNode { everything with
        socket := .ok 8, bind := fun _ => .error 98 } 2 [] [] 1024 = (.error message, m') →
          Unchanged inUse m' := by
  refine ⟨rfl, rfl, rfl, ?_, ?_⟩
  · have hnone : Os.FreshSocket { everything with socket := .error 24 } inUse.resources := by
      intro sock hsock
      cases hsock
    exact (spawnNode_unchanged_iff { everything with socket := .error 24 } 2 1024 [] [] inUse
      hnone).mpr (.inl ⟨24, rfl⟩)
  · have hfresh : Os.FreshSocket { everything with socket := .ok 8, bind := fun _ => .error 98 }
        inUse.resources := by
      intro sock hsock
      cases hsock
      decide
    intro hunchanged
    rcases (spawnNode_unchanged_iff { everything with
      socket := .ok 8, bind := fun _ => .error 98 } 2 1024 [] [] inUse hfresh).mp hunchanged with
      ⟨errno, hsocket⟩ | hcompletes
    · cases hsocket
    · cases hcompletes.bind

/-- The child is gone after the wait: the call fails with the socket open, the memory mapped and its
name in use, and no session has them. -/
theorem spawnNode_leaves : ∃ m',
    Managed.spawnNode { everything with isActive := false } 1 (text "node") [] 1024
      ⟨⟨[], [], [], [], []⟩, []⟩ =
        (.error (text "Failed to spawn the child process \"node\""), m') ∧
      m'.resources.openSockets = [3] ∧ m'.resources.mappedFiles = [(65536, 4, 1024)] ∧
      m'.resources.sharedMemoryNames = [text "ia_shm_1"] ∧ m'.resources.pendingSessions = [] ∧
      ¬ Unchanged ⟨⟨[], [], [], [], []⟩, []⟩ m' := by
  refine ⟨⟨⟨[3], [4], [text "ia_shm_1"], [(65536, 4, 1024)], []⟩, []⟩, ?_, rfl, rfl, rfl, rfl, ?_⟩
  · rfl
  · intro h
    exact absurd ((h.openSockets 3).mp List.mem_cons_self) (by simp)

end IpcManager

end IACore
