import IACore.IPC.SpawnNode
import IACore.Library.ExceptState

/-!
# For which sizes the layout fits

`spawn_node` subtracts the header from the requested size without looking at it first.  A size below
the header wraps to one near `2 ^ 64`, and both rings are laid out far outside the block; from the
header on, the halves are small enough or the ring refuses them (`layout_fits_iff`).
-/

namespace IACore

/-! ### Computations that return -/

namespace Acquiring

variable {α β : Type} {x : Acquiring α} {f : α → Acquiring β} {a : α} {b : β} {σ σ' : Resources}

/-- `x` returns `a` without a failure and leaves `σ'`. -/
def Returns (x : Acquiring α) (σ : Resources) (a : α) (σ' : Resources) : Prop :=
  (x.run.run σ).run = (.ok a, σ')

theorem returns_bind :
    Returns (x >>= f) σ b σ' ↔ ∃ a σ₁, Returns x σ a σ₁ ∧ Returns (f a) σ₁ b σ' :=
  ExceptState.returns_bind

theorem returns_tryOutcome {outcome : Except Text α} :
    Returns (tryOutcome outcome) σ a σ' ↔ outcome = .ok a ∧ σ' = σ :=
  ExceptState.returns_attempt

theorem returns_modify {g : Resources → Resources} {u : Unit} :
    Returns (modify g) σ u σ' ↔ σ' = g σ :=
  ExceptState.returns_modify

theorem not_returns_throw {message : Text} : ¬ Returns (throw message : Acquiring α) σ a σ' :=
  ExceptState.not_returns_throw

end Acquiring

open Acquiring

variable {os : Os} {σ σ' : Resources} {address : ℕ}

/-! ### The steps of the call -/

theorem SocketOps.createUnixSocket_returns {sock : ℕ}
    (h : Returns (SocketOps.createUnixSocket os) σ sock σ') :
    σ'.pendingSessions = σ.pendingSessions := by
  unfold SocketOps.createUnixSocket at h
  obtain ⟨sock, σ₁, hsocket, h⟩ := returns_bind.mp h
  obtain ⟨_, σ₂, hopen, h⟩ := returns_bind.mp h
  cases h
  rw [returns_modify.mp hopen, (returns_tryOutcome.mp hsocket).2]

/-- A mapping succeeds with its descriptor and its entry in `s_mapped_files`. -/
theorem FileOps.mapSharedMemory_returns_iff {name : Text} {size : ℕ} {isOwner : Bool} :
    Returns (mapSharedMemory os name size isOwner) σ address σ' ↔
      ∃ fd, os.shmOpen name = some fd ∧ (isOwner = true → os.ftruncate size = true) ∧
        os.mmap size = some address ∧ σ' = { σ with
          openFiles := fd :: σ.openFiles
          sharedMemoryNames :=
            if isOwner then σ.sharedMemoryNames.insert name else σ.sharedMemoryNames
          mappedFiles := (address, fd, size) :: σ.mappedFiles } := by
  rw [mapSharedMemory]
  rcases hfd : os.shmOpen name with _ | fd
  · simp [not_returns_throw]
  · simp only
    rw [returns_bind]
    by_cases htruncate : (isOwner && !os.ftruncate size) = true
    · -- the descriptor is closed and the name removed
      simp only [if_pos htruncate]
      constructor
      · rintro ⟨_, σ₁, -, h⟩
        obtain ⟨_, _, -, h⟩ := returns_bind.mp h
        exact absurd h not_returns_throw
      · rintro ⟨_, -, htruncated, -⟩
        rw [Bool.and_eq_true, Bool.not_eq_true'] at htruncate
        exact absurd (htruncated htruncate.1) (by simp [htruncate.2])
    · have htruncated : isOwner = true → os.ftruncate size = true := by
        simpa using htruncate
      simp only [if_neg htruncate]
      rcases hmap : os.mmap size with _ | address'
      · constructor
        · rintro ⟨_, σ₁, -, h⟩
          obtain ⟨_, _, -, h⟩ := returns_bind.mp h
          exact absurd h not_returns_throw
        · rintro ⟨_, -, -, haddress, -⟩
          cases haddress
      · constructor
        · rintro ⟨_, σ₁, hopen, h⟩
          obtain ⟨_, σ₂, hmapped, h⟩ := returns_bind.mp h
          obtain ⟨rfl, rfl⟩ := ExceptState.returns_pure.mp h
          obtain rfl := returns_modify.mp hopen
          exact ⟨fd, rfl, htruncated, rfl, returns_modify.mp hmapped⟩
        · rintro ⟨fd', hfd', -, haddress, rfl⟩
          obtain rfl := Option.some.inj hfd'
          obtain rfl := Option.some.inj haddress
          refine ⟨(), _, returns_modify.mpr rfl, returns_bind.mpr ⟨(), _,
            returns_modify.mpr rfl, ExceptState.returns_pure.mpr ⟨rfl, rfl⟩⟩⟩

namespace IpcManager

theorem createRing_returns {mappedPtr controlOffset dataOffset dataSize : ℕ}
    {view : RingBufferView} :
    Returns (createRing mappedPtr controlOffset dataOffset dataSize) σ view σ' ↔
      dataSize ≠ 0 ∧ view = ⟨some (usize (mappedPtr + dataOffset)), u32 dataSize,
        some (usize (mappedPtr + controlOffset))⟩ ∧ σ' = σ := by
  rw [createRing, returns_tryOutcome]
  by_cases hzero : dataSize = 0
  · simp [RingBufferView.create, hzero, Except.map, Except.mapError]
  · simp [RingBufferView.create, RingBufferView.construct, hzero, Except.map, Except.mapError,
      eq_comm]

/-- What `spawn_node` adds when it succeeds. -/
theorem spawnNode_returns {sid sharedMemorySize : UInt32} {executablePath normalized : Text}
    {pid : ℕ}
    (h : Returns (spawnNode os sid executablePath normalized sharedMemorySize) σ pid σ') :
    (∃ address, os.mmap sharedMemorySize.toNat = some address) ∧
    ∃ node : SpawnedNode, σ'.pendingSessions = σ.pendingSessions ++ [node] ∧
      node.layout = .ofSize sharedMemorySize ∧
      node.layout.moniDataSize ≠ 0 ∧ node.layout.minoDataSize ≠ 0 ∧
      node.moni.capacity = u32 node.layout.moniDataSize ∧
      node.mino.capacity = u32 node.layout.minoDataSize := by
  unfold spawnNode at h
  obtain ⟨listenerSocket, σ₁, hsocket, h⟩ := returns_bind.mp h
  unfold afterSocket at h
  obtain ⟨_, σ₂, hbind, h⟩ := returns_bind.mp h
  obtain ⟨_, σ₃, hlisten, h⟩ := returns_bind.mp h
  obtain ⟨mappedPtr, σ₄, hmap, h⟩ := returns_bind.mp h
  obtain ⟨moni, σ₅, hmoni, h⟩ := returns_bind.mp h
  obtain ⟨mino, σ₆, hmino, h⟩ := returns_bind.mp h
  -- the check of the child, and then the push
  dsimp only at h
  split at h
  · obtain ⟨_, σ₇, hthrow, -⟩ := returns_bind.mp h
    exact absurd hthrow not_returns_throw
  · obtain ⟨_, σ₇, hpush, h⟩ := returns_bind.mp h
    cases h
    obtain ⟨fd, -, -, haddress, hσ₄⟩ := FileOps.mapSharedMemory_returns_iff.mp hmap
    obtain ⟨hmoniSize, hmoni, hσ₅⟩ := createRing_returns.mp hmoni
    obtain ⟨hminoSize, hmino, hσ₆⟩ := createRing_returns.mp hmino
    have hpending : σ₆.pendingSessions = σ.pendingSessions := by
      rw [hσ₆, hσ₅, hσ₄, (returns_tryOutcome.mp hlisten).2, (returns_tryOutcome.mp hbind).2,
        SocketOps.createUnixSocket_returns hsocket]
    refine ⟨⟨mappedPtr, haddress⟩, ⟨listenerSocket, mappedPtr, .ofSize sharedMemorySize, moni, mino,
      (normalized, nodeArgs (sessionDescriptor sid sharedMemorySize)), shmName sid⟩, ?_, rfl,
      hmoniSize, hminoSize, ?_, ?_⟩
    · rw [returns_modify.mp hpush, ← hpending]
    · rw [hmoni]
    · rw [hmino]

/-! ### The arithmetic -/

/-- From the header on nothing wraps. -/
theorem ofSize_of_le {sharedMemorySize : UInt32} (h : 384 ≤ sharedMemorySize.toNat) :
    ∃ half, (IpcSharedMemoryLayout.ofSize sharedMemorySize).moniDataSize = half ∧
      (IpcSharedMemoryLayout.ofSize sharedMemorySize).minoDataSize = half ∧
      (IpcSharedMemoryLayout.ofSize sharedMemorySize).moniDataOffset = 384 ∧
      (IpcSharedMemoryLayout.ofSize sharedMemorySize).minoDataOffset = 384 + half ∧
      384 + half + half ≤ sharedMemorySize.toNat := by
  have hlt : sharedMemorySize.toNat < 4294967296 := sharedMemorySize.toNat_lt
  have husable : usizeSub sharedMemorySize.toNat 384 = sharedMemorySize.toNat - 384 :=
    usizeSub_of_le h (by omega)
  have hhalf : usizeSub ((sharedMemorySize.toNat - 384) / 2)
      ((sharedMemorySize.toNat - 384) / 2 % 64) = (sharedMemorySize.toNat - 384) / 2 -
        (sharedMemorySize.toNat - 384) / 2 % 64 := usizeSub_of_le (Nat.mod_le _ _) (by omega)
  have hheader : IpcSharedMemoryLayout.getHeaderSize = 384 := rfl
  refine ⟨_, rfl, rfl, rfl, ?_, ?_⟩
  · simp only [IpcSharedMemoryLayout.ofSize, hheader, husable, hhalf]
    exact usize_of_lt (by omega)
  · simp only [IpcSharedMemoryLayout.ofSize, hheader, husable, hhalf]
    omega

/-- Below the header the size of a ring is near `2 ^ 63`. -/
theorem ofSize_of_lt {sharedMemorySize : UInt32} (h : sharedMemorySize.toNat < 384) :
    sharedMemorySize.toNat < (IpcSharedMemoryLayout.ofSize sharedMemorySize).moniDataSize ∧
      sharedMemorySize.toNat < (IpcSharedMemoryLayout.ofSize sharedMemorySize).minoDataSize := by
  have hheader : IpcSharedMemoryLayout.getHeaderSize = 384 := rfl
  have hhalf : sharedMemorySize.toNat < usizeSub (usizeSub sharedMemorySize.toNat 384 / 2)
      (usizeSub sharedMemorySize.toNat 384 / 2 % 64) := by
    unfold usizeSub usize
    omega
  simp only [IpcSharedMemoryLayout.ofSize, hheader]
  exact ⟨hhalf, hhalf⟩

theorem fits_of_returns {node : SpawnedNode} {sharedMemorySize : UInt32}
    (hlayout : node.layout = .ofSize sharedMemorySize) (hmoniSize : node.layout.moniDataSize ≠ 0)
    (hminoSize : node.layout.minoDataSize ≠ 0)
    (hmoni : node.moni.capacity = u32 node.layout.moniDataSize)
    (hmino : node.mino.capacity = u32 node.layout.minoDataSize)
    (h : 384 ≤ sharedMemorySize.toNat) : Fits node sharedMemorySize.toNat := by
  obtain ⟨half, hmoniData, hminoData, hmoniOffset, hminoOffset, hle⟩ := ofSize_of_le h
  have hlt : sharedMemorySize.toNat < 4294967296 := sharedMemorySize.toNat_lt
  have hhalf : u32 half = half := u32_of_lt (by omega)
  rw [hlayout, hmoniData] at hmoni hmoniSize
  rw [hlayout, hminoData] at hmino hminoSize
  refine ⟨?_, ?_, ?_, ?_, ?_, ?_⟩
  · rw [hlayout, hmoniOffset]
    exact Nat.le_refl 384
  · rw [hlayout, hmoniOffset, hmoniData, hminoOffset]
  · rw [hlayout, hminoOffset, hminoData]
    exact hle
  · rw [hlayout, hmoniData, hminoData]
    exact ⟨hmoniSize, hminoSize⟩
  · rw [hlayout, hmoniData, hminoData]
  · rw [hlayout, hmoniData, hminoData, hmoni, hmino, hhalf]
    exact ⟨rfl, rfl⟩

/-- A system on which everything succeeds. -/
def everything : Os where
  socket := .ok 3
  bind := fun _ => .ok ()
  listen := .ok ()
  shmOpen := fun _ => some 4
  ftruncate := fun _ => true
  mmap := fun size => if size = 0 then none else some 65536
  isActive := true
  processId := 7

theorem everything_mapsSizes : everything.MapsSizes := by
  refine ⟨rfl, ?_⟩
  intro size hsize
  simp [everything, hsize]

/-- There `spawn_node` succeeds as soon as the rings are not empty. -/
theorem everything_spawns {sid sharedMemorySize : UInt32} {executablePath normalized : Text}
    (hsize : sharedMemorySize.toNat ≠ 0)
    (hmoni : (IpcSharedMemoryLayout.ofSize sharedMemorySize).moniDataSize ≠ 0)
    (hmino : (IpcSharedMemoryLayout.ofSize sharedMemorySize).minoDataSize ≠ 0) (σ : Resources) :
    ∃ σ', Returns (spawnNode everything sid executablePath normalized sharedMemorySize) σ 7 σ' := by
  have hmmap : everything.mmap sharedMemorySize.toNat = some 65536 := if_neg hsize
  have hring : ∀ mappedPtr controlOffset dataOffset dataSize, dataSize ≠ 0 →
      createRing mappedPtr controlOffset dataOffset dataSize = tryOutcome (.ok
        ⟨some (usize (mappedPtr + dataOffset)), u32 dataSize,
          some (usize (mappedPtr + controlOffset))⟩) := by
    intro mappedPtr controlOffset dataOffset dataSize hsize
    simp [createRing, RingBufferView.create, RingBufferView.construct, hsize, Except.map,
      Except.mapError]
  unfold spawnNode afterSocket FileOps.mapSharedMemory
  rw [hmmap]
  dsimp only
  simp only [hring _ _ _ _ hmoni, hring _ _ _ _ hmino]
  exact ⟨_, rfl⟩

/-- A size below the header that is mapped gives a session whose rings lie outside the block. -/
theorem not_fits_of_lt {sharedMemorySize : UInt32} (hsize : sharedMemorySize.toNat ≠ 0)
    (hlt : sharedMemorySize.toNat < 384) (σ : Resources) :
    ∃ σ' node, Returns (spawnNode everything 1 [] [] sharedMemorySize) σ 7 σ' ∧
      σ'.pendingSessions = σ.pendingSessions ++ [node] ∧ ¬ Fits node sharedMemorySize.toNat := by
  have hlarge := ofSize_of_lt hlt
  obtain ⟨σ', hreturns⟩ : ∃ σ', Returns (spawnNode everything 1 [] [] sharedMemorySize) σ 7 σ' :=
    everything_spawns hsize (by omega) (by omega) σ
  obtain ⟨-, node, hpending, hlayout, -⟩ := spawnNode_returns hreturns
  refine ⟨σ', node, hreturns, hpending, ?_⟩
  intro hfits
  have hmino := hfits.mino
  rw [hlayout] at hmino
  omega

/-- **The layout fits exactly for the sizes that have room for the header**, and for zero, which
is not mapped. -/
theorem layout_fits_iff (sharedMemorySize : UInt32) :
    (∀ os : Os, os.MapsSizes → ∀ sid executablePath normalized σ pid σ',
      Returns (spawnNode os sid executablePath normalized sharedMemorySize) σ pid σ' →
      ∃ node, σ'.pendingSessions = σ.pendingSessions ++ [node] ∧
        Fits node sharedMemorySize.toNat) ↔
    sharedMemorySize.toNat = 0 ∨ 384 ≤ sharedMemorySize.toNat := by
  constructor
  · intro hfits
    by_contra hsize
    rw [not_or, Nat.not_le] at hsize
    obtain ⟨σ', node, hreturns, hpending, hnot⟩ :=
      not_fits_of_lt hsize.1 hsize.2 ⟨[], [], [], [], []⟩
    obtain ⟨node', hpending', hfit⟩ := hfits everything everything_mapsSizes _ _ _ _ _ _ hreturns
    have hnode : node' = node := by
      have hlists := hpending'.symm.trans hpending
      simpa using hlists
    exact hnot (hnode ▸ hfit)
  · intro hsize os hmaps sid executablePath normalized σ pid σ' hreturns
    obtain ⟨⟨address, haddress⟩, node, hpending, hlayout, hmoniSize, hminoSize, hmoni, hmino⟩ :=
      spawnNode_returns hreturns
    rcases hsize with hzero | hle
    · rw [hzero, hmaps.1] at haddress
      cases haddress
    · exact ⟨node, hpending, fits_of_returns hlayout hmoniSize hminoSize hmoni hmino hle⟩

/-- A hundred bytes. -/
theorem layout_of_hundred :
    ∃ σ' node, Returns (spawnNode everything 1 [] [] 100) ⟨[], [], [], [], []⟩ 7 σ' ∧
      σ'.pendingSessions = [node] ∧ ¬ Fits node 100 :=
  not_fits_of_lt (by decide) (by decide) _

end IpcManager

end IACore
