import IACore.IPC.Descriptor
import IACore.RingBuffer

/-!
# `IpcManager::spawn_node`

The POSIX build of `spawn_node`, with the shared-memory layout that it writes and the ring views
over it.  What the system calls return is an `Os`; what the process has acquired from them, and the
manager's pending sessions, are `Resources`, which a call that fails leaves as far as it got.
-/

namespace IACore

/-! ### The layout -/

/-- The fields of `IpcSharedMemoryLayout` but for the two control blocks. -/
structure IpcSharedMemoryLayout where
  magic : ℕ
  version : ℕ
  totalSize : ℕ
  moniDataOffset : ℕ
  moniDataSize : ℕ
  minoDataOffset : ℕ
  minoDataSize : ℕ
  deriving DecidableEq, Repr

namespace IpcSharedMemoryLayout

/-- `offsetof(IpcSharedMemoryLayout, moni_control)`, after the padded `Header`. -/
def moniControlOffset : ℕ := 64

/-- `offsetof(IpcSharedMemoryLayout, mino_control)`; a `ControlBlock` is two cache lines. -/
def minoControlOffset : ℕ := moniControlOffset + 128

/-- `get_header_size()`: the control blocks are followed by four `u64` and their padding. -/
def getHeaderSize : ℕ := minoControlOffset + 128 + 64

/-- What `spawn_node` writes into a block of `sharedMemorySize` bytes; the arithmetic is `u64`. -/
def ofSize (sharedMemorySize : UInt32) : IpcSharedMemoryLayout :=
  let headerSize := getHeaderSize
  let usableBytes := usizeSub sharedMemorySize.toNat headerSize
  let halfSize := usableBytes / 2
  let halfSize := usizeSub halfSize (halfSize % 64)
  { magic := 0x49414950
    version := 1
    totalSize := sharedMemorySize.toNat
    moniDataOffset := headerSize
    moniDataSize := halfSize
    minoDataOffset := usize (headerSize + halfSize)
    minoDataSize := halfSize }

end IpcSharedMemoryLayout

/-! ### The system -/

/-- What the system calls return; a failing one of those whose `errno` is reported returns it. -/
structure Os where
  socket : Except UInt32 ℕ
  bind : Text → Except UInt32 Unit
  listen : Except UInt32 Unit
  shmOpen : Text → Option ℕ
  ftruncate : ℕ → Bool
  mmap : ℕ → Option ℕ
  /-- `is_active` of the child after the wait, and its id. -/
  isActive : Bool
  processId : ℕ

/-- Mapping succeeds for every size but zero. -/
def Os.MapsSizes (os : Os) : Prop := os.mmap 0 = none ∧ ∀ size, size ≠ 0 → (os.mmap size).isSome

/-- What `spawn_node` keeps of a session. -/
structure SpawnedNode where
  listenerSocket : ℕ
  mappedPtr : ℕ
  layout : IpcSharedMemoryLayout
  moni : RingBufferView
  mino : RingBufferView
  /-- The command and the arguments that the child was started with. -/
  nodeProcess : Text × Text
  sharedMemName : Text
  deriving DecidableEq, Repr

structure Resources where
  openSockets : List ℕ
  openFiles : List ℕ
  sharedMemoryNames : List Text
  /-- `FileOps::s_mapped_files`: address, file and size. -/
  mappedFiles : List (ℕ × ℕ × ℕ)
  pendingSessions : List SpawnedNode

/-- A socket that the system opens was not open. -/
def Os.FreshSocket (os : Os) (σ : Resources) : Prop :=
  ∀ sock, os.socket = .ok sock → sock ∉ σ.openSockets

/-- A computation that may fail and keeps what it has acquired. -/
abbrev Acquiring := ExceptT Text (StateM Resources)

/-- `AU_TRY` on an outcome. -/
def tryOutcome {α : Type} (outcome : Except Text α) : Acquiring α := ExceptT.mk (pure outcome)

namespace SocketOps

/-- `fail(prefix + "{}", errno)`. -/
def failed (message : String) (errno : UInt32) : Text := text message ++ formatU32 errno

def createUnixSocket (os : Os) : Acquiring ℕ := do
  let sock ← tryOutcome (os.socket.mapError (failed "socket(AF_UNIX) failed: "))
  modify fun σ => { σ with openSockets := sock :: σ.openSockets }
  return sock

def bindUnixSocket (os : Os) (path : Text) : Acquiring Unit :=
  tryOutcome ((os.bind path).mapError (failed "bind failed: "))

def listen (os : Os) : Acquiring Unit := tryOutcome (os.listen.mapError (failed "listen failed: "))

end SocketOps

/-- `FileOps::map_shared_memory`. -/
def FileOps.mapSharedMemory (os : Os) (name : Text) (size : ℕ) (isOwner : Bool) : Acquiring ℕ := do
  match os.shmOpen name with
  | none =>
    throw (text "Failed to " ++ text (if isOwner then "owner" else "consumer") ++
      text " shared memory '" ++ name ++ text "'")
  | some fd =>
    modify fun σ => { σ with
      openFiles := fd :: σ.openFiles
      sharedMemoryNames :=
        if isOwner then σ.sharedMemoryNames.insert name else σ.sharedMemoryNames }
    if isOwner && !os.ftruncate size then
      modify fun σ => { σ with
        openFiles := σ.openFiles.erase fd
        sharedMemoryNames := σ.sharedMemoryNames.filter (· ≠ name) }
      throw (text "Failed to truncate shared memory '" ++ name ++ text "'")
    else
      match os.mmap size with
      | none =>
        modify fun σ => { σ with openFiles := σ.openFiles.erase fd }
        throw (text "Failed to mmap shared memory '" ++ name ++ text "'")
      | some address =>
        modify fun σ => { σ with mappedFiles := (address, fd, size) :: σ.mappedFiles }
        return address

/-! ### The call -/

namespace IpcManager

/-- A ring over fresh shared memory, which is zero; the control block and the data start at
`controlOffset` and `dataOffset` of the mapping. -/
def createRing (mappedPtr controlOffset dataOffset dataSize : ℕ) : Acquiring RingBufferView :=
  tryOutcome (((RingBufferView.create (some (usize (mappedPtr + controlOffset)))
    (usize (mappedPtr + dataOffset)) dataSize true ⟨⟨0, 0, 0⟩, fun _ => 0⟩).map Prod.fst).mapError
      text)

/-- `spawn_node` from where it has its socket. -/
def afterSocket (os : Os) (sid : UInt32) (executablePath normalized : Text)
    (sharedMemorySize : UInt32) (listenerSocket : ℕ) : Acquiring ℕ := do
  SocketOps.bindUnixSocket os (sockPath sid)
  SocketOps.listen os
  let mappedPtr ← FileOps.mapSharedMemory os (shmName sid) sharedMemorySize.toNat true
  let layout := IpcSharedMemoryLayout.ofSize sharedMemorySize
  let moni ← createRing mappedPtr IpcSharedMemoryLayout.moniControlOffset layout.moniDataOffset
    layout.moniDataSize
  let mino ← createRing mappedPtr IpcSharedMemoryLayout.minoControlOffset layout.minoDataOffset
    layout.minoDataSize
  let args := nodeArgs (sessionDescriptor sid sharedMemorySize)
  if !os.isActive then
    throw (text "Failed to spawn the child process \"" ++ executablePath ++ text "\"")
  modify fun σ => { σ with
    pendingSessions := σ.pendingSessions ++ [{
      listenerSocket := listenerSocket
      mappedPtr := mappedPtr
      layout := layout
      moni := moni
      mino := mino
      nodeProcess := (normalized, args)
      sharedMemName := shmName sid }] }
  return os.processId

/-- `spawn_node`, for the session number `sid` that it takes and the `normalized` path of
`executablePath`; the result is the process id. -/
def spawnNode (os : Os) (sid : UInt32) (executablePath normalized : Text)
    (sharedMemorySize : UInt32) : Acquiring ℕ := do
  let listenerSocket ← SocketOps.createUnixSocket os
  afterSocket os sid executablePath normalized sharedMemorySize listenerSocket

/-- The layout and the rings of a session lie in its block of `sharedMemorySize` bytes. -/
structure Fits (node : SpawnedNode) (sharedMemorySize : ℕ) : Prop where
  header : IpcSharedMemoryLayout.getHeaderSize ≤ node.layout.moniDataOffset
  moni : node.layout.moniDataOffset + node.layout.moniDataSize ≤ node.layout.minoDataOffset
  mino : node.layout.minoDataOffset + node.layout.minoDataSize ≤ sharedMemorySize
  nonzero : node.layout.moniDataSize ≠ 0 ∧ node.layout.minoDataSize ≠ 0
  equal : node.layout.moniDataSize = node.layout.minoDataSize
  capacity : node.moni.capacity = node.layout.moniDataSize ∧
    node.mino.capacity = node.layout.minoDataSize

/-! ### A failing call -/

/-- A manager, with the sessions that `spawn_node` leaves alone. -/
structure Managed where
  resources : Resources
  activeSessions : List SpawnedNode

def Managed.spawnNode (os : Os) (sid : UInt32) (executablePath normalized : Text)
    (sharedMemorySize : UInt32) (m : Managed) : Except Text ℕ × Managed :=
  let (result, resources) := ((IpcManager.spawnNode os sid executablePath normalized
    sharedMemorySize).run.run m.resources).run
  (result, { m with resources := resources })

/-- The open sockets, the mapped files and the names of shared memory are the same sets, and the two
lists of sessions are the same. -/
structure Unchanged (m m' : Managed) : Prop where
  openSockets : ∀ sock, sock ∈ m'.resources.openSockets ↔ sock ∈ m.resources.openSockets
  mappedFiles : ∀ file, file ∈ m'.resources.mappedFiles ↔ file ∈ m.resources.mappedFiles
  sharedMemoryNames :
    ∀ name, name ∈ m'.resources.sharedMemoryNames ↔ name ∈ m.resources.sharedMemoryNames
  pendingSessions : m'.resources.pendingSessions = m.resources.pendingSessions
  activeSessions : m'.activeSessions = m.activeSessions

/-- Nothing fails after the socket is open. -/
structure Completes (os : Os) (sid sharedMemorySize : UInt32) : Prop where
  bind : os.bind (sockPath sid) = .ok ()
  listen : os.listen = .ok ()
  shmOpen : ∃ fd, os.shmOpen (shmName sid) = some fd
  ftruncate : os.ftruncate sharedMemorySize.toNat = true
  mmap : ∃ address, os.mmap sharedMemorySize.toNat = some address
  moni : (IpcSharedMemoryLayout.ofSize sharedMemorySize).moniDataSize ≠ 0
  mino : (IpcSharedMemoryLayout.ofSize sharedMemorySize).minoDataSize ≠ 0
  isActive : os.isActive = true

end IpcManager

end IACore
