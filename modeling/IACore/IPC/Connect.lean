import IACore.IPC.Receive
import IACore.IPC.SpawnNode
import IACore.Library.ExceptState
import IACore.Vec

/-!
# `IpcNode::connect` and what a node does

The POSIX build of `connect`, which assigns the fields of the node one after the other, and the
operations of the node that look at them.
-/

namespace IACore

/-- `IpcNode`; a socket or an address is `none` where it is `INVALID_SOCKET` or null. -/
structure IpcNode where
  shmName : Text
  sharedMemory : Option ℕ
  receiveBuffer : List UInt8
  socket : Option ℕ
  moni : RingBufferView
  mino : RingBufferView

/-- What the system calls of a node return, and what its process finds in a block that it has
mapped. -/
structure NodeOs extends Os where
  connect : Text → Except UInt32 Unit
  layout : ℕ → IpcSharedMemoryLayout
  /-- The ring with its control block at an address. -/
  ring : ℕ → RingMemory

/-- A node and what its process has acquired. -/
structure Connection where
  node : IpcNode
  resources : Resources

/-- A computation that may fail and keeps what it has done to the node and acquired. -/
abbrev Connecting := ExceptT Text (StateM Connection)

namespace Connecting

def onResources {α : Type} (x : Acquiring α) : Connecting α :=
  ExceptState.zoom Connection.resources (fun resources c => { c with resources := resources }) x

def modifyNode (f : IpcNode → IpcNode) : Connecting Unit :=
  modify fun c => { c with node := f c.node }

end Connecting

def SocketOps.connectUnixSocket (os : NodeOs) (path : Text) : Acquiring Unit :=
  tryOutcome ((os.connect path).mapError (failed "connect failed: "))

namespace IpcNode

open Connecting

/-- A node on which `connect` was never called. -/
def fresh : IpcNode := ⟨[], none, [], none, .defaultInstance, .defaultInstance⟩

/-! ### `connect` -/

/-- A view on a ring that the manager has set up. -/
def attachRing (os : NodeOs) (sharedMemory controlOffset dataOffset dataSize : ℕ) :
    Acquiring RingBufferView :=
  let control := usize (sharedMemory + controlOffset)
  tryOutcome (((RingBufferView.create (some control) (usize (sharedMemory + dataOffset)) dataSize
    false (os.ring control)).map Prod.fst).mapError text)

/-- `connect` from where the layout has been checked. -/
def attachRings (os : NodeOs) (mappedPtr : ℕ) : Connecting Unit := do
  let layout := os.layout mappedPtr
  let moni ← onResources (attachRing os mappedPtr IpcSharedMemoryLayout.moniControlOffset
    layout.moniDataOffset layout.moniDataSize)
  modifyNode fun n => { n with moni := moni }
  let mino ← onResources (attachRing os mappedPtr IpcSharedMemoryLayout.minoControlOffset
    layout.minoDataOffset layout.minoDataSize)
  modifyNode fun n => { n with mino := mino }
  modifyNode fun n => { n with receiveBuffer := resize n.receiveBuffer receiveBufferSize }

/-- `connect` from where the socket is open. -/
def afterSocket (os : NodeOs) (desc : IpcConnectionDescriptor) (sock : ℕ) : Connecting Unit := do
  modifyNode fun n => { n with socket := some sock }
  onResources (SocketOps.connectUnixSocket os (cString desc.socketPath))
  let mappedPtr ← onResources (FileOps.mapSharedMemory os.toOs desc.sharedMemPath
    desc.sharedMemSize.toNat false)
  modifyNode fun n => { n with sharedMemory := some mappedPtr }
  let layout := os.layout mappedPtr
  if layout.magic ≠ 0x49414950 then
    throw (text "Invalid shared memory header signature")
  if layout.version ≠ 1 then
    throw (text "IPC version mismatch")
  attachRings os mappedPtr

/-- `connect`. -/
def connect (os : NodeOs) (connectionString : Text) : Connecting Unit := do
  match IpcConnectionDescriptor.deserialize (cString connectionString) with
  | none => throw (text "Failed to parse connection string")
  | some desc =>
    modifyNode fun n => { n with shmName := desc.sharedMemPath }
    let sock ← onResources (SocketOps.createUnixSocket os.toOs)
    afterSocket os desc sock

/-! ### The operations -/

/-- What `recv` of one byte answers. -/
inductive Received
  | byte (signal : UInt8)
  | closed
  | wouldBlock
  | failed
  deriving DecidableEq, Repr

/-- What a call of `update` does: the calls of `on_packet` and `on_signal`, and whether it closes
the socket, unlinks the shared memory and exits. -/
structure Updated where
  node : IpcNode
  memory : RingMemory
  packets : List (UInt16 × List UInt8)
  signals : List UInt8
  exits : Bool

/-- `update`, with what the local `header` happens to hold and at most `fuel` packets; `recv` is
asked for a byte of the node's socket. -/
def update (converts : Except String (Option ℕ) → Bool) (recv : Option ℕ → Received)
    (header : PacketHeader) (fuel : ℕ) (n : IpcNode) (mem : RingMemory) : Option Updated :=
  if !n.moni.isValid then some ⟨n, mem, [], [], false⟩
  else do
    let r ← IpcNode.receive converts n.moni fuel ⟨header, n.receiveBuffer, mem, []⟩
    let node := { n with receiveBuffer := r.buffer }
    match recv n.socket with
    | .byte signal => some ⟨node, r.memory, r.calls, [signal], false⟩
    | .wouldBlock => some ⟨node, r.memory, r.calls, [], false⟩
    | .closed | .failed => some ⟨node, r.memory, r.calls, [], true⟩

/-- `send_signal`: the byte that it sends, and on which socket. -/
def sendSignal (n : IpcNode) (signal : UInt8) : Option (ℕ × UInt8) :=
  n.socket.map fun sock => (sock, signal)

/-- `send_packet`. -/
def sendPacket (n : IpcNode) (packetId : UInt16) (payload : List UInt8) (mem : RingMemory) :
    Except String Unit × RingMemory :=
  if !n.mino.isValid then (.error "invalid MINO", mem)
  else n.mino.push packetId payload mem

/-! ### A failing call -/

/-- A node that is not connected: nothing that is done with it has an effect. -/
structure Idle (n : IpcNode) : Prop where
  update : ∀ converts recv header fuel mem,
    n.update converts recv header fuel mem = some ⟨n, mem, [], [], false⟩
  sendSignal : ∀ signal, n.sendSignal signal = none
  sendPacket : ∀ packetId payload mem,
    n.sendPacket packetId payload mem = (.error "invalid MINO", mem)

/-- The node is idle, and what is open are the sockets and the mappings of `σ`. -/
structure Unconnected (σ : Resources) (c : Connection) : Prop where
  idle : Idle c.node
  openSockets : ∀ sock, sock ∈ c.resources.openSockets ↔ sock ∈ σ.openSockets
  mappedFiles : ∀ file, file ∈ c.resources.mappedFiles ↔ file ∈ σ.mappedFiles

/-- Nothing fails after the socket is open, for a connection string that says `desc`. -/
structure Completes (os : NodeOs) (desc : IpcConnectionDescriptor) : Prop where
  connect : os.connect (cString desc.socketPath) = .ok ()
  shmOpen : ∃ fd, os.shmOpen desc.sharedMemPath = some fd
  mmap : ∃ address, os.mmap desc.sharedMemSize.toNat = some address ∧
    (os.layout address).magic = 0x49414950 ∧ (os.layout address).version = 1 ∧
    (os.layout address).moniDataSize ≠ 0 ∧ (os.layout address).minoDataSize ≠ 0

end IpcNode

end IACore
