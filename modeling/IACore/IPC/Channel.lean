import IACore.IPC.SpawnNode
import IACore.Library.LittleEndian
import IACore.Library.Segment
import IACore.RingBuffer.Spsc

/-!
# The channel between a manager and a node

The two rings of a session in one block of shared memory.  The manager writes the layout and sets up
both rings before it starts the node; the node connects at any time after that, from the layout that
it then finds in the block, and each side sends on one ring and receives on the other.  The steps of
both sides, down to single bytes, interleave freely.

Addresses are offsets in the block, which the two processes map at different places.  A step on a
ring may write any byte from the ring's data on, as its pointer allows: that it does not leave its
ring is a theorem.
-/

namespace IACore

namespace IpcSharedMemoryLayout

/-! ### The layout in memory -/

/-- The fields, each with its offset and size. -/
def fields (layout : IpcSharedMemoryLayout) : List (ℕ × ℕ × ℕ) :=
  [(0, 4, layout.magic), (4, 4, layout.version), (8, 8, layout.totalSize),
    (320, 8, layout.moniDataOffset), (328, 8, layout.moniDataSize),
    (336, 8, layout.minoDataOffset), (344, 8, layout.minoDataSize)]

/-- The block after the fields have been assigned. -/
def store (layout : IpcSharedMemoryLayout) (bytes : ℕ → UInt8) : ℕ → UInt8 :=
  layout.fields.foldl
    (fun bytes (offset, size, value) => memcpyTo bytes offset (LittleEndian.toBytes size value))
    bytes

/-- The unsigned field at `offset`. -/
def loadField (bytes : ℕ → UInt8) (offset size : ℕ) : ℕ :=
  LittleEndian.ofBytes (memcpyFrom bytes offset size)

/-- The layout that is found in a block. -/
def load (bytes : ℕ → UInt8) : IpcSharedMemoryLayout where
  magic := loadField bytes 0 4
  version := loadField bytes 4 4
  totalSize := loadField bytes 8 8
  moniDataOffset := loadField bytes 320 8
  moniDataSize := loadField bytes 328 8
  minoDataOffset := loadField bytes 336 8
  minoDataSize := loadField bytes 344 8

end IpcSharedMemoryLayout

/-- The rings: `moni` is manager out, node in, and `mino` manager in, node out. -/
inductive Ring
  | moni
  | mino
  deriving DecidableEq, Repr

namespace Ring

def controlOffset : Ring → ℕ
  | .moni => IpcSharedMemoryLayout.moniControlOffset
  | .mino => IpcSharedMemoryLayout.minoControlOffset

def dataOffset (layout : IpcSharedMemoryLayout) : Ring → ℕ
  | .moni => layout.moniDataOffset
  | .mino => layout.minoDataOffset

def dataSize (layout : IpcSharedMemoryLayout) : Ring → ℕ
  | .moni => layout.moniDataSize
  | .mino => layout.minoDataSize

/-- The view that `RingBufferView::create` makes of the ring. -/
def create (r : Ring) (layout : IpcSharedMemoryLayout) (isOwner : Bool) (mem : RingMemory) :
    Except String (RingBufferView × RingMemory) :=
  RingBufferView.create (some r.controlOffset) (r.dataOffset layout) (r.dataSize layout) isOwner mem

end Ring

inductive Party
  | manager
  | node
  deriving DecidableEq, Repr

namespace Party

/-- The ring that a party pushes to. -/
def sends : Party → Ring
  | .manager => .moni
  | .node => .mino

/-- The ring that a party pops from. -/
def receives : Party → Ring
  | .manager => .mino
  | .node => .moni

end Party

/-- The block of a session: the bytes by their offsets, and the control blocks of the rings. -/
structure SharedBlock where
  bytes : ℕ → UInt8
  control : Ring → ControlBlock

/-- A session: its block, the views of both sides, where the calls of `push` and `pop` on each ring
stand, and what those that returned success were given and handed out.  A side without views has
not set up the session, or not connected to it. -/
structure Channel where
  block : SharedBlock
  views : Party → Option (IpcSharedMemoryLayout × (Ring → RingBufferView))
  producer : Ring → Producer
  consumer : Ring → Consumer
  accepted : Ring → List Packet
  popped : Ring → List (UInt16 × List UInt8)

namespace Channel

/-- The size of `m_receive_buffer`: `UINT16_MAX + 1`. -/
def receiveBufferSize : ℕ := 65536

/-! ### One ring of the block -/

/-- The ring whose data are at `dataOffset`. -/
def ring (σ : Channel) (r : Ring) (dataOffset : ℕ) : Spsc where
  memory := ⟨σ.block.control r, Segment.read σ.block.bytes dataOffset⟩
  producer := σ.producer r
  consumer := σ.consumer r
  accepted := σ.accepted r
  popped := σ.popped r

/-- The session after a step on that ring. -/
def setRing (σ : Channel) (r : Ring) (dataOffset : ℕ) (τ : Spsc) : Channel :=
  { σ with
    block :=
      { bytes := Segment.write σ.block.bytes dataOffset τ.memory.data
        control := Function.update σ.block.control r τ.memory.control }
    producer := Function.update σ.producer r τ.producer
    consumer := Function.update σ.consumer r τ.consumer
    accepted := Function.update σ.accepted r τ.accepted
    popped := Function.update σ.popped r τ.popped }

/-! ### The steps -/

/-- What `IpcNode::connect` makes of the block. -/
def connect (σ : Channel) : Except String Channel := do
  let layout := IpcSharedMemoryLayout.load σ.block.bytes
  if layout.magic ≠ 0x49414950 then
    throw "Invalid shared memory header signature"
  if layout.version ≠ 1 then
    throw "IPC version mismatch"
  let (moni, _) ← Ring.moni.create layout false (σ.ring .moni layout.moniDataOffset).memory
  let (mino, _) ← Ring.mino.create layout false (σ.ring .mino layout.minoDataOffset).memory
  return { σ with views := Function.update σ.views .node (some (layout, fun
    | .moni => moni
    | .mino => mino)) }

/-- One step of one side. -/
inductive Step (σ : Channel) : Channel → Prop
  /-- The node connects. -/
  | connect {σ'} (h : σ.connect = .ok σ') : Step σ σ'
  /-- A side calls `send_packet`, which calls `push`. -/
  | call {party layout views τ} (id : UInt16) (data : List UInt8)
      (hviews : σ.views party = some (layout, views))
      (h : (σ.ring party.sends (party.sends.dataOffset layout)).call id data = some τ) :
      Step σ (σ.setRing party.sends (party.sends.dataOffset layout) τ)
  /-- The call goes on. -/
  | produce {party layout views τ} (hviews : σ.views party = some (layout, views))
      (h : (σ.ring party.sends (party.sends.dataOffset layout)).produce (views party.sends) =
        some τ) :
      Step σ (σ.setRing party.sends (party.sends.dataOffset layout) τ)
  /-- A side is in `update`, which calls `pop`. -/
  | consume {party layout views} (hviews : σ.views party = some (layout, views)) :
      Step σ (σ.setRing party.receives (party.receives.dataOffset layout)
        ((σ.ring party.receives (party.receives.dataOffset layout)).consume
          (views party.receives) receiveBufferSize))

/-- Any interleaving of steps. -/
abbrev Run : Channel → Channel → Prop := Relation.ReflTransGen Step

end Channel

end IACore
