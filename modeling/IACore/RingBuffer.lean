import IACore.Machine
import Mathlib.Data.List.Basic

/-!
# `RingBufferView`

The shared-memory packet ring of `IACore/ADT/RingBuffer.hpp`.  A view names a control block and a
data buffer by two pointers; the operations take what the pointers name as a `RingMemory`, whose
bytes are a function of the address so that a copy past the capacity is visible as such.

The arithmetic follows the source's types: `offset + size` and the two subtractions are `u32`, and
the sums under a `% cap` have a `usize` operand and are exact.
-/

namespace IACore

/-- `RingBufferView::ControlBlock`: the two offsets and the capacity the owner recorded. -/
structure ControlBlock where
  writeOffset : ℕ
  readOffset : ℕ
  capacity : ℕ
  deriving DecidableEq, Repr

/-- `sizeof(ControlBlock)`: a cache line for each side. -/
def ControlBlock.size : ℕ := 128

/-- What one control block pointer and one data pointer name. -/
structure RingMemory where
  control : ControlBlock
  data : ℕ → UInt8

/-- `RingBufferView::PacketHeader`. -/
structure PacketHeader where
  id : UInt16
  payloadSize : UInt16
  deriving DecidableEq, Repr

/-- `RingBufferView`; a pointer is its address, `none` is `nullptr`. -/
structure RingBufferView where
  dataPtr : Option ℕ
  capacity : ℕ
  controlBlock : Option ℕ
  deriving DecidableEq, Repr

namespace PacketHeader

/-- `sizeof(PacketHeader)`. -/
def size : ℕ := 4

/-- The header as it lies in memory: two little-endian `u16`. -/
def toBytes (h : PacketHeader) : List UInt8 :=
  [UInt8.ofNat (h.id.toNat % 256), UInt8.ofNat (h.id.toNat / 256),
    UInt8.ofNat (h.payloadSize.toNat % 256), UInt8.ofNat (h.payloadSize.toNat / 256)]

/-- The header that four bytes of memory represent. -/
def ofBytes : List UInt8 → PacketHeader
  | [a, b, c, d] =>
    ⟨UInt16.ofNat (a.toNat + 256 * b.toNat), UInt16.ofNat (c.toNat + 256 * d.toNat)⟩
  | _ => ⟨0, 0⟩

end PacketHeader

/-! ### `std::memcpy` -/

/-- Copy `src` to address `dst`. -/
def memcpyTo (mem : ℕ → UInt8) (dst : ℕ) (src : List UInt8) : ℕ → UInt8 :=
  fun k => if dst ≤ k then src[k - dst]?.getD (mem k) else mem k

/-- Copy `n` bytes from address `src`. -/
def memcpyFrom (mem : ℕ → UInt8) (src n : ℕ) : List UInt8 :=
  (List.range n).map fun i => mem (src + i)

namespace RingBufferView

/-- `default_instance`. -/
def defaultInstance : RingBufferView := ⟨none, 0, none⟩

/-- `is_valid`. -/
def isValid (v : RingBufferView) : Bool :=
  v.controlBlock.isSome && v.dataPtr.isSome && v.capacity != 0

/-- The constructor over a control block at `controlBlock` and a buffer of `size` bytes at `data`:
an owner resets the control block. -/
def construct (controlBlock data size : ℕ) (isOwner : Bool) (mem : RingMemory) :
    RingBufferView × RingMemory :=
  let capacity := u32 size
  (⟨some data, capacity, some controlBlock⟩,
    if isOwner then { mem with control := ⟨0, 0, capacity⟩ } else mem)

/-- `create(control_block, buffer, is_owner)`. -/
def create (controlBlock : Option ℕ) (data size : ℕ) (isOwner : Bool) (mem : RingMemory) :
    Except String (RingBufferView × RingMemory) :=
  match controlBlock with
  | none => .error "ControlBlock is null"
  | some cb =>
    if size = 0 then .error "Buffer is empty"
    else .ok (construct cb data size isOwner mem)

/-- The constructor over one buffer, which starts with its control block. -/
def constructIn (buffer size : ℕ) (isOwner : Bool) (mem : RingMemory) :
    RingBufferView × RingMemory :=
  let capacity := u32Sub (u32 size) ControlBlock.size
  (⟨some (buffer + ControlBlock.size), capacity, some buffer⟩,
    if isOwner then { mem with control := ⟨0, 0, capacity⟩ } else mem)

/-- `create(buffer, is_owner)`. -/
def createIn (buffer size : ℕ) (isOwner : Bool) (mem : RingMemory) :
    Except String (RingBufferView × RingMemory) :=
  if size ≤ ControlBlock.size then .error "Buffer too small for ControlBlock"
  else if !isOwner && mem.control.capacity != u32Sub (u32 size) ControlBlock.size then
    .error "Capacity mismatch"
  else .ok (constructIn buffer size isOwner mem)

/-- `write_wrapped`: copy the first `size` bytes of `data` to `offset`, past the end to the start.
-/
def writeWrapped (v : RingBufferView) (offset : ℕ) (data : List UInt8) (size : ℕ)
    (mem : ℕ → UInt8) : ℕ → UInt8 :=
  if u32 (offset + size) ≤ v.capacity then memcpyTo mem offset (data.take size)
  else
    let firstChunk := u32Sub v.capacity offset
    let secondChunk := u32Sub size firstChunk
    memcpyTo (memcpyTo mem offset (data.take firstChunk)) 0
      ((data.drop firstChunk).take secondChunk)

/-- `read_wrapped`: the bytes it copies out. -/
def readWrapped (v : RingBufferView) (offset size : ℕ) (mem : ℕ → UInt8) : List UInt8 :=
  if u32 (offset + size) ≤ v.capacity then memcpyFrom mem offset size
  else
    let firstChunk := u32Sub v.capacity offset
    let secondChunk := u32Sub size firstChunk
    memcpyFrom mem offset firstChunk ++ memcpyFrom mem 0 secondChunk

/-- What a call of `pop` leaves: its result, the two out-parameters and the memory. -/
structure PopReturn where
  result : Except String (Option ℕ)
  header : PacketHeader
  buffer : List UInt8
  memory : RingMemory

/-- `pop`. -/
def pop (v : RingBufferView) (header : PacketHeader) (buffer : List UInt8) (mem : RingMemory) :
    PopReturn :=
  let write := mem.control.writeOffset
  let read := mem.control.readOffset
  let cap := v.capacity
  if read = write then ⟨.ok none, header, buffer, mem⟩
  else
    let header := PacketHeader.ofBytes (v.readWrapped read PacketHeader.size mem.data)
    let payloadSize := header.payloadSize.toNat
    if buffer.length < payloadSize then
      ⟨.error ("Buffer too small: needed " ++ toString payloadSize ++ ", provided " ++
        toString buffer.length), header, buffer, mem⟩
    else
      let payload :=
        if 0 < payloadSize then
          v.readWrapped ((read + PacketHeader.size) % cap) payloadSize mem.data
        else []
      let newReadOffset := (read + PacketHeader.size + payloadSize) % cap
      ⟨.ok (some payloadSize), header, payload ++ buffer.drop payload.length,
        { mem with control := { mem.control with readOffset := newReadOffset } }⟩

/-- The free bytes a producer computes from the two offsets it has loaded. -/
def freeSpace (v : RingBufferView) (read write : ℕ) : ℕ :=
  if read ≤ write then u32 (u32Sub v.capacity write + read) else u32Sub read write

/-- `push`. -/
def push (v : RingBufferView) (packetId : UInt16) (data : List UInt8) (mem : RingMemory) :
    Except String Unit × RingMemory :=
  if 65535 < data.length then (.error "Data size exceeds u16 limit", mem)
  else
    let totalSize := u32 (PacketHeader.size + u32 data.length)
    let read := mem.control.readOffset
    let write := mem.control.writeOffset
    let cap := v.capacity
    -- one byte stays empty, so that equal offsets mean an empty ring
    if v.freeSpace read write ≤ totalSize then (.error "RingBuffer full", mem)
    else
      let header : PacketHeader := ⟨packetId, UInt16.ofNat data.length⟩
      let mem₁ := v.writeWrapped write header.toBytes PacketHeader.size mem.data
      let dataWriteOffset := (write + PacketHeader.size) % cap
      let mem₂ :=
        if data.isEmpty then mem₁ else v.writeWrapped dataWriteOffset data (u32 data.length) mem₁
      let newWriteOffset := (dataWriteOffset + data.length) % cap
      (.ok (), ⟨{ mem.control with writeOffset := newWriteOffset }, mem₂⟩)

end RingBufferView

end IACore
