import IACore.RingBuffer.Fifo
import Mathlib.Data.List.Infix
import Mathlib.Logic.Function.Basic
import Mathlib.Logic.Relation

/-!
# One producer and one consumer, step by step

`push` and `pop` cut at every access to what the two sides share: each load of an offset, each byte
copied and each store of an offset is a step of its own, and the two sides' steps interleave freely.
A step sees what every earlier step wrote, which is what the acquire loads and release stores give
for the offsets and for the bytes written before them.

`accepted` and `popped` record what the calls that returned success were given and handed out.
-/

namespace IACore

/-- The address that a wrapped copy of `size` bytes at `offset` gives its byte `j`. -/
def RingBufferView.wrappedIndex (v : RingBufferView) (offset size j : ℕ) : ℕ :=
  if u32 (offset + size) ≤ v.capacity then offset + j
  else if j < u32Sub v.capacity offset then offset + j
  else j - u32Sub v.capacity offset

/-- The address of byte `k` of a packet with `size` payload bytes that starts at `offset`: the
header and the payload are copied separately. -/
def RingBufferView.packetIndex (v : RingBufferView) (offset size k : ℕ) : ℕ :=
  if k < PacketHeader.size then v.wrappedIndex offset PacketHeader.size k
  else v.wrappedIndex ((offset + PacketHeader.size) % v.capacity) size (k - PacketHeader.size)

/-- Where the producer stands in `push`; the snapshots are local variables of the call. -/
inductive Producer where
  | idle
  | loadedRead (p : Packet) (read : ℕ)
  | writing (p : Packet) (read write k : ℕ)
  deriving DecidableEq, Repr

/-- Where the consumer stands in `pop`, with the bytes it has copied out so far. -/
inductive Consumer where
  | idle
  | loadedWrite (write : ℕ)
  | readingHeader (write read : ℕ) (bytes : List UInt8)
  | readingPayload (write read : ℕ) (header : PacketHeader) (bytes : List UInt8)
  deriving DecidableEq, Repr

/-- The wrapped copies of the call in progress, each with its offset and size. -/
def Producer.copies (v : RingBufferView) : Producer → List (ℕ × ℕ)
  | .writing p _ write _ =>
    (write, PacketHeader.size) :: if p.payload.isEmpty then [] else
      [((write + PacketHeader.size) % v.capacity, u32 p.payload.length)]
  | _ => []

/-- The wrapped copy that the call in progress is making. -/
def Consumer.copies (v : RingBufferView) : Consumer → List (ℕ × ℕ)
  | .readingHeader _ read _ => [(read, PacketHeader.size)]
  | .readingPayload _ read header _ =>
    if 0 < header.payloadSize.toNat then
      [((read + PacketHeader.size) % v.capacity, header.payloadSize.toNat)]
    else []
  | _ => []

structure Spsc where
  memory : RingMemory
  producer : Producer
  consumer : Consumer
  accepted : List Packet
  popped : List (UInt16 × List UInt8)

namespace Spsc

/-- Two idle sides over the memory an owner has initialised. -/
def start (mem : RingMemory) : Spsc := ⟨mem, .idle, .idle, [], []⟩

/-- The producer calls `push(id, data)`: the size check and the load of `read_offset`. -/
def call (id : UInt16) (data : List UInt8) (σ : Spsc) : Option Spsc :=
  match σ.producer with
  | .idle =>
    if hfits : data.length ≤ 65535 then
      some { σ with producer := .loadedRead ⟨id, data, hfits⟩ σ.memory.control.readOffset }
    else some σ
  | _ => none

/-- The next step of the call of `push` in progress. -/
def produce (v : RingBufferView) (σ : Spsc) : Option Spsc :=
  match σ.producer with
  | .idle => none
  | .loadedRead p read =>
    let write := σ.memory.control.writeOffset
    if v.freeSpace read write ≤ u32 (PacketHeader.size + u32 p.payload.length) then
      some { σ with producer := .idle }
    else some { σ with producer := .writing p read write 0 }
  | .writing p read write k =>
    match p.toBytes[k]? with
    | some byte =>
      some { σ with
        memory.data :=
          Function.update σ.memory.data (v.packetIndex write p.payload.length k) byte
        producer := .writing p read write (k + 1) }
    | none =>
      some { σ with
        memory.control.writeOffset :=
          ((write + PacketHeader.size) % v.capacity + p.payload.length) % v.capacity
        producer := .idle
        accepted := σ.accepted ++ [p] }

/-- The next step of the consumer, whose output buffer has `outSize` bytes. -/
def consume (v : RingBufferView) (outSize : ℕ) (σ : Spsc) : Spsc :=
  match σ.consumer with
  | .idle => { σ with consumer := .loadedWrite σ.memory.control.writeOffset }
  | .loadedWrite write =>
    let read := σ.memory.control.readOffset
    if read = write then { σ with consumer := .idle }
    else { σ with consumer := .readingHeader write read [] }
  | .readingHeader write read bytes =>
    if bytes.length < PacketHeader.size then
      let byte := σ.memory.data (v.wrappedIndex read PacketHeader.size bytes.length)
      { σ with consumer := .readingHeader write read (bytes ++ [byte]) }
    else
      let header := PacketHeader.ofBytes bytes
      if outSize < header.payloadSize.toNat then { σ with consumer := .idle }
      else { σ with consumer := .readingPayload write read header [] }
  | .readingPayload write read header bytes =>
    let payloadSize := header.payloadSize.toNat
    if bytes.length < payloadSize then
      let byte := σ.memory.data
        (v.wrappedIndex ((read + PacketHeader.size) % v.capacity) payloadSize bytes.length)
      { σ with consumer := .readingPayload write read header (bytes ++ [byte]) }
    else
      { σ with
        memory.control.readOffset := (read + PacketHeader.size + payloadSize) % v.capacity
        consumer := .idle
        popped := σ.popped ++ [(header.id, bytes)] }

/-- One step of either side. -/
inductive Step (v : RingBufferView) (outSize : ℕ) (σ : Spsc) : Spsc → Prop
  | call {σ'} (id : UInt16) (data : List UInt8) (h : σ.call id data = some σ') :
      Step v outSize σ σ'
  | produce {σ'} (h : σ.produce v = some σ') : Step v outSize σ σ'
  | consume : Step v outSize σ (σ.consume v outSize)

/-- Any interleaving of steps. -/
abbrev Run (v : RingBufferView) (outSize : ℕ) : Spsc → Spsc → Prop :=
  Relation.ReflTransGen (Step v outSize)

inductive Move
  | call (id : UInt16) (data : List UInt8)
  | produce
  | consume

/-- A chosen step, where it may happen. -/
def move (v : RingBufferView) (outSize : ℕ) (σ : Spsc) : Move → Option Spsc
  | .call id data => σ.call id data
  | .produce => σ.produce v
  | .consume => some (σ.consume v outSize)

/-- The cells from the true `read_offset` up to the published `write_offset`. -/
def Occupied (v : RingBufferView) (σ : Spsc) (index : ℕ) : Prop :=
  ∃ i < (σ.memory.control.writeOffset + v.capacity - σ.memory.control.readOffset) % v.capacity,
    index = (σ.memory.control.readOffset + i) % v.capacity

end Spsc

end IACore
