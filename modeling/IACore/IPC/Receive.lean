import IACore.RingBuffer

/-!
# The receive loops of `IpcManager::update` and `IpcNode::update`

Both read `while (ring.pop(header, buffer)) on_packet(...)` over a receive buffer of
`UINT16_MAX + 1` bytes.  The condition converts a `Result<Option<usize>>` to `bool`; that conversion
is the result type's own, so the loop takes it as `converts`.
-/

namespace IACore

/-- The local variables of a receive loop, the ring it drains and the `on_packet` calls so far. -/
structure Receiver (κ : Type) where
  header : PacketHeader
  buffer : List UInt8
  memory : RingMemory
  calls : List κ

/-- The state after one `pop`, before its result is looked at. -/
def Receiver.popped {κ : Type} (ring : RingBufferView) (r : Receiver κ) : Receiver κ :=
  let popped := ring.pop r.header r.buffer r.memory
  ⟨popped.header, popped.buffer, popped.memory, r.calls⟩

/-- The loop body: `on_packet(header.id, {buffer.data(), header.payload_size})`. -/
def Receiver.body {κ : Type} (onPacket : UInt16 → List UInt8 → κ) (r : Receiver κ) : Receiver κ :=
  { r with calls := r.calls ++
      [onPacket r.header.id (r.buffer.take r.header.payloadSize.toNat)] }

/-- `while (ring.pop(header, buffer)) on_packet(...)`, for at most `fuel` evaluations of the
condition; `none` when the loop has not ended by then. -/
def Receiver.drain {κ : Type} (converts : Except String (Option ℕ) → Bool) (ring : RingBufferView)
    (onPacket : UInt16 → List UInt8 → κ) : ℕ → Receiver κ → Option (Receiver κ)
  | 0, _ => none
  | fuel + 1, r =>
    if converts (ring.pop r.header r.buffer r.memory).result then
      drain converts ring onPacket fuel ((r.popped ring).body onPacket)
    else some (r.popped ring)

/-- `m_receive_buffer.resize(UINT16_MAX + 1)`. -/
def receiveBufferSize : ℕ := 65536

/-- The loop of `IpcManager::update` for the session whose process id was loaded as `nodeId`. -/
def IpcManager.receive (converts : Except String (Option ℕ) → Bool) (mino : RingBufferView)
    (nodeId : ℕ) : ℕ → Receiver (ℕ × UInt16 × List UInt8) →
      Option (Receiver (ℕ × UInt16 × List UInt8)) :=
  Receiver.drain converts mino fun id payload => (nodeId, id, payload)

/-- The loop of `IpcNode::update`, which an unconnected node skips. -/
def IpcNode.receive (converts : Except String (Option ℕ) → Bool) (moni : RingBufferView)
    (fuel : ℕ) (r : Receiver (UInt16 × List UInt8)) : Option (Receiver (UInt16 × List UInt8)) :=
  if moni.isValid then Receiver.drain converts moni (fun id payload => (id, payload)) fuel r
  else some r

end IACore
