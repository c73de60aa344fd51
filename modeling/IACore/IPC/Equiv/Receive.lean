import IACore.IPC.Receive
import IACore.RingBuffer.Equiv.Fifo

/-!
# The receive loops do not stop at an empty ring

`pop` answers an empty ring with a *held* empty option, which the loop condition takes for success:
the queued packets are delivered in order (`Receiver.calls_of_queue`), and then the loop goes on
with a stale header (`Receiver.drain_eq_none`).  The only outcome that
would end it is the error of a buffer too small, which a receive buffer of `UINT16_MAX + 1` bytes
excludes (`Represents.pop_receives`).
-/

namespace IACore

/-- What the two loops owe: they end, having called `on_packet` once for each queued packet, in
order, with an empty ring. -/
def Delivers {κ : Type} (loop : ℕ → Receiver κ → Option (Receiver κ))
    (onPacket : UInt16 → List UInt8 → κ) (ps : List Packet) (r : Receiver κ) : Prop :=
  ∃ fuel r', loop fuel r = some r' ∧
    r'.calls = r.calls ++ ps.map (fun p => onPacket p.id p.payload) ∧
    r'.memory.control.readOffset = r'.memory.control.writeOffset

/-- Into a receive buffer, `pop` always holds a value: the oldest packet or none. -/
theorem Represents.pop_receives {v : RingBufferView} {mem : RingMemory} {ps : List Packet}
    (h : Represents v mem ps) (hcap : v.capacity ≤ 4294901761) (header : PacketHeader)
    {buffer : List UInt8} (hb : buffer.length = receiveBufferSize) :
    (∃ n, (v.pop header buffer mem).result = .ok n) ∧
      (v.pop header buffer mem).buffer.length = receiveBufferSize ∧
      Represents v (v.pop header buffer mem).memory ps.tail := by
  cases ps with
  | nil =>
    rw [h.pop_nil]
    exact ⟨⟨none, rfl⟩, hb, h⟩
  | cons p rest =>
    have hp := p.fits
    have hle : p.payload.length ≤ buffer.length := by
      rw [hb, receiveBufferSize]
      omega
    have hfit := RingBufferView.fits_of_capacity hcap h.read_lt hp
    rw [h.pop_cons (by omega) hfit header hle]
    refine ⟨⟨_, rfl⟩, ?_, h.afterPop_represents⟩
    rw [List.length_append, List.length_drop, Nat.add_sub_cancel' hle, hb]

/-- The first turns of the loop deliver the queued packets, each once and in order. -/
theorem Receiver.calls_of_queue {κ : Type} {v : RingBufferView} (hcap : v.capacity ≤ 4294901761)
    (onPacket : UInt16 → List UInt8 → κ) {r : Receiver κ} {ps : List Packet}
    (h : Represents v r.memory ps) (hb : r.buffer.length = receiveBufferSize) :
    ((fun r => (r.popped v).body onPacket)^[ps.length] r).calls =
      r.calls ++ ps.map (fun p => onPacket p.id p.payload) := by
  induction ps generalizing r with
  | nil => simp
  | cons p rest ih =>
    obtain ⟨-, hb', h'⟩ := h.pop_receives hcap r.header hb
    rw [List.length_cons, Function.iterate_succ_apply, ih h' hb']
    have hp := p.fits
    have hle : p.payload.length ≤ r.buffer.length := by
      rw [hb, receiveBufferSize]
      omega
    have hfit := RingBufferView.fits_of_capacity hcap h.read_lt hp
    simp [Receiver.body, Receiver.popped, h.pop_cons (by omega) hfit r.header hle,
      Packet.header_payloadSize]
    rfl

section

variable {converts : Except String (Option ℕ) → Bool}
  (hconverts : ∀ r, converts r = true ↔ ∃ n, r = .ok n)

include hconverts

/-- However many packets are queued, the loop is still running after any number of steps. -/
theorem Receiver.drain_eq_none {κ : Type} {v : RingBufferView} (hcap : v.capacity ≤ 4294901761)
    (onPacket : UInt16 → List UInt8 → κ) (fuel : ℕ) {r : Receiver κ} {ps : List Packet}
    (h : Represents v r.memory ps) (hb : r.buffer.length = receiveBufferSize) :
    Receiver.drain converts v onPacket fuel r = none := by
  induction fuel generalizing r ps with
  | zero => rfl
  | succ fuel ih =>
    obtain ⟨hok, hb', h'⟩ := h.pop_receives hcap r.header hb
    rw [Receiver.drain]
    simp only [(hconverts _).mpr hok, if_true]
    exact ih h' hb'

/-- **The receive loops never deliver.**  For every content of a ring the manager created, neither
the manager's loop on its own view nor the node's on the view it connected with ends. -/
theorem receive_loops_never_deliver {c : ℕ} (hc : 1 ≤ c) (hc' : c < 2147483648)
    (cb data cb' data' : ℕ) (mem : RingMemory) (ops : List RingOp) (header : PacketHeader)
    {buffer : List UInt8} (hb : buffer.length = receiveBufferSize) (nodeId : ℕ) :
    let created := RingBufferView.construct cb data c true mem
    let content := (created.1.run created.2 ops).2
    let connected := RingBufferView.construct cb' data' c false content
    let queued := ((PacketQueue.empty hc).run ops).2.packets
    ¬ Delivers (IpcManager.receive converts created.1 nodeId) (fun id p => (nodeId, id, p)) queued
        ⟨header, buffer, content, []⟩ ∧
      ¬ Delivers (IpcNode.receive converts connected.1) (fun id p => (id, p)) queued
        ⟨header, buffer, connected.2, []⟩ := by
  intro created content connected queued
  have hcap : created.1.capacity = c := u32_of_lt (by omega)
  have hlt : created.1.capacity ≤ 4294901761 := by omega
  have h₀ : Represents created.1 created.2 [] := Represents.construct cb data hc (by omega) mem
  have hrep : ∃ ps, Represents created.1 content ps :=
    ⟨_, (Represents.run (q := PacketQueue.empty (by omega)) h₀ hlt ops).2⟩
  obtain ⟨ps, hps⟩ := hrep
  have hps' : Represents connected.1 connected.2 ps := ⟨hps.1, hps.2, hps.3, hps.4⟩
  have hvalid : connected.1.isValid = true := by
    simp [RingBufferView.isValid, connected, RingBufferView.construct]
    rw [u32_of_lt (by omega)]
    omega
  constructor
  · rintro ⟨fuel, r', hend, -⟩
    rw [IpcManager.receive, Receiver.drain_eq_none hconverts hlt _ fuel hps hb] at hend
    cases hend
  · rintro ⟨fuel, r', hend, -⟩
    rw [IpcNode.receive, if_pos hvalid,
      Receiver.drain_eq_none (v := connected.1) hconverts hlt _ fuel hps'
      hb] at hend
    cases hend

end

/-- Auxid's conversion, as the loops rely on it. -/
def holdsValue : Except String (Option ℕ) → Bool
  | .ok _ => true
  | .error _ => false

theorem holdsValue_iff (r : Except String (Option ℕ)) : holdsValue r = true ↔ ∃ n, r = .ok n := by
  cases r <;> simp [holdsValue]

/-- A ring of sixteen bytes that one packet went through. -/
theorem receive_loops_never_deliver_sixteen :
    let created := RingBufferView.construct 0 128 16 true ⟨⟨0, 0, 0⟩, fun _ => 0⟩
    let ops := [RingOp.push 7 [1, 2, 3], RingOp.pop ⟨0, 0⟩ (List.replicate 3 0)]
    let content := (created.1.run created.2 ops).2
    let connected := RingBufferView.construct 512 640 16 false content
    let queued := ((PacketQueue.empty (c := 16) (by decide)).run ops).2.packets
    ¬ Delivers (IpcManager.receive holdsValue created.1 4242) (fun id p => (4242, id, p)) queued
        ⟨⟨0, 0⟩, List.replicate receiveBufferSize 0, content, []⟩ ∧
      ¬ Delivers (IpcNode.receive holdsValue connected.1) (fun id p => (id, p)) queued
        ⟨⟨0, 0⟩, List.replicate receiveBufferSize 0, connected.2, []⟩ :=
  receive_loops_never_deliver holdsValue_iff (by decide) (by decide) 0 128 512 640 _ _ _
    List.length_replicate 4242

/-- A manager whose session's ring is empty. -/
theorem empty_ring_not_delivered :
    let created := RingBufferView.construct 0 128 16 true ⟨⟨0, 0, 0⟩, fun _ => 0⟩
    ¬ Delivers (IpcManager.receive holdsValue created.1 4242) (fun id p => (4242, id, p)) []
        ⟨⟨0, 0⟩, List.replicate receiveBufferSize 0, created.2, []⟩ := by
  rintro created ⟨fuel, r', hend, -⟩
  have h₀ : Represents created.1 created.2 [] :=
    Represents.construct 0 128 (by decide) (by decide) _
  have hnone := Receiver.drain_eq_none holdsValue_iff (by decide)
    (fun id p => (4242, id, p)) fuel
    (r := ⟨⟨0, 0⟩, List.replicate receiveBufferSize 0, created.2, []⟩)
    h₀ List.length_replicate
  rw [IpcManager.receive, hnone] at hend
  cases hend

end IACore
