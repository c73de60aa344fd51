import IACore.RingBuffer.Equiv.Wrapped
import IACore.RingBuffer.Fifo

/-!
# `RingBufferView` refines the bounded FIFO

`Represents v mem ps` relates a ring to its queued packets: the packets' bytes lie in the cyclic
window at `read_offset`, `write_offset` is where the window ends, and a byte is free.  One call of
`push` or `pop` keeps it and answers what the queue answers (`Represents.push`, `Represents.pop`),
so every run does (`Represents.run`).
-/

namespace IACore

open CyclicMemory

/-- The ring behind `v` holds the packets `ps`, oldest first. -/
structure Represents (v : RingBufferView) (mem : RingMemory) (ps : List Packet) : Prop where
  read_lt : mem.control.readOffset < v.capacity
  write_eq : mem.control.writeOffset = (mem.control.readOffset + used ps) % v.capacity
  used_lt : used ps < v.capacity
  holds : Holds mem.data v.capacity mem.control.readOffset (stream ps)

namespace Represents

variable {v : RingBufferView} {mem : RingMemory} {ps : List Packet}

theorem write_lt (h : Represents v mem ps) : mem.control.writeOffset < v.capacity := by
  rw [h.write_eq]
  exact Nat.mod_lt _ (Nat.zero_lt_of_lt h.read_lt)

/-- An owner's fresh view is empty. -/
theorem construct (cb data : ℕ) {size : ℕ} (h0 : 0 < size) (hsize : size < 4294967296)
    (mem : RingMemory) :
    Represents (RingBufferView.construct cb data size true mem).1
      (RingBufferView.construct cb data size true mem).2 [] := by
  have hu : u32 size = size := u32_of_lt (by omega)
  constructor <;> simp [RingBufferView.construct, hu, h0]

theorem freeSpace_eq (h : Represents v mem ps) (hcap : v.capacity < 4294967296) :
    v.freeSpace mem.control.readOffset mem.control.writeOffset = v.capacity - used ps := by
  have := RingBufferView.freeSpace_mod hcap mem.control.readOffset h.used_lt
  rwa [← h.write_eq, Nat.mod_eq_of_lt h.read_lt] at this

theorem read_eq_write_iff (h : Represents v mem ps) :
    mem.control.readOffset = mem.control.writeOffset ↔ ps = [] := by
  constructor
  · intro heq
    by_contra hne
    obtain ⟨p, rest, rfl⟩ := List.exists_cons_of_ne_nil hne
    have hu := h.used_lt
    have hw := h.write_eq
    rw [← heq, used_cons, Packet.size, PacketHeader.size] at hw
    rw [used_cons, Packet.size, PacketHeader.size] at hu
    refine mod_ne_mod_of_lt (a := mem.control.readOffset) (c := v.capacity) ?_ ?_
      ((Nat.mod_eq_of_lt h.read_lt).trans hw) <;> omega
  · rintro rfl
    rw [h.write_eq, used_nil, Nat.add_zero, Nat.mod_eq_of_lt h.read_lt]

/-! ### `push` -/

/-- The bytes `push` writes are those of its packet, at the end of the queued stream. -/
theorem write_packet (h : Represents v mem ps) (hcap : v.capacity < 4294967296) (p : Packet)
    (hfit : v.Fits mem.control.writeOffset p.payload.length)
    (hfree : used ps + p.size < v.capacity) :
    (let mem₁ := v.writeWrapped mem.control.writeOffset p.header.toBytes PacketHeader.size mem.data
     if p.payload.isEmpty then mem₁
     else v.writeWrapped ((mem.control.writeOffset + PacketHeader.size) % v.capacity) p.payload
       (u32 p.payload.length) mem₁) =
      fill mem.data v.capacity mem.control.writeOffset p.toBytes := by
  have hw := h.write_lt
  have hp := p.fits
  rw [Packet.size] at hfree
  have hsize : PacketHeader.size = p.header.toBytes.length := rfl
  have hhead := RingBufferView.writeWrapped_eq_fill mem.data p.header.toBytes
    hcap hw (by rw [← hsize]; omega) hfit.header
  rw [← hsize] at hhead
  rw [hhead, Packet.toBytes, fill_append, ← hsize]
  by_cases hempty : p.payload = []
  · simp [hempty, fill]
  · have hlt : (mem.control.writeOffset + PacketHeader.size) % v.capacity < v.capacity :=
      Nat.mod_lt _ (by omega)
    have hpay := RingBufferView.writeWrapped_eq_fill
      (fill mem.data v.capacity mem.control.writeOffset p.header.toBytes) p.payload hcap hlt
      (by omega) hfit.payload
    rw [fill_mod] at hpay
    rw [u32_of_lt (by omega)]
    simp only [List.isEmpty_iff, hempty, if_false]
    exact hpay

/-- `push` answers as the queue does, and the ring then holds what the queue holds. -/
theorem push {q : PacketQueue v.capacity} (h : Represents v mem q.packets)
    (hcap : v.capacity < 4294967296) (id : UInt16) (data : List UInt8)
    (hfit : data.length ≤ 65535 → v.Fits mem.control.writeOffset data.length) :
    (v.push id data mem).1 = (q.push id data).1 ∧
      Represents v (v.push id data mem).2 (q.push id data).2.packets := by
  unfold RingBufferView.push PacketQueue.push
  by_cases hfits : data.length ≤ 65535
  · rw [if_neg (by omega), dif_pos hfits]
    have hu := h.used_lt
    have htotal : u32 (PacketHeader.size + u32 data.length) =
        PacketHeader.size + data.length := by
      unfold u32 PacketHeader.size
      omega
    simp only [htotal, h.freeSpace_eq hcap]
    by_cases hfree : used q.packets + PacketHeader.size + data.length < v.capacity
    · rw [if_neg (by omega), dif_pos hfree]
      refine ⟨rfl, ?_⟩
      have hsize : used q.packets + (⟨id, data, hfits⟩ : Packet).size < v.capacity := by
        show used q.packets + (PacketHeader.size + data.length) < v.capacity
        omega
      have hwrite := h.write_packet hcap ⟨id, data, hfits⟩ (hfit hfits) hsize
      simp only [Packet.header] at hwrite
      have hstream : stream (q.packets ++ [⟨id, data, hfits⟩]) =
          stream q.packets ++ (⟨id, data, hfits⟩ : Packet).toBytes := by simp
      constructor
      · exact h.read_lt
      · show ((mem.control.writeOffset + PacketHeader.size) % v.capacity + data.length) %
          v.capacity = _
        rw [h.write_eq, Nat.mod_add_mod, Nat.add_assoc, Nat.mod_add_mod, Nat.add_assoc]
        simp [Packet.size]
      · simpa using hsize
      · show Holds _ _ mem.control.readOffset _
        simp only [hwrite]
        rw [h.write_eq, fill_mod, hstream, ← stream_length]
        exact h.holds.append_fill (by rw [stream_length, Packet.toBytes_length]; omega)
    · rw [if_pos (by omega), dif_neg hfree]
      exact ⟨rfl, h⟩
  · rw [if_pos (by omega), dif_neg hfits]
    exact ⟨rfl, h⟩

/-! ### `pop` -/

/-- The header `pop` reads is the oldest packet's. -/
theorem read_header {p : Packet} (h : Represents v mem (p :: ps)) (hcap : v.capacity < 4294967296)
    (hfit : v.Fits mem.control.readOffset p.payload.length) :
    PacketHeader.ofBytes (v.readWrapped mem.control.readOffset PacketHeader.size mem.data) =
      p.header := by
  have hu := h.used_lt
  rw [used_cons, Packet.size] at hu
  have hh := h.holds
  rw [stream_cons, Packet.toBytes, List.append_assoc, holds_append] at hh
  rw [RingBufferView.readWrapped_eq_window hcap h.read_lt (by omega) hfit.header,
    ← PacketHeader.toBytes_length p.header, hh.1.window_eq, PacketHeader.ofBytes_toBytes]

/-- The bytes `pop` reads behind it are the oldest packet's payload. -/
theorem read_payload {p : Packet} (h : Represents v mem (p :: ps)) (hcap : v.capacity < 4294967296)
    (hfit : v.Fits mem.control.readOffset p.payload.length) :
    v.readWrapped ((mem.control.readOffset + PacketHeader.size) % v.capacity) p.payload.length
      mem.data = p.payload := by
  have hu := h.used_lt
  rw [used_cons, Packet.size] at hu
  have hh := h.holds
  rw [stream_cons, Packet.toBytes, List.append_assoc, holds_append, holds_append] at hh
  rw [RingBufferView.readWrapped_eq_window hcap (Nat.mod_lt _ (by omega)) (by omega) hfit.payload,
    window_mod]
  exact hh.2.1.window_eq

/-- `pop` on an empty ring. -/
theorem pop_nil (h : Represents v mem []) (header : PacketHeader) (buffer : List UInt8) :
    v.pop header buffer mem = ⟨.ok none, header, buffer, mem⟩ := by
  unfold RingBufferView.pop
  simp only [h.read_eq_write_iff.mpr rfl, if_true]

/-- `pop` into a buffer the oldest payload does not fit. -/
theorem pop_small {p : Packet} (h : Represents v mem (p :: ps)) (hcap : v.capacity < 4294967296)
    (hfit : v.Fits mem.control.readOffset p.payload.length) (header : PacketHeader)
    {buffer : List UInt8} (hb : buffer.length < p.payload.length) :
    v.pop header buffer mem =
      ⟨.error ("Buffer too small: needed " ++ toString p.payload.length ++ ", provided " ++
        toString buffer.length), p.header, buffer, mem⟩ := by
  have hne : ¬ mem.control.readOffset = mem.control.writeOffset := by
    rw [h.read_eq_write_iff]
    simp
  unfold RingBufferView.pop
  simp only [hne, if_false, h.read_header hcap hfit, Packet.header_payloadSize, hb, if_true]

/-- The memory after the oldest packet has been taken out. -/
def afterPop (v : RingBufferView) (mem : RingMemory) (p : Packet) : RingMemory :=
  { mem with control := { mem.control with
      readOffset := (mem.control.readOffset + p.size) % v.capacity } }

/-- `pop` into a buffer with room for the oldest payload. -/
theorem pop_cons {p : Packet} (h : Represents v mem (p :: ps)) (hcap : v.capacity < 4294967296)
    (hfit : v.Fits mem.control.readOffset p.payload.length) (header : PacketHeader)
    {buffer : List UInt8} (hb : p.payload.length ≤ buffer.length) :
    v.pop header buffer mem =
      ⟨.ok (some p.payload.length), p.header, p.payload ++ buffer.drop p.payload.length,
        afterPop v mem p⟩ := by
  have hne : ¬ mem.control.readOffset = mem.control.writeOffset := by
    rw [h.read_eq_write_iff]
    simp
  unfold RingBufferView.pop
  simp only [hne, if_false, h.read_header hcap hfit, Packet.header_payloadSize,
    show ¬ buffer.length < p.payload.length by omega, h.read_payload hcap hfit]
  have hpayload : (if 0 < p.payload.length then p.payload else []) = p.payload := by
    split_ifs with h0
    · rfl
    · exact (List.eq_nil_of_length_eq_zero (by omega)).symm
  rw [hpayload, afterPop, Packet.size, Nat.add_assoc]

theorem afterPop_represents {p : Packet} (h : Represents v mem (p :: ps)) :
    Represents v (afterPop v mem p) ps := by
  have hu := h.used_lt
  rw [used_cons] at hu
  have hh := h.holds
  rw [stream_cons, holds_append, Packet.toBytes_length] at hh
  constructor
  · exact Nat.mod_lt _ (by omega)
  · show mem.control.writeOffset = _
    rw [h.write_eq, afterPop, Nat.mod_add_mod, used_cons, Nat.add_assoc]
  · omega
  · exact holds_mod.mpr hh.2

/-- `pop` answers as the queue does, and the ring then holds what the queue holds. -/
theorem pop {q : PacketQueue v.capacity} (h : Represents v mem q.packets)
    (hcap : v.capacity ≤ 4294901761) (header : PacketHeader) (buffer : List UInt8) :
    (v.pop header buffer mem).result = (q.pop header buffer).1 ∧
      (v.pop header buffer mem).header = (q.pop header buffer).2.1 ∧
      (v.pop header buffer mem).buffer = (q.pop header buffer).2.2.1 ∧
      Represents v (v.pop header buffer mem).memory (q.pop header buffer).2.2.2.packets := by
  obtain ⟨packets, bounded⟩ := q
  cases packets with
  | nil =>
    rw [h.pop_nil]
    exact ⟨rfl, rfl, rfl, h⟩
  | cons p rest =>
    have hfit := RingBufferView.fits_of_capacity hcap h.read_lt p.fits
    by_cases hb : buffer.length < p.payload.length
    · rw [h.pop_small (by omega) hfit header hb]
      simp only [PacketQueue.pop, hb, if_true]
      exact ⟨trivial, trivial, trivial, h⟩
    · rw [h.pop_cons (by omega) hfit header (by omega)]
      simp only [PacketQueue.pop, hb, if_false]
      exact ⟨trivial, trivial, trivial, h.afterPop_represents⟩

/-! ### Runs -/

theorem exec {q : PacketQueue v.capacity} (h : Represents v mem q.packets)
    (hcap : v.capacity ≤ 4294901761) (op : RingOp) :
    (v.exec mem op).1 = (q.exec op).1 ∧ Represents v (v.exec mem op).2 (q.exec op).2.packets := by
  cases op with
  | push id data =>
    obtain ⟨hres, hrep⟩ := h.push (by omega) id data
      (RingBufferView.fits_of_capacity hcap h.write_lt)
    exact ⟨congrArg RingOut.push hres, hrep⟩
  | pop header buffer =>
    obtain ⟨hres, hhead, hbuf, hrep⟩ := h.pop hcap header buffer
    exact ⟨by simp only [RingBufferView.exec, PacketQueue.exec, hres, hhead, hbuf], hrep⟩

/-- Every run of calls answers as the queue answers. -/
theorem run {q : PacketQueue v.capacity} (h : Represents v mem q.packets)
    (hcap : v.capacity ≤ 4294901761) (ops : List RingOp) :
    (v.run mem ops).1 = (q.run ops).1 ∧ Represents v (v.run mem ops).2 (q.run ops).2.packets := by
  induction ops generalizing mem q with
  | nil => exact ⟨rfl, h⟩
  | cons op ops ih =>
    obtain ⟨hout, hrep⟩ := h.exec hcap op
    obtain ⟨houts, hreps⟩ := ih hrep
    exact ⟨by rw [RingBufferView.run, PacketQueue.run]; simp only [hout, houts], hreps⟩

end Represents

/-! ### The refinement -/

/-- A failing `push` leaves the memory alone, whatever the ring holds. -/
theorem RingBufferView.push_memory_of_ne_ok {v : RingBufferView} {mem : RingMemory} {id : UInt16}
    {data : List UInt8} (h : (v.push id data mem).1 ≠ .ok ()) : (v.push id data mem).2 = mem := by
  unfold RingBufferView.push at h ⊢
  by_cases hfits : 65535 < data.length
  · rw [if_pos hfits]
  · rw [if_neg hfits] at h ⊢
    by_cases hfull : v.freeSpace mem.control.readOffset mem.control.writeOffset ≤
        u32 (PacketHeader.size + u32 data.length)
    · simp only [hfull, if_true]
    · simp only [hfull, if_false, ne_eq, not_true_eq_false] at h

/-- What one further call does to a ring that holds `ps`, call by call. -/
structure ServesQueue (c : ℕ) (v : RingBufferView) (mem : RingMemory) (ps : List Packet) :
    Prop where
  push_iff : ∀ id data, (v.push id data mem).1 = .ok () ↔
    data.length ≤ 65535 ∧ used ps + 4 + data.length < c
  push_fail : ∀ id data, (v.push id data mem).1 ≠ .ok () → (v.push id data mem).2 = mem
  push_appends : ∀ id data (hfits : data.length ≤ 65535), (v.push id data mem).1 = .ok () →
    Represents v (v.push id data mem).2 (ps ++ [⟨id, data, hfits⟩])
  pop_empty : ∀ header buffer, ps = [] →
    v.pop header buffer mem = ⟨.ok none, header, buffer, mem⟩
  pop_oldest : ∀ header buffer p rest, ps = p :: rest → p.payload.length ≤ buffer.length →
    (v.pop header buffer mem).result = .ok (some p.payload.length) ∧
      (v.pop header buffer mem).header.id = p.id ∧
      (v.pop header buffer mem).header.payloadSize.toNat = p.payload.length ∧
      (v.pop header buffer mem).buffer.take p.payload.length = p.payload ∧
      Represents v (v.pop header buffer mem).memory rest
  pop_fail : ∀ header buffer p rest, ps = p :: rest → buffer.length < p.payload.length →
    (∃ e, (v.pop header buffer mem).result = .error e) ∧ (v.pop header buffer mem).memory = mem

theorem Represents.servesQueue {v : RingBufferView} {mem : RingMemory}
    {q : PacketQueue v.capacity} (h : Represents v mem q.packets)
    (hcap : v.capacity ≤ 4294901761) : ServesQueue v.capacity v mem q.packets where
  push_iff id data := by
    rw [(h.push (by omega) id data (RingBufferView.fits_of_capacity hcap h.write_lt)).1]
    simp only [PacketQueue.push, PacketHeader.size]
    split_ifs with hfits hfree <;> simp [*]
  push_fail id data := RingBufferView.push_memory_of_ne_ok
  push_appends id data hfits hok := by
    obtain ⟨hres, hrep⟩ := h.push (by omega) id data
      (RingBufferView.fits_of_capacity hcap h.write_lt)
    rw [hres] at hok
    unfold PacketQueue.push at hok hrep
    rw [dif_pos hfits] at hok hrep
    split_ifs at hok hrep with hfree
    exact hrep
  pop_empty header buffer hnil := by
    rw [hnil] at h
    exact h.pop_nil header buffer
  pop_oldest header buffer p rest hcons hb := by
    rw [hcons] at h
    have hfit := RingBufferView.fits_of_capacity hcap h.read_lt p.fits
    rw [h.pop_cons (by omega) hfit header hb]
    exact ⟨rfl, rfl, p.header_payloadSize, List.take_left' rfl, h.afterPop_represents⟩
  pop_fail header buffer p rest hcons hb := by
    rw [hcons] at h
    have hfit := RingBufferView.fits_of_capacity hcap h.read_lt p.fits
    rw [h.pop_small (by omega) hfit header hb]
    exact ⟨⟨_, rfl⟩, rfl⟩

/-- **The ring refines a bounded FIFO.**  An owner's view of `c` bytes answers every sequence of
calls as the empty queue of bound `c` does, and serves its queued packets at every point. -/
theorem ring_refines_bounded_fifo {c : ℕ} (hc : 1 ≤ c) (hc' : c < 2147483648) (cb data : ℕ)
    (mem : RingMemory) :
    ∃ v m₀, RingBufferView.create (some cb) data c true mem = .ok (v, m₀) ∧
      ∀ ops : List RingOp,
        (v.run m₀ ops).1 = ((PacketQueue.empty hc).run ops).1 ∧
        ServesQueue c v (v.run m₀ ops).2 ((PacketQueue.empty hc).run ops).2.packets := by
  have hcreate : RingBufferView.create (some cb) data c true mem =
      .ok (RingBufferView.construct cb data c true mem) := if_neg (by omega)
  have hcap : (RingBufferView.construct cb data c true mem).1.capacity = c := u32_of_lt (by omega)
  have h₀ := Represents.construct cb data hc (by omega) mem
  generalize RingBufferView.construct cb data c true mem = r at hcreate hcap h₀
  obtain ⟨v, m₀⟩ := r
  refine ⟨v, m₀, hcreate, ?_⟩
  intro ops
  clear hcreate
  subst hcap
  obtain ⟨hout, hrep⟩ := Represents.run (q := PacketQueue.empty hc) h₀ (by omega) ops
  exact ⟨hout, hrep.servesQueue (by omega)⟩

/-- A ring of a hundred bytes, over memory that held something else. -/
theorem ring_refines_bounded_fifo_hundred :
    ∃ v m₀, RingBufferView.create (some 0) 128 100 true ⟨⟨17, 5, 3⟩, fun _ => 0xFF⟩ = .ok (v, m₀) ∧
      ∀ ops : List RingOp,
        (v.run m₀ ops).1 = ((PacketQueue.empty (c := 100) (by decide)).run ops).1 ∧
        ServesQueue 100 v (v.run m₀ ops).2
          ((PacketQueue.empty (c := 100) (by decide)).run ops).2.packets :=
  ring_refines_bounded_fifo (by decide) (by decide) 0 128 _

end IACore
