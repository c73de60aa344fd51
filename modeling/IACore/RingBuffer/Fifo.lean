import IACore.RingBuffer

/-!
# What the ring is for: a bounded FIFO of packets

`PacketQueue c` is the abstract component: the packets pushed and not yet popped, oldest first,
whose bytes (four for each header) leave at least one of `c` bytes free.  Its operations report what
`RingBufferView::push` and `RingBufferView::pop` are documented to report.
-/

namespace IACore

/-- A packet a ring can carry. -/
@[ext] structure Packet where
  id : UInt16
  payload : List UInt8
  fits : payload.length ≤ 65535
  deriving DecidableEq, Repr

namespace Packet

def header (p : Packet) : PacketHeader := ⟨p.id, UInt16.ofNat p.payload.length⟩

/-- The packet as it travels through the ring. -/
def toBytes (p : Packet) : List UInt8 := p.header.toBytes ++ p.payload

def size (p : Packet) : ℕ := PacketHeader.size + p.payload.length

@[simp] theorem toBytes_length (p : Packet) : p.toBytes.length = p.size := by
  rw [toBytes, List.length_append]
  rfl

@[simp] theorem header_payloadSize (p : Packet) :
    p.header.payloadSize.toNat = p.payload.length := by
  have h : p.payload.length < UInt16.size := Nat.lt_succ_of_le p.fits
  exact UInt16.toNat_ofNat_of_lt h

end Packet

/-- The bytes a list of packets takes up. -/
def used (ps : List Packet) : ℕ := (ps.map Packet.size).sum

/-- The packets' bytes, one packet after the other. -/
def stream (ps : List Packet) : List UInt8 := ps.flatMap Packet.toBytes

@[simp] theorem used_nil : used [] = 0 := rfl

@[simp] theorem used_cons (p : Packet) (ps : List Packet) : used (p :: ps) = p.size + used ps := by
  simp [used]

@[simp] theorem used_append (ps qs : List Packet) : used (ps ++ qs) = used ps + used qs := by
  simp [used]

@[simp] theorem stream_nil : stream [] = [] := rfl

@[simp] theorem stream_cons (p : Packet) (ps : List Packet) :
    stream (p :: ps) = p.toBytes ++ stream ps := rfl

@[simp] theorem stream_append (ps qs : List Packet) :
    stream (ps ++ qs) = stream ps ++ stream qs := by
  simp [stream]

@[simp] theorem stream_length (ps : List Packet) : (stream ps).length = used ps := by
  induction ps with
  | nil => rfl
  | cons p ps ih => rw [stream_cons, List.length_append, ih, used_cons, Packet.toBytes_length]

/-- The queued packets, oldest first; one of the `c` bytes stays free. -/
structure PacketQueue (c : ℕ) where
  packets : List Packet
  bounded : used packets < c

namespace PacketQueue

variable {c : ℕ}

def empty (hc : 0 < c) : PacketQueue c := ⟨[], hc⟩

/-- A packet is accepted when its size fits the header's `u16` and one byte would stay free. -/
def push (q : PacketQueue c) (id : UInt16) (data : List UInt8) :
    Except String Unit × PacketQueue c :=
  if hfits : data.length ≤ 65535 then
    if hfree : used q.packets + PacketHeader.size + data.length < c then
      (.ok (), ⟨q.packets ++ [⟨id, data, hfits⟩], by
        simpa [Packet.size, Nat.add_assoc] using hfree⟩)
    else (.error "RingBuffer full", q)
  else (.error "Data size exceeds u16 limit", q)

/-- The oldest packet leaves when the caller's buffer has room for its payload; its header is shown
either way. -/
def pop (q : PacketQueue c) (header : PacketHeader) (buffer : List UInt8) :
    Except String (Option ℕ) × PacketHeader × List UInt8 × PacketQueue c :=
  match h : q.packets with
  | [] => (.ok none, header, buffer, q)
  | p :: rest =>
    if buffer.length < p.payload.length then
      (.error ("Buffer too small: needed " ++ toString p.payload.length ++ ", provided " ++
        toString buffer.length), p.header, buffer, q)
    else
      (.ok (some p.payload.length), p.header, p.payload ++ buffer.drop p.payload.length,
        ⟨rest, by
          have := q.bounded
          rw [h, used_cons] at this
          omega⟩)

end PacketQueue

/-! ### Runs of operations -/

/-- A call on a ring. -/
inductive RingOp where
  | push (id : UInt16) (data : List UInt8)
  | pop (header : PacketHeader) (buffer : List UInt8)

/-- What the caller sees of a call. -/
inductive RingOut where
  | push (result : Except String Unit)
  | pop (result : Except String (Option ℕ)) (header : PacketHeader) (buffer : List UInt8)

def RingBufferView.exec (v : RingBufferView) (mem : RingMemory) : RingOp → RingOut × RingMemory
  | .push id data =>
    let r := v.push id data mem
    (.push r.1, r.2)
  | .pop header buffer =>
    let r := v.pop header buffer mem
    (.pop r.result r.header r.buffer, r.memory)

def RingBufferView.run (v : RingBufferView) (mem : RingMemory) :
    List RingOp → List RingOut × RingMemory
  | [] => ([], mem)
  | op :: ops =>
    let r := v.exec mem op
    let rs := v.run r.2 ops
    (r.1 :: rs.1, rs.2)

def PacketQueue.exec {c : ℕ} (q : PacketQueue c) : RingOp → RingOut × PacketQueue c
  | .push id data =>
    let r := q.push id data
    (.push r.1, r.2)
  | .pop header buffer =>
    let r := q.pop header buffer
    (.pop r.1 r.2.1 r.2.2.1, r.2.2.2)

def PacketQueue.run {c : ℕ} (q : PacketQueue c) : List RingOp → List RingOut × PacketQueue c
  | [] => ([], q)
  | op :: ops =>
    let r := q.exec op
    let rs := r.2.run ops
    (r.1 :: rs.1, rs.2)

end IACore
