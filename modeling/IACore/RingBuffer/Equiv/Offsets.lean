import IACore.RingBuffer.Equiv.Spsc

/-!
# Offsets near `2 ^ 32`

The wrapped copies add their offset and size as `u32`.  The sum is exact in every interleaving of
pushes and pops as long as the capacity leaves room for a payload of 65535 bytes behind the last
offset (`copies_inRange_iff`).  In a larger ring such a payload can be pushed to an offset where the
sum wraps, and the copy then goes past the capacity (`push_past_the_capacity`).
-/

namespace IACore

namespace RingBufferView

/-- A wrapped copy whose sum does not wrap and whose bytes lie below the capacity. -/
structure InRange (v : RingBufferView) (offset size : ℕ) : Prop where
  sum : offset + size < 4294967296
  index : ∀ j < size, v.wrappedIndex offset size j < v.capacity

/-- One of the two `create` has made the view, as the owner of the memory. -/
def Created (v : RingBufferView) (mem : RingMemory) : Prop :=
  (∃ cb data size before, create (some cb) data size true before = .ok (v, mem)) ∨
    ∃ buffer size before, createIn buffer size true before = .ok (v, mem)

variable {v : RingBufferView} {mem : RingMemory} {offset size : ℕ}

/-- An owner starts with both offsets at zero, and a capacity is a `u32`. -/
theorem Created.fresh (h : v.Created mem) :
    mem.control.readOffset = 0 ∧ mem.control.writeOffset = 0 ∧ v.capacity < 4294967296 := by
  rcases h with ⟨cb, data, size, before, hcreate⟩ | ⟨buffer, size, before, hcreate⟩
  · unfold create at hcreate
    split_ifs at hcreate
    obtain ⟨rfl, rfl⟩ := Prod.mk.inj (Except.ok.inj hcreate)
    exact ⟨rfl, rfl, Nat.mod_lt _ (by decide)⟩
  · unfold createIn at hcreate
    split_ifs at hcreate
    obtain ⟨rfl, rfl⟩ := Prod.mk.inj (Except.ok.inj hcreate)
    exact ⟨rfl, rfl, Nat.mod_lt _ (by decide)⟩

theorem Created.represents (h : v.Created mem) (hcap : 0 < v.capacity) :
    Represents v mem [] := by
  obtain ⟨hread, hwrite, -⟩ := h.fresh
  constructor <;> simp [hread, hwrite, hcap]

theorem inRange_of_lt (hcap : v.capacity < 4294967296) (ho : offset < v.capacity)
    (hs : size ≤ v.capacity) (hfit : offset + size < 4294967296) : v.InRange offset size where
  sum := hfit
  index j hj := by
    rw [wrappedIndex_eq hcap ho hs hfit hj]
    exact Nat.mod_lt _ (by omega)

end RingBufferView

namespace Spsc

open RingBufferView

variable {v : RingBufferView} {outSize : ℕ} {σ : Spsc} {delivered pending : List Packet}

/-! ### Capacities that leave room -/

theorem Inv.producer_inRange (h : Inv v σ delivered pending) (hcap : v.capacity ≤ 4294901761) :
    ∀ copy ∈ σ.producer.copies v, v.InRange copy.1 copy.2 := by
  intro copy hcopy
  cases hp : σ.producer with
  | idle => simp [hp, Producer.copies] at hcopy
  | loadedRead p read => simp [hp, Producer.copies] at hcopy
  | writing p read write k =>
    obtain ⟨rfl, hroom, -, -⟩ := h.writing hp
    have hlt : ∀ w, w % v.capacity < v.capacity := fun w => Nat.mod_lt _ (by omega)
    have hfit := h.fits hcap (used delivered + used pending) p
    have hsize : u32 p.payload.length = p.payload.length := u32_of_lt (by omega)
    simp only [hp, Producer.copies, hsize, List.mem_cons] at hcopy
    rcases hcopy with rfl | hpayload
    · exact inRange_of_lt (by omega) (hlt _) (by omega) hfit.header
    · split_ifs at hpayload
      · cases hpayload
      · obtain rfl := List.mem_singleton.mp hpayload
        exact inRange_of_lt (by omega) (hlt _) (by omega) hfit.payload

theorem Inv.consumer_inRange (h : Inv v σ delivered pending) (hcap : v.capacity ≤ 4294901761) :
    ∀ copy ∈ σ.consumer.copies v, v.InRange copy.1 copy.2 := by
  intro copy hcopy
  cases hc : σ.consumer with
  | idle => simp [hc, Consumer.copies] at hcopy
  | loadedWrite write => simp [hc, Consumer.copies] at hcopy
  | readingHeader write read bytes =>
    obtain ⟨rfl, p, rest, rfl, -⟩ := h.readingHeader hc
    have hsize := h.front_size
    have hlt : used delivered % v.capacity < v.capacity := Nat.mod_lt _ (by omega)
    simp only [hc, Consumer.copies, List.mem_singleton] at hcopy
    subst hcopy
    exact inRange_of_lt (by omega) hlt (by omega) (h.fits hcap _ p).header
  | readingPayload write read header bytes =>
    obtain ⟨rfl, p, rest, rfl, rfl, -⟩ := h.readingPayload hc
    have hsize := h.front_size
    have hlt : ∀ r, r % v.capacity < v.capacity := fun r => Nat.mod_lt _ (by omega)
    simp only [hc, Consumer.copies, Packet.header_payloadSize] at hcopy
    split_ifs at hcopy
    · obtain rfl := List.mem_singleton.mp hcopy
      exact inRange_of_lt (by omega) (hlt _) (by omega) (h.fits hcap _ p).payload
    · cases hcopy

/-! ### Reaching an offset -/

theorem push_readOffset (id : UInt16) (data : List UInt8) (mem : RingMemory) :
    (v.push id data mem).2.control.readOffset = mem.control.readOffset := by
  unfold RingBufferView.push
  by_cases hfits : 65535 < data.length
  · rw [if_pos hfits]
  · rw [if_neg hfits]
    by_cases hfull : v.freeSpace mem.control.readOffset mem.control.writeOffset ≤
        u32 (PacketHeader.size + u32 data.length)
    · simp only [hfull, if_true]
    · simp only [hfull, if_false]

/-- Both sides between two calls, nothing queued, and the offsets at `offset`. -/
structure Drained (v : RingBufferView) (σ : Spsc) (offset : ℕ) : Prop where
  producer : σ.producer = .idle
  consumer : σ.consumer = .idle
  represents : Represents v σ.memory []
  offset_eq : σ.memory.control.readOffset = offset

/-- One packet through the ring, below the end of the buffer. -/
theorem Drained.cycle {offset : ℕ} (h : Drained v σ offset) (hcap : v.capacity < 4294967296)
    (p : Packet) (hroom : offset + p.size < v.capacity) :
    ∃ σ', Run v 65535 σ σ' ∧ Drained v σ' (offset + p.size) := by
  have hrep := h.represents
  have hwrite : σ.memory.control.writeOffset = offset := by
    rw [hrep.write_eq, used_nil, Nat.add_zero, Nat.mod_eq_of_lt hrep.read_lt, h.offset_eq]
  have hfit : v.Fits offset p.payload.length := by
    rw [Packet.size] at hroom
    exact fits_of_lt (by omega)
  obtain ⟨σ₁, hpush, hproducer₁, hconsumer₁, hmem₁⟩ : ∃ σ₁, Run v 65535 σ σ₁ ∧
      σ₁.producer = .idle ∧ σ₁.consumer = σ.consumer ∧
      σ₁.memory = (v.push p.id p.payload σ.memory).2 :=
    push_alone hcap hrep h.producer p.id p.payload fun _ => hwrite ▸ hfit
  let q : PacketQueue v.capacity := ⟨[], hrep.used_lt⟩
  have hqueued : (q.push p.id p.payload).2.packets = [p] := by
    rw [Packet.size] at hroom
    have hfree : used [] + PacketHeader.size + p.payload.length < v.capacity := by
      rw [used_nil]
      omega
    rw [PacketQueue.push, dif_pos p.fits, dif_pos hfree]
    rfl
  have hrep₁ : Represents v σ₁.memory [p] := by
    rw [hmem₁, ← hqueued]
    exact (hrep.push (q := q) hcap p.id p.payload fun _ => hwrite ▸ hfit).2
  have hread₁ : σ₁.memory.control.readOffset = offset := by
    rw [hmem₁, push_readOffset, h.offset_eq]
  obtain ⟨buffer, hbuffer⟩ : ∃ buffer : List UInt8, buffer.length = 65535 :=
    ⟨List.replicate 65535 0, List.length_replicate⟩
  obtain ⟨σ₂, hpop, hconsumer₂, hproducer₂, hmem₂, -⟩ := pop_alone hcap hrep₁
    (hconsumer₁.trans h.consumer) (by
      rintro _ _ ⟨rfl, rfl⟩
      exact hread₁ ▸ hfit) ⟨0, 0⟩ buffer
  rw [hrep₁.pop_cons hcap (hread₁ ▸ hfit) ⟨0, 0⟩ (hbuffer ▸ p.fits)] at hmem₂
  refine ⟨σ₂, hpush.trans (hbuffer ▸ hpop), ?_⟩
  refine ⟨hproducer₂.trans hproducer₁, hconsumer₂, ?_, ?_⟩
  · rw [hmem₂]
    exact hrep₁.afterPop_represents
  · rw [hmem₂]
    show (σ₁.memory.control.readOffset + p.size) % v.capacity = offset + p.size
    rw [hread₁, Nat.mod_eq_of_lt hroom]

/-- Packets through the ring, one after the other, below the end of the buffer. -/
theorem Drained.cycles (hcap : v.capacity < 4294967296) (ps : List Packet) {offset : ℕ}
    (h : Drained v σ offset) (hroom : offset + used ps < v.capacity) :
    ∃ σ', Run v 65535 σ σ' ∧ Drained v σ' (offset + used ps) := by
  induction ps generalizing σ offset with
  | nil => exact ⟨σ, .refl, h⟩
  | cons p ps ih =>
    rw [used_cons] at hroom
    obtain ⟨σ₁, hrun₁, h₁⟩ := h.cycle hcap p (by omega)
    obtain ⟨σ₂, hrun₂, h₂⟩ := ih h₁ (by omega)
    refine ⟨σ₂, hrun₁.trans hrun₂, ?_⟩
    rwa [used_cons, ← Nat.add_assoc]

/-! ### Larger capacities -/

/-- A payload of `n` zeros. -/
def zeros (n : ℕ) (hn : n ≤ 65535) : Packet := ⟨0, List.replicate n 0, by simpa using hn⟩

@[simp] theorem zeros_size (n : ℕ) (hn : n ≤ 65535) : (zeros n hn).size = n + 4 := by
  simp [zeros, Packet.size, PacketHeader.size, Nat.add_comm]

theorem used_replicate (n : ℕ) (p : Packet) : used (List.replicate n p) = n * p.size := by
  induction n with
  | zero => simp
  | succ n ih => rw [List.replicate_succ, used_cons, ih, Nat.add_one_mul, Nat.add_comm]

/-- Packets that bring the offsets to four bytes before `2 ^ 32 - 65535`. -/
def filler : List Packet := zeros 5 (by decide) :: List.replicate 65532 (zeros 65535 le_rfl)

theorem used_filler : used filler = 4294901757 := by
  rw [filler, used_cons, used_replicate, zeros_size, zeros_size]

/-- A full-size packet is then pushed with its payload at `2 ^ 32 - 65535`. -/
theorem reaches_wrap (hcap : 4294901761 < v.capacity) (hcap' : v.capacity < 4294967296)
    (h : Drained v σ 0) : ∃ σ', Run v 65535 σ σ' ∧ (4294901761, 65535) ∈ σ'.producer.copies v := by
  obtain ⟨σ₁, hrun, h₁⟩ := h.cycles hcap' filler (by rw [used_filler]; omega)
  rw [used_filler] at h₁
  have hrep := h₁.represents
  have hwrite : σ₁.memory.control.writeOffset = 4294901757 := by
    rw [hrep.write_eq, used_nil, h₁.offset_eq]
    exact Nat.mod_eq_of_lt (by omega)
  set p := zeros 65535 le_rfl
  have hlength : p.payload.length = 65535 := List.length_replicate
  have hfull : ¬ v.freeSpace σ₁.memory.control.readOffset σ₁.memory.control.writeOffset ≤
      u32 (PacketHeader.size + u32 p.payload.length) := by
    have htotal : u32 (PacketHeader.size + u32 65535) = 65539 := rfl
    rw [hrep.freeSpace_eq hcap', hlength, used_nil, htotal]
    omega
  have hcall : σ₁.call p.id p.payload = some { σ₁ with
      producer := .loadedRead p σ₁.memory.control.readOffset } := by
    rw [Spsc.call, h₁.producer]
    exact dif_pos p.fits
  have hload : ({ σ₁ with producer := .loadedRead p σ₁.memory.control.readOffset }).produce v =
      some { σ₁ with
        producer := .writing p σ₁.memory.control.readOffset σ₁.memory.control.writeOffset 0 } :=
    if_neg hfull
  refine ⟨_, (hrun.tail (Step.call _ _ hcall)).tail (Step.produce hload), ?_⟩
  have hnonempty : p.payload.isEmpty = false := by
    rw [List.isEmpty_eq_false_iff, ← List.length_pos_iff, hlength]
    decide
  simp only [Producer.copies, hwrite, hlength, hnonempty]
  refine List.mem_cons_of_mem _ (List.mem_singleton.mpr ?_)
  rw [PacketHeader.size, Nat.mod_eq_of_lt hcap, u32_of_lt (by omega)]

end Spsc

theorem RingBufferView.Created.drained {v : RingBufferView} {mem : RingMemory}
    (h : v.Created mem) (hcap : 0 < v.capacity) : Spsc.Drained v (Spsc.start mem) 0 where
  producer := rfl
  consumer := rfl
  represents := h.represents hcap
  offset_eq := h.fresh.1

namespace Spsc

/-- In every state of every interleaving of pushes and pops from `mem`, every wrapped copy that is
being made adds its offset and size exactly and stays below the capacity. -/
def CopiesInRange (v : RingBufferView) (mem : RingMemory) : Prop :=
  ∀ outSize σ, Run v outSize (start mem) σ →
    ∀ copy ∈ σ.producer.copies v ++ σ.consumer.copies v, v.InRange copy.1 copy.2

/-- The copies of a ring are in range exactly if a payload of 65535 bytes still fits below `2 ^ 32`
behind every offset. -/
theorem copies_inRange_iff {v : RingBufferView} {mem : RingMemory} (hcreated : v.Created mem)
    (hpos : 0 < v.capacity) : CopiesInRange v mem ↔ v.capacity ≤ 4294901761 := by
  obtain ⟨hread, -, hcap⟩ := hcreated.fresh
  constructor
  · intro hall
    by_contra hlarge
    obtain ⟨σ, hrun, hcopy⟩ := reaches_wrap (by omega) hcap (hcreated.drained hpos)
    -- the sum of this copy is `2 ^ 32`
    exact absurd (hall 65535 σ hrun _ (List.mem_append_left _ hcopy)).sum (by decide)
  · intro hsmall outSize σ hrun copy hcopy
    obtain ⟨_, _, hinv⟩ := (Inv.start (hcreated.represents hpos) hread).run hsmall hrun
    rcases List.mem_append.mp hcopy with hproducer | hconsumer
    · exact hinv.producer_inRange hsmall copy hproducer
    · exact hinv.consumer_inRange hsmall copy hconsumer

/-- A ring of a hundred bytes. -/
theorem copies_inRange_hundred :
    CopiesInRange ⟨some 128, 100, some 0⟩ ⟨⟨0, 0, 100⟩, fun _ => 0⟩ :=
  (copies_inRange_iff (.inl ⟨0, 128, 100, ⟨⟨9, 9, 9⟩, fun _ => 0⟩, rfl⟩) (by decide)).mpr
    (by decide)

/-- A ring one byte larger than that: the sum wraps to zero, the copy takes the straight branch, and
its second byte lies past the end. -/
theorem push_past_the_capacity : ∃ v mem σ,
    RingBufferView.create (some 0) 128 4294901762 true ⟨⟨0, 0, 0⟩, fun _ => 0⟩ = .ok (v, mem) ∧
      Run v 65535 (start mem) σ ∧ (4294901761, 65535) ∈ σ.producer.copies v ∧
      u32 (4294901761 + 65535) = 0 ∧ ¬ v.wrappedIndex 4294901761 65535 1 < v.capacity := by
  obtain ⟨v, mem, hcreate, hcap⟩ : ∃ v mem,
      RingBufferView.create (some 0) 128 4294901762 true ⟨⟨0, 0, 0⟩, fun _ => 0⟩ = .ok (v, mem) ∧
        v.capacity = 4294901762 := ⟨_, _, rfl, rfl⟩
  have hcreated : v.Created mem := .inl ⟨0, 128, 4294901762, _, hcreate⟩
  obtain ⟨σ, hrun, hcopy⟩ :=
    reaches_wrap (by omega) (by omega) (hcreated.drained (by omega))
  refine ⟨v, mem, σ, hcreate, hrun, hcopy, rfl, ?_⟩
  rw [RingBufferView.wrappedIndex, hcap]
  decide

end Spsc

end IACore
