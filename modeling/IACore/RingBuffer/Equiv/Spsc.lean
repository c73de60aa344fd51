import IACore.Library.EventRun
import IACore.RingBuffer.Equiv.Fifo
import IACore.RingBuffer.Spsc

/-!
# Safety of one producer and one consumer

The invariant (`Spsc.Inv`) splits the accepted packets into those handed out and those still in the
ring, and follows the two offsets by counters that only grow: the consumer's is `used delivered`,
the producer's `used delivered + used pending`.  A stale snapshot of the other side's offset is the
value of its counter at an earlier time, hence at most its counter now; a free-space test that
passed on the old value still holds on the new one, and what lay before an old `write_offset` still
does.

Every step keeps the invariant (`Inv.call`, `Inv.produce`, `Inv.consume`), so every interleaving
does (`Inv.run`), and `spsc_safe` reads the three safety properties off it.
-/

namespace IACore

open CyclicMemory

/-! ### Addresses of a split copy -/

namespace RingBufferView

variable {v : RingBufferView}

theorem wrappedIndex_eq (hcap : v.capacity < 4294967296) {offset size j : ℕ}
    (ho : offset < v.capacity) (hs : size ≤ v.capacity) (hfit : offset + size < 4294967296)
    (hj : j < size) :
    v.wrappedIndex offset size j = (offset + j) % v.capacity := by
  have hfirst : u32Sub v.capacity offset = v.capacity - offset :=
    u32Sub_of_le (by omega) (by omega)
  unfold wrappedIndex
  rw [u32_of_lt hfit, hfirst]
  split_ifs with h h'
  · rw [Nat.mod_eq_of_lt (by omega)]
  · rw [Nat.mod_eq_of_lt (by omega)]
  · rw [Nat.mod_eq_sub_mod (by omega), Nat.mod_eq_of_lt (by omega)]
    omega

/-- The header of a packet that begins at the counter `w`. -/
theorem headerIndex_eq (hcap : v.capacity < 4294967296) (w : ℕ) {s j : ℕ}
    (hs : PacketHeader.size + s < v.capacity) (hfit : v.Fits (w % v.capacity) s)
    (hj : j < PacketHeader.size) :
    v.wrappedIndex (w % v.capacity) PacketHeader.size j = (w + j) % v.capacity := by
  have hlt : w % v.capacity < v.capacity := Nat.mod_lt _ (by omega)
  rw [wrappedIndex_eq hcap hlt (by omega) hfit.header hj, Nat.mod_add_mod]

/-- Its payload follows the header. -/
theorem payloadIndex_eq (hcap : v.capacity < 4294967296) (w : ℕ) {s j : ℕ}
    (hs : PacketHeader.size + s < v.capacity) (hfit : v.Fits (w % v.capacity) s) (hj : j < s) :
    v.wrappedIndex ((w % v.capacity + PacketHeader.size) % v.capacity) s j =
      (w + (PacketHeader.size + j)) % v.capacity := by
  have hlt : (w % v.capacity + PacketHeader.size) % v.capacity < v.capacity :=
    Nat.mod_lt _ (by omega)
  rw [wrappedIndex_eq hcap hlt (by omega) hfit.payload hj, Nat.mod_add_mod, Nat.add_assoc,
    Nat.mod_add_mod]

theorem packetIndex_eq (hcap : v.capacity < 4294967296) (w : ℕ) {s k : ℕ}
    (hs : PacketHeader.size + s < v.capacity) (hfit : v.Fits (w % v.capacity) s)
    (hk : k < PacketHeader.size + s) :
    v.packetIndex (w % v.capacity) s k = (w + k) % v.capacity := by
  unfold packetIndex
  split_ifs with h
  · exact headerIndex_eq hcap w hs hfit h
  · rw [payloadIndex_eq hcap w hs hfit (by omega),
      show PacketHeader.size + (k - PacketHeader.size) = k by omega]

/-- A wrapped read copies its bytes from the addresses of the split copy. -/
theorem readWrapped_eq_map (hcap : v.capacity < 4294967296) {offset size : ℕ}
    (mem : ℕ → UInt8) (ho : offset < v.capacity) (hs : size ≤ v.capacity)
    (hfit : offset + size < 4294967296) :
    (List.range' 0 size).map (fun j => mem (v.wrappedIndex offset size j)) =
      v.readWrapped offset size mem := by
  rw [readWrapped_eq_window hcap ho hs hfit, ← List.range_eq_range']
  apply List.map_congr_left
  intro j hj
  rw [wrappedIndex_eq hcap ho hs hfit (List.mem_range.mp hj)]

end RingBufferView

/-- What a caller of `pop` gets of a packet. -/
def Packet.pair (p : Packet) : UInt16 × List UInt8 := (p.id, p.payload)

namespace Spsc

variable {v : RingBufferView} {outSize : ℕ} {σ σ' : Spsc} {delivered pending : List Packet}

/-! ### The invariant -/

/-- What holds of the producer's local variables. -/
def ProducerInv (v : RingBufferView) (σ : Spsc) (delivered pending : List Packet) : Prop :=
  let w := used delivered + used pending
  match σ.producer with
  | .idle => True
  | .loadedRead _ read =>
    ∃ r ≤ used delivered, read = r % v.capacity ∧ w < r + v.capacity
  | .writing p _ write k =>
    write = w % v.capacity ∧ w + p.size < used delivered + v.capacity ∧ k ≤ p.size ∧
      Holds σ.memory.data v.capacity w (p.toBytes.take k)

/-- What holds of the consumer's local variables. -/
def ConsumerInv (v : RingBufferView) (σ : Spsc) (delivered pending : List Packet) : Prop :=
  match σ.consumer with
  | .idle => True
  | .loadedWrite write =>
    ∃ w, used delivered ≤ w ∧ w ≤ used delivered + used pending ∧ write = w % v.capacity
  | .readingHeader _ read bytes =>
    read = used delivered % v.capacity ∧ ∃ p rest, pending = p :: rest ∧
      bytes.length ≤ PacketHeader.size ∧ bytes = p.header.toBytes.take bytes.length
  | .readingPayload _ read header bytes =>
    read = used delivered % v.capacity ∧ ∃ p rest, pending = p :: rest ∧ header = p.header ∧
      bytes.length ≤ p.payload.length ∧ bytes = p.payload.take bytes.length

/-- The invariant: `delivered` has been handed out, `pending` lies in the ring. -/
structure Inv (v : RingBufferView) (σ : Spsc) (delivered pending : List Packet) : Prop where
  accepted_eq : σ.accepted = delivered ++ pending
  popped_eq : σ.popped = delivered.map Packet.pair
  read_eq : σ.memory.control.readOffset = used delivered % v.capacity
  write_eq : σ.memory.control.writeOffset = (used delivered + used pending) % v.capacity
  pending_lt : used pending < v.capacity
  holds : Holds σ.memory.data v.capacity (used delivered) (stream pending)
  producer : ProducerInv v σ delivered pending
  consumer : ConsumerInv v σ delivered pending

/-- An owner's fresh ring satisfies the invariant. -/
theorem Inv.start {mem : RingMemory} (h : Represents v mem [])
    (hread : mem.control.readOffset = 0) : Inv v (start mem) [] [] where
  accepted_eq := rfl
  popped_eq := rfl
  read_eq := by simpa [Spsc.start] using hread
  write_eq := by simpa [Spsc.start, hread] using h.write_eq
  pending_lt := h.used_lt
  holds := holds_nil _ _ _
  producer := trivial
  consumer := trivial

/-- Every packet's copies add within a `u32`, wherever the packet begins. -/
theorem Inv.fits (h : Inv v σ delivered pending) (hcap : v.capacity ≤ 4294901761) (w : ℕ)
    (p : Packet) : v.Fits (w % v.capacity) p.payload.length := by
  have hlt := h.pending_lt
  exact RingBufferView.fits_of_capacity hcap (Nat.mod_lt _ (by omega)) p.fits

theorem Inv.writing (h : Inv v σ delivered pending) {p : Packet} {read write k : ℕ}
    (hp : σ.producer = .writing p read write k) :
    write = (used delivered + used pending) % v.capacity ∧
      used delivered + used pending + (PacketHeader.size + p.payload.length) <
        used delivered + v.capacity ∧ k ≤ p.size ∧
      Holds σ.memory.data v.capacity (used delivered + used pending) (p.toBytes.take k) := by
  have hinv := h.producer
  rw [ProducerInv, hp] at hinv
  exact hinv

theorem Inv.readingHeader (h : Inv v σ delivered pending) {write read : ℕ} {bytes : List UInt8}
    (hc : σ.consumer = .readingHeader write read bytes) :
    read = used delivered % v.capacity ∧ ∃ p rest, pending = p :: rest ∧
      bytes.length ≤ PacketHeader.size ∧ bytes = p.header.toBytes.take bytes.length := by
  have hinv := h.consumer
  rw [ConsumerInv, hc] at hinv
  exact hinv

theorem Inv.readingPayload (h : Inv v σ delivered pending) {write read : ℕ}
    {header : PacketHeader} {bytes : List UInt8}
    (hc : σ.consumer = .readingPayload write read header bytes) :
    read = used delivered % v.capacity ∧ ∃ p rest, pending = p :: rest ∧ header = p.header ∧
      bytes.length ≤ p.payload.length ∧ bytes = p.payload.take bytes.length := by
  have hinv := h.consumer
  rw [ConsumerInv, hc] at hinv
  exact hinv

/-! ### The producer's steps -/

theorem Inv.call (h : Inv v σ delivered pending) {id : UInt16} {data : List UInt8}
    (hstep : σ.call id data = some σ') : Inv v σ' delivered pending := by
  unfold Spsc.call at hstep
  split at hstep
  · split_ifs at hstep with hfits
    · obtain rfl := Option.some.inj hstep
      refine ⟨h.1, h.2, h.3, h.4, h.5, h.6, ?_, h.consumer⟩
      exact ⟨used delivered, le_rfl, h.read_eq, by have := h.pending_lt; omega⟩
    · obtain rfl := Option.some.inj hstep
      exact h
  · cases hstep

/-- The free-space test, made on a snapshot of `read_offset`, holds of the true one. -/
theorem Inv.room (h : Inv v σ delivered pending) (hcap : v.capacity < 4294967296) {p : Packet}
    {read : ℕ} (hp : σ.producer = .loadedRead p read)
    (htest : ¬ v.freeSpace read σ.memory.control.writeOffset ≤
      u32 (PacketHeader.size + u32 p.payload.length)) :
    used delivered + used pending + p.size < used delivered + v.capacity := by
  have hinv := h.producer
  rw [ProducerInv, hp] at hinv
  obtain ⟨r, hr, rfl, hlt⟩ := hinv
  -- The snapshot's counter `r` is behind, so the room seen from it is a lower bound.
  obtain ⟨d, hd⟩ : ∃ d, used delivered + used pending = r + d :=
    ⟨used delivered + used pending - r, by omega⟩
  have hfits := p.fits
  have htotal : u32 (PacketHeader.size + u32 p.payload.length) = p.size := by
    unfold u32 Packet.size PacketHeader.size
    omega
  rw [h.write_eq, hd, RingBufferView.freeSpace_mod hcap r (by omega), htotal] at htest
  omega

theorem Inv.produce (h : Inv v σ delivered pending) (hcap : v.capacity ≤ 4294901761)
    (hstep : σ.produce v = some σ') :
    Inv v σ' delivered pending ∨ ∃ p, Inv v σ' delivered (pending ++ [p]) := by
  unfold Spsc.produce at hstep
  split at hstep
  · cases hstep
  · next p read hp =>
    left
    simp only at hstep
    split_ifs at hstep with htest
    · obtain rfl := Option.some.inj hstep
      exact ⟨h.1, h.2, h.3, h.4, h.5, h.6, trivial, h.consumer⟩
    · obtain rfl := Option.some.inj hstep
      refine ⟨h.1, h.2, h.3, h.4, h.5, h.6, ?_, h.consumer⟩
      exact ⟨h.write_eq, h.room (by omega) hp htest, Nat.zero_le _, holds_nil _ _ _⟩
  · next p read write k hp =>
    obtain ⟨rfl, hroom, hk, hwritten⟩ := h.writing hp
    split at hstep
    · -- one more byte of the packet, outside the pending packets' window
      next byte hbyte =>
      left
      obtain rfl := Option.some.inj hstep
      have hlt : k < p.toBytes.length := (List.getElem?_eq_some_iff.mp hbyte).1
      have htake : (p.toBytes.take k).length = k := List.length_take_of_le hlt.le
      rw [Packet.toBytes_length, Packet.size] at hlt
      have hindex := RingBufferView.packetIndex_eq (by omega) (used delivered + used pending)
        (by omega) (h.fits hcap _ p) hlt
      refine ⟨h.1, h.2, h.3, h.4, h.5, ?_, ?_, h.consumer⟩
      · simp only [hindex]
        exact h.holds.update (by rw [stream_length]; omega) (by omega) byte
      · refine ⟨rfl, hroom, hlt, ?_⟩
        have := hwritten.update_snoc (by rw [htake]; omega) byte
        rw [htake] at this
        simp only [hindex]
        rwa [List.take_add_one, hbyte]
    · -- the store that publishes the packet
      next hnone =>
      right
      obtain rfl := Option.some.inj hstep
      rw [List.getElem?_eq_none_iff] at hnone
      rw [List.take_of_length_le hnone] at hwritten
      refine ⟨p, by simp [h.accepted_eq], h.2, h.3, ?_, ?_, ?_, trivial, ?_⟩
      · simp only [used_append, used_cons, used_nil, Packet.size]
        rw [Nat.mod_add_mod, Nat.add_assoc, Nat.mod_add_mod]
        simp only [Nat.add_assoc, Nat.add_zero]
      · rw [used_append, used_cons, used_nil, Packet.size]
        omega
      · rw [stream_append, stream_cons, stream_nil, List.append_nil, holds_append, stream_length]
        exact ⟨h.holds, hwritten⟩
      · have hcons := h.consumer
        unfold ConsumerInv at hcons ⊢
        simp only at hcons ⊢
        split at hcons
        · trivial
        · obtain ⟨w, hlo, hhi, rfl⟩ := hcons
          exact ⟨w, hlo, by rw [used_append]; omega, rfl⟩
        · obtain ⟨rfl, q, rest, rfl, hbytes⟩ := hcons
          exact ⟨rfl, q, rest ++ [p], rfl, hbytes⟩
        · obtain ⟨rfl, q, rest, rfl, hbytes⟩ := hcons
          exact ⟨rfl, q, rest ++ [p], rfl, hbytes⟩

/-! ### The consumer's steps -/

/-- The oldest pending packet's bytes are where its readers look for them. -/
theorem Inv.front_byte {p : Packet} {rest : List Packet} (h : Inv v σ delivered (p :: rest))
    {j : ℕ} {byte : UInt8} (hj : p.toBytes[j]? = some byte) :
    σ.memory.data ((used delivered + j) % v.capacity) = byte := by
  have hh := h.holds
  rw [stream_cons, holds_append] at hh
  exact hh.1 j byte hj

/-- Copying out the next byte extends the prefix copied so far. -/
theorem take_snoc {xs bytes : List UInt8} {byte : UInt8} (hbytes : bytes = xs.take bytes.length)
    (hbyte : xs[bytes.length]? = some byte) :
    bytes ++ [byte] = xs.take (bytes ++ [byte]).length := by
  rw [List.length_append, List.length_singleton, List.take_add_one, hbyte, ← hbytes]
  rfl

/-- The packet at the front, seen from a cut packet list: what the space bound says of its size. -/
theorem Inv.front_size {p : Packet} {rest : List Packet} (h : Inv v σ delivered (p :: rest)) :
    PacketHeader.size + p.payload.length + used rest < v.capacity := by
  have := h.pending_lt
  rwa [used_cons, Packet.size] at this

theorem Inv.consume_header (h : Inv v σ delivered pending) (hcap : v.capacity ≤ 4294901761)
    {write read : ℕ} {bytes : List UInt8}
    (hc : σ.consumer = .readingHeader write read bytes) :
    Inv v (σ.consume v outSize) delivered pending := by
  obtain ⟨rfl, p, rest, rfl, hle, hbytes⟩ := h.readingHeader hc
  have hsize := h.front_size
  unfold Spsc.consume
  simp only [hc]
  split_ifs with hlt hsmall
  · -- one more header byte
    refine ⟨h.1, h.2, h.3, h.4, h.5, h.6, h.producer, rfl, p, rest, rfl, ?_, ?_⟩
    · rw [List.length_append, List.length_singleton]
      omega
    · apply take_snoc hbytes
      have hlt' : bytes.length < p.header.toBytes.length := hlt
      rw [RingBufferView.headerIndex_eq (by omega) _ (by omega) (h.fits hcap _ p) hlt,
        List.getElem?_eq_getElem hlt']
      refine congrArg some (h.front_byte ?_).symm
      rw [Packet.toBytes, List.getElem?_append_left hlt', List.getElem?_eq_getElem hlt']
  · exact ⟨h.1, h.2, h.3, h.4, h.5, h.6, h.producer, trivial⟩
  · -- the header is complete
    have hheader : PacketHeader.ofBytes bytes = p.header := by
      rw [hbytes, show bytes.length = p.header.toBytes.length by
        rw [PacketHeader.toBytes_length]; omega, List.take_length, PacketHeader.ofBytes_toBytes]
    exact ⟨h.1, h.2, h.3, h.4, h.5, h.6, h.producer, rfl, p, rest, rfl, hheader, Nat.zero_le _, rfl⟩

theorem Inv.consume_payload (h : Inv v σ delivered pending) (hcap : v.capacity ≤ 4294901761)
    {write read : ℕ} {header : PacketHeader} {bytes : List UInt8}
    (hc : σ.consumer = .readingPayload write read header bytes) :
    Inv v (σ.consume v outSize) delivered pending ∨
      ∃ p rest, pending = p :: rest ∧ Inv v (σ.consume v outSize) (delivered ++ [p]) rest := by
  obtain ⟨rfl, p, rest, rfl, rfl, hle, hbytes⟩ := h.readingPayload hc
  have hsize := h.front_size
  unfold Spsc.consume
  simp only [hc, Packet.header_payloadSize]
  split_ifs with hlt
  · -- one more payload byte
    left
    refine ⟨h.1, h.2, h.3, h.4, h.5, h.6, h.producer, rfl, p, rest, rfl, rfl, ?_, ?_⟩
    · rw [List.length_append, List.length_singleton]
      omega
    · apply take_snoc hbytes
      rw [RingBufferView.payloadIndex_eq (by omega) _ (by omega) (h.fits hcap _ p) hlt,
        List.getElem?_eq_getElem hlt]
      refine congrArg some (h.front_byte ?_).symm
      rw [Packet.toBytes, List.getElem?_append_right (by rw [PacketHeader.toBytes_length]; omega),
        PacketHeader.toBytes_length, Nat.add_sub_cancel_left, List.getElem?_eq_getElem hlt]
  -- The producer's snapshot stays behind: the consumer's counter only grows.
  · -- the store that releases the packet
    right
    have hpayload : bytes = p.payload := by
      rw [hbytes, show bytes.length = p.payload.length by omega, List.take_length]
    refine ⟨p, rest, rfl, ?_, ?_, ?_, ?_, by omega, ?_, ?_, trivial⟩
    · simpa using h.accepted_eq
    · rw [List.map_append, ← h.popped_eq, hpayload]
      rfl
    · simp only [used_append, used_cons, used_nil, Packet.size]
      rw [Nat.add_assoc, Nat.mod_add_mod]
      rfl
    · have hw := h.write_eq
      simpa only [used_append, used_cons, used_nil, Nat.add_zero, Nat.add_assoc] using hw
    · have hh := h.holds
      rw [stream_cons, holds_append, Packet.toBytes_length] at hh
      simpa only [used_append, used_cons, used_nil, Nat.add_zero] using hh.2
    · have hp := h.producer
      unfold ProducerInv at hp ⊢
      have hsum : used (delivered ++ [p]) + used rest = used delivered + used (p :: rest) := by
        simp only [used_append, used_cons, used_nil]
        omega
      have hmono : used delivered ≤ used (delivered ++ [p]) := by
        rw [used_append]
        omega
      simp only [hsum] at hp ⊢
      split at hp
      · trivial
      · obtain ⟨r, hr, hread, hlt⟩ := hp
        exact ⟨r, by omega, hread, hlt⟩
      · obtain ⟨hwrite, hroom, hrest⟩ := hp
        exact ⟨hwrite, by omega, hrest⟩

theorem Inv.consume (h : Inv v σ delivered pending) (outSize : ℕ)
    (hcap : v.capacity ≤ 4294901761) :
    Inv v (σ.consume v outSize) delivered pending ∨
      ∃ p rest, pending = p :: rest ∧ Inv v (σ.consume v outSize) (delivered ++ [p]) rest := by
  cases hc : σ.consumer with
  | idle =>
    left
    unfold Spsc.consume
    simp only [hc]
    refine ⟨h.1, h.2, h.3, h.4, h.5, h.6, h.producer, ?_⟩
    exact ⟨_, Nat.le_add_right _ _, le_rfl, h.write_eq⟩
  | loadedWrite write =>
    left
    have hinv := h.consumer
    rw [ConsumerInv, hc] at hinv
    obtain ⟨w, hlo, hhi, rfl⟩ := hinv
    unfold Spsc.consume
    simp only [hc]
    split_ifs with hempty
    · exact ⟨h.1, h.2, h.3, h.4, h.5, h.6, h.producer, trivial⟩
    · -- the snapshot lies strictly ahead, so a packet is pending
      have hne : pending ≠ [] := by
        rintro rfl
        rw [used_nil, Nat.add_zero] at hhi
        exact hempty (by rw [h.read_eq, Nat.le_antisymm hlo hhi])
      obtain ⟨p, rest, rfl⟩ := List.exists_cons_of_ne_nil hne
      exact ⟨h.1, h.2, h.3, h.4, h.5, h.6, h.producer, h.read_eq, p, rest, rfl, Nat.zero_le _, rfl⟩
  | readingHeader write read bytes => exact Or.inl (h.consume_header hcap hc)
  | readingPayload write read header bytes => exact h.consume_payload hcap hc

/-! ### Runs -/

theorem Inv.step (h : Inv v σ delivered pending) (hcap : v.capacity ≤ 4294901761)
    (hstep : Step v outSize σ σ') : ∃ delivered' pending', Inv v σ' delivered' pending' := by
  cases hstep with
  | call id data hcall => exact ⟨_, _, h.call hcall⟩
  | produce hproduce =>
    rcases h.produce hcap hproduce with h' | ⟨p, h'⟩
    · exact ⟨_, _, h'⟩
    · exact ⟨_, _, h'⟩
  | consume =>
    rcases h.consume _ hcap with h' | ⟨p, rest, -, h'⟩
    · exact ⟨_, _, h'⟩
    · exact ⟨_, _, h'⟩

/-- The invariant holds along every interleaving. -/
theorem Inv.run (h : Inv v σ delivered pending) (hcap : v.capacity ≤ 4294901761)
    (hrun : Run v outSize σ σ') : ∃ delivered' pending', Inv v σ' delivered' pending' := by
  induction hrun with
  | refl => exact ⟨_, _, h⟩
  | tail _ hstep ih =>
    obtain ⟨_, _, h'⟩ := ih
    exact h'.step hcap hstep

/-! ### What the invariant says of the published region -/

theorem Inv.occupied_iff (h : Inv v σ delivered pending) (index : ℕ) :
    Occupied v σ index ↔
      ∃ i < used pending, index = (used delivered + i) % v.capacity := by
  unfold Occupied
  rw [h.read_eq, h.write_eq, add_mod_sub_mod _ h.pending_lt]
  simp only [Nat.mod_add_mod]

theorem call_frame {id : UInt16} {data : List UInt8} (hstep : σ.call id data = some σ') :
    σ'.memory = σ.memory ∧ σ'.popped = σ.popped := by
  unfold Spsc.call at hstep
  split at hstep
  · split_ifs at hstep <;> obtain rfl := Option.some.inj hstep <;> exact ⟨rfl, rfl⟩
  · cases hstep

theorem produce_popped (hstep : σ.produce v = some σ') : σ'.popped = σ.popped := by
  unfold Spsc.produce at hstep
  split at hstep
  · cases hstep
  · simp only at hstep
    split_ifs at hstep <;> obtain rfl := Option.some.inj hstep <;> rfl
  · split at hstep <;> obtain rfl := Option.some.inj hstep <;> rfl

theorem consume_data : (σ.consume v outSize).memory.data = σ.memory.data := by
  unfold Spsc.consume
  split <;> simp only <;> split_ifs <;> rfl

theorem consume_popped : σ.popped <+: (σ.consume v outSize).popped := by
  unfold Spsc.consume
  split
  · rfl
  · simp only
    split_ifs <;> rfl
  · simp only
    split_ifs <;> rfl
  · simp only
    split_ifs
    · rfl
    · exact List.prefix_append _ _

/-- A step leaves every published, unread byte alone. -/
theorem Inv.step_data (h : Inv v σ delivered pending) (hcap : v.capacity ≤ 4294901761)
    (hstep : Step v outSize σ σ') {index : ℕ} (hindex : Occupied v σ index) :
    σ'.memory.data index = σ.memory.data index := by
  obtain ⟨i, hi, rfl⟩ := (h.occupied_iff index).mp hindex
  cases hstep with
  | call id data hcall => rw [(call_frame hcall).1]
  | produce hproduce =>
    unfold Spsc.produce at hproduce
    split at hproduce
    · cases hproduce
    · simp only at hproduce
      split_ifs at hproduce <;> obtain rfl := Option.some.inj hproduce <;> rfl
    · next p read write k hp =>
      obtain ⟨rfl, hroom, -, -⟩ := h.writing hp
      split at hproduce
      · next byte hbyte =>
        obtain rfl := Option.some.inj hproduce
        have hlt := (List.getElem?_eq_some_iff.mp hbyte).1
        rw [Packet.toBytes_length, Packet.size] at hlt
        simp only [RingBufferView.packetIndex_eq (by omega) _ (show _ < v.capacity by omega)
          (h.fits hcap _ p) hlt]
        -- Both counters lie within one lap, so different counters are different addresses.
        exact Function.update_of_ne (mod_ne_mod_of_lt (by omega) (by omega)) _ _
      · obtain rfl := Option.some.inj hproduce
        rfl
  | consume => rw [consume_data]

/-- A step that hands nothing out takes no byte out of the published region. -/
theorem Inv.step_occupied (h : Inv v σ delivered pending) (hcap : v.capacity ≤ 4294901761)
    (hstep : Step v outSize σ σ') (hpopped : σ'.popped = σ.popped) {index : ℕ}
    (hindex : Occupied v σ index) : Occupied v σ' index := by
  obtain ⟨i, hi, rfl⟩ := (h.occupied_iff index).mp hindex
  cases hstep with
  | call id data hcall => exact ((h.call hcall).occupied_iff _).mpr ⟨i, hi, rfl⟩
  | produce hproduce =>
    rcases h.produce hcap hproduce with h' | ⟨p, h'⟩
    · exact (h'.occupied_iff _).mpr ⟨i, hi, rfl⟩
    · exact (h'.occupied_iff _).mpr ⟨i, by rw [used_append]; omega, rfl⟩
  | consume =>
    rcases h.consume outSize hcap with h' | ⟨p, rest, -, h'⟩
    · exact (h'.occupied_iff _).mpr ⟨i, hi, rfl⟩
    -- The store that releases the packet also hands it out.
    · exfalso
      have hlen := congrArg List.length hpopped
      rw [h'.popped_eq, h.popped_eq, List.length_map, List.length_map, List.length_append] at hlen
      simp at hlen

theorem step_popped (hstep : Step v outSize σ σ') : σ.popped <+: σ'.popped := by
  cases hstep with
  | call id data hcall => rw [(call_frame hcall).2]
  | produce hproduce => rw [produce_popped hproduce]
  | consume => exact consume_popped

theorem run_popped (hrun : Run v outSize σ σ') : σ.popped <+: σ'.popped := by
  induction hrun with
  | refl => rfl
  | tail _ hstep ih => exact ih.trans (step_popped hstep)

/-- Until the consumer's next store, no published byte is overwritten. -/
theorem Inv.run_data (h : Inv v σ delivered pending) (hcap : v.capacity ≤ 4294901761)
    (hrun : Run v outSize σ σ') (hpopped : σ'.popped = σ.popped) {index : ℕ}
    (hindex : Occupied v σ index) :
    Occupied v σ' index ∧ σ'.memory.data index = σ.memory.data index := by
  induction hrun with
  | refl => exact ⟨hindex, rfl⟩
  | @tail τ σ'' hτ hstep ih =>
    -- What has been handed out only grows, so it was the same in between.
    have hmid : τ.popped = σ.popped :=
      ((hpopped ▸ step_popped hstep).eq_of_length_le (run_popped hτ).length_le)
    obtain ⟨hocc, hdata⟩ := ih hmid
    obtain ⟨_, _, h'⟩ := h.run hcap hτ
    exact ⟨h'.step_occupied hcap hstep (hpopped.trans hmid.symm) hocc,
      (h'.step_data hcap hstep hocc).trans hdata⟩

/-! ### Uninterrupted calls

A side whose steps run without interference computes the source's `push` or `pop`. -/

theorem produce_store {p : Packet} {read write k : ℕ}
    (hp : σ.producer = .writing p read write k) (hk : p.size ≤ k) :
    σ.produce v = some { σ with
      memory.control.writeOffset :=
        ((write + PacketHeader.size) % v.capacity + p.payload.length) % v.capacity
      producer := .idle
      accepted := σ.accepted ++ [p] } := by
  simp only [Spsc.produce, hp, List.getElem?_eq_none (hk.trans' (Packet.toBytes_length p).le)]

/-- The remaining byte writes of a `push`, one after the other. -/
theorem writing_run (outSize : ℕ) (hcap : v.capacity < 4294967296) {p : Packet} {read write : ℕ}
    (hwrite : write < v.capacity) (hsize : p.size < v.capacity)
    (hfit : v.Fits write p.payload.length) (n : ℕ) {k : ℕ}
    (hn : k + n = p.size) (hp : σ.producer = .writing p read write k) :
    Run v outSize σ { σ with
      memory.data := fill σ.memory.data v.capacity (write + k) (p.toBytes.drop k)
      producer := .writing p read write p.size } := by
  -- On the number of bytes still to be written.
  induction n generalizing σ k with
  | zero =>
    obtain rfl : k = p.size := hn
    rw [List.drop_of_length_le (by rw [Packet.toBytes_length]), fill, ← hp]
  | succ n ih =>
    have hlt : k < p.toBytes.length := by rw [Packet.toBytes_length]; omega
    have hindex : v.packetIndex write p.payload.length k = (write + k) % v.capacity := by
      have := RingBufferView.packetIndex_eq hcap write (s := p.payload.length) (k := k) hsize
        (by rwa [Nat.mod_eq_of_lt hwrite])
        (by rw [Packet.toBytes_length, Packet.size] at hlt; exact hlt)
      rwa [Nat.mod_eq_of_lt hwrite] at this
    have hstep : σ.produce v = some { σ with
        memory.data := Function.update σ.memory.data ((write + k) % v.capacity) p.toBytes[k]
        producer := .writing p read write (k + 1) } := by
      simp only [Spsc.produce, hp, List.getElem?_eq_getElem hlt, hindex]
    refine Relation.ReflTransGen.head (Step.produce hstep) ?_
    have := ih (σ := { σ with
        memory.data := Function.update σ.memory.data ((write + k) % v.capacity) p.toBytes[k]
        producer := .writing p read write (k + 1) }) (k := k + 1) (by omega) rfl
    rwa [List.drop_eq_getElem_cons hlt, fill]

/-- An uninterrupted `push` leaves the memory that the source's `push` leaves. -/
theorem push_alone (hcap : v.capacity < 4294967296) {ps : List Packet}
    (h : Represents v σ.memory ps) (hidle : σ.producer = .idle) (id : UInt16)
    (data : List UInt8)
    (hfit : data.length ≤ 65535 → v.Fits σ.memory.control.writeOffset data.length) :
    ∃ σ', Run v outSize σ σ' ∧ σ'.producer = .idle ∧ σ'.consumer = σ.consumer ∧
      σ'.memory = (v.push id data σ.memory).2 := by
  unfold RingBufferView.push
  by_cases hfits : data.length ≤ 65535
  · rw [if_neg (by omega)]
    have hcall : σ.call id data = some { σ with
        producer := .loadedRead ⟨id, data, hfits⟩ σ.memory.control.readOffset } := by
      simp only [Spsc.call, hidle, hfits, dif_pos]
    by_cases hfull : v.freeSpace σ.memory.control.readOffset σ.memory.control.writeOffset ≤
        u32 (PacketHeader.size + u32 data.length)
    · refine ⟨{ σ with producer := .idle }, ?_, rfl, rfl, by simp only [hfull, if_true]⟩
      refine Relation.ReflTransGen.head (Step.call id data hcall) (.single (Step.produce ?_))
      simp only [Spsc.produce, hfull, if_true]
    · set p : Packet := ⟨id, data, hfits⟩ with hpdef
      have hfree := h.freeSpace_eq hcap
      have htotal : u32 (PacketHeader.size + u32 data.length) = p.size := by
        unfold u32 Packet.size PacketHeader.size
        show _ = 4 + data.length
        omega
      have hroom : used ps + p.size < v.capacity := by omega
      let entered : Producer :=
        .writing p σ.memory.control.readOffset σ.memory.control.writeOffset 0
      have hload : ({ σ with producer := .loadedRead p σ.memory.control.readOffset }).produce v =
          some { σ with producer := entered } := by
        simp only [Spsc.produce]
        rw [if_neg hfull]
      have hwriting := writing_run outSize hcap h.write_lt (by omega) (hfit hfits) p.size
        (σ := { σ with producer := entered }) (Nat.zero_add _) rfl
      have hwritten := h.write_packet hcap p (hfit hfits) hroom
      refine ⟨_, (Relation.ReflTransGen.head (Step.call id data hcall) (.head (Step.produce hload)
        hwriting)).tail (Step.produce (produce_store rfl le_rfl)), rfl, rfl, ?_⟩
      simp only [hfull, if_false]
      rw [Nat.add_zero, List.drop_zero, ← hwritten]
      rfl
  · rw [if_pos (by omega)]
    exact ⟨σ, .refl, hidle, rfl, rfl⟩

theorem consume_step (v : RingBufferView) (outSize : ℕ) (σ : Spsc) :
    Step v outSize σ (σ.consume v outSize) :=
  .consume

/-- The state with the consumer moved to `c`. -/
abbrev withConsumer (σ : Spsc) (c : Consumer) : Spsc := { σ with consumer := c }

/-- The remaining byte reads of a header, one after the other. -/
theorem readingHeader_run (outSize : ℕ) {write read : ℕ} (n : ℕ) (bytes : List UInt8)
    (hn : bytes.length + n = PacketHeader.size)
    (hc : σ.consumer = .readingHeader write read bytes) :
    Run v outSize σ (σ.withConsumer (.readingHeader write read
      (bytes ++ (List.range' bytes.length n).map fun j =>
        σ.memory.data (v.wrappedIndex read PacketHeader.size j)))) := by
  induction n generalizing σ bytes with
  | zero => rw [List.range'_zero, List.map_nil, List.append_nil, ← hc]
  | succ n ih =>
    have hlt : bytes.length < PacketHeader.size := by omega
    have hstep := consume_step v outSize σ
    simp only [Spsc.consume, hc, hlt, if_true] at hstep
    refine Relation.ReflTransGen.head hstep ?_
    have := ih _ (by rw [List.length_append, List.length_singleton]; omega)
      (σ := σ.withConsumer (.readingHeader write read
        (bytes ++ [σ.memory.data (v.wrappedIndex read PacketHeader.size bytes.length)]))) rfl
    rwa [List.length_append, List.length_singleton, List.append_assoc,
      List.singleton_append] at this

/-- The remaining byte reads of a payload, one after the other. -/
theorem readingPayload_run (outSize : ℕ) {write read : ℕ} {header : PacketHeader} (n : ℕ)
    (bytes : List UInt8)
    (hn : bytes.length + n = header.payloadSize.toNat)
    (hc : σ.consumer = .readingPayload write read header bytes) :
    Run v outSize σ (σ.withConsumer (.readingPayload write read header
      (bytes ++ (List.range' bytes.length n).map fun j =>
        σ.memory.data (v.wrappedIndex ((read + PacketHeader.size) % v.capacity)
          header.payloadSize.toNat j)))) := by
  induction n generalizing σ bytes with
  | zero => rw [List.range'_zero, List.map_nil, List.append_nil, ← hc]
  | succ n ih =>
    have hlt : bytes.length < header.payloadSize.toNat := by omega
    have hstep := consume_step v outSize σ
    simp only [Spsc.consume, hc, hlt, if_true] at hstep
    refine Relation.ReflTransGen.head hstep ?_
    have := ih _ (by rw [List.length_append, List.length_singleton]; omega)
      (σ := σ.withConsumer (.readingPayload write read header (bytes ++
        [σ.memory.data (v.wrappedIndex ((read + PacketHeader.size) % v.capacity)
          header.payloadSize.toNat bytes.length)]))) rfl
    rwa [List.length_append, List.length_singleton, List.append_assoc,
      List.singleton_append] at this

/-- The reads of an uninterrupted `pop` up to its check of the size. -/
theorem header_run (hcap : v.capacity < 4294967296) {p : Packet} {rest : List Packet}
    (h : Represents v σ.memory (p :: rest)) (hidle : σ.consumer = .idle)
    (hfit : v.Fits σ.memory.control.readOffset p.payload.length) (outSize : ℕ) :
    Run v outSize σ (σ.withConsumer (if outSize < p.payload.length then .idle
      else .readingPayload σ.memory.control.writeOffset σ.memory.control.readOffset p.header
        [])) := by
  have hu := h.used_lt
  rw [used_cons, Packet.size] at hu
  have hne : σ.memory.control.readOffset ≠ σ.memory.control.writeOffset := by
    rw [Ne, h.read_eq_write_iff]
    simp
  have hload := consume_step v outSize σ
  rw [Spsc.consume, hidle] at hload
  have hopen := consume_step v outSize
    (σ.withConsumer (.loadedWrite σ.memory.control.writeOffset))
  simp only [Spsc.consume, hne, if_false] at hopen
  have hheader := readingHeader_run (v := v) outSize PacketHeader.size []
    (σ := σ.withConsumer (.readingHeader σ.memory.control.writeOffset
      σ.memory.control.readOffset [])) (Nat.zero_add _) rfl
  simp only [List.length_nil, List.nil_append,
    RingBufferView.readWrapped_eq_map hcap _ h.read_lt (by omega : PacketHeader.size ≤ _)
      hfit.header] at hheader
  have hcheck := consume_step v outSize
    (σ.withConsumer (.readingHeader σ.memory.control.writeOffset
      σ.memory.control.readOffset
      (v.readWrapped σ.memory.control.readOffset PacketHeader.size σ.memory.data)))
  have hlength : ¬ (v.readWrapped σ.memory.control.readOffset PacketHeader.size
      σ.memory.data).length < PacketHeader.size := by
    rw [RingBufferView.readWrapped_eq_window hcap h.read_lt (by omega) hfit.header,
      window_length]
    omega
  simp only [Spsc.consume, hlength, if_false, h.read_header hcap hfit,
    Packet.header_payloadSize] at hcheck
  refine .head hload (.head hopen (hheader.tail ?_))
  by_cases hb : outSize < p.payload.length
  · rwa [if_pos hb] at hcheck ⊢
  · rwa [if_neg hb] at hcheck ⊢

/-- The reads of an uninterrupted `pop` from there on, and its store. -/
theorem payload_run (hcap : v.capacity < 4294967296) {p : Packet} {rest : List Packet}
    (h : Represents v σ.memory (p :: rest))
    (hfit : v.Fits σ.memory.control.readOffset p.payload.length) (outSize : ℕ) :
    Run v outSize
      (σ.withConsumer (.readingPayload σ.memory.control.writeOffset
        σ.memory.control.readOffset p.header []))
      { σ with
        memory := Represents.afterPop v σ.memory p
        consumer := .idle
        popped := σ.popped ++ [(p.id, p.payload)] } := by
  have hu := h.used_lt
  rw [used_cons, Packet.size] at hu
  have hpayload := readingPayload_run (v := v) outSize p.payload.length []
    (σ := σ.withConsumer (.readingPayload σ.memory.control.writeOffset
      σ.memory.control.readOffset p.header [])) (by simp) rfl
  simp only [List.length_nil, List.nil_append, Packet.header_payloadSize,
    RingBufferView.readWrapped_eq_map hcap _ (Nat.mod_lt _ (by omega))
      (by omega : p.payload.length ≤ v.capacity) hfit.payload, h.read_payload hcap hfit]
    at hpayload
  have hstore := consume_step v outSize
    (σ.withConsumer (.readingPayload σ.memory.control.writeOffset
      σ.memory.control.readOffset p.header p.payload))
  simp only [Spsc.consume, Packet.header_payloadSize, Nat.lt_irrefl, if_false] at hstore
  rw [Represents.afterPop, Packet.size, ← Nat.add_assoc]
  exact hpayload.tail hstore

/-- An uninterrupted `pop` leaves the memory that the source's `pop` leaves, and hands out the
packet that it hands out. -/
theorem pop_alone (hcap : v.capacity < 4294967296) {ps : List Packet}
    (h : Represents v σ.memory ps) (hidle : σ.consumer = .idle)
    (hfit : ∀ p rest, ps = p :: rest → v.Fits σ.memory.control.readOffset p.payload.length)
    (header : PacketHeader) (buffer : List UInt8) :
    ∃ σ', Run v buffer.length σ σ' ∧ σ'.consumer = .idle ∧ σ'.producer = σ.producer ∧
      σ'.memory = (v.pop header buffer σ.memory).memory ∧
      σ'.popped = σ.popped ++
        match (v.pop header buffer σ.memory).result with
        | .ok (some n) => [((v.pop header buffer σ.memory).header.id,
            (v.pop header buffer σ.memory).buffer.take n)]
        | _ => [] := by
  cases ps with
  | nil =>
    rw [h.pop_nil]
    have hload := consume_step v buffer.length σ
    rw [Spsc.consume, hidle] at hload
    have hempty := consume_step v buffer.length
      (σ.withConsumer (.loadedWrite σ.memory.control.writeOffset))
    simp only [Spsc.consume, h.read_eq_write_iff.mpr rfl, if_true] at hempty
    exact ⟨σ.withConsumer .idle, .head hload (.single hempty), rfl, rfl, rfl, by simp⟩
  | cons p rest =>
    have hfit := hfit p rest rfl
    have hfront := header_run hcap h hidle hfit buffer.length
    by_cases hb : buffer.length < p.payload.length
    · rw [if_pos hb] at hfront
      rw [h.pop_small hcap hfit header hb]
      exact ⟨_, hfront, rfl, rfl, rfl, by simp⟩
    · rw [if_neg hb] at hfront
      rw [h.pop_cons hcap hfit header (by omega)]
      refine ⟨_, hfront.trans (payload_run hcap h hfit buffer.length), rfl, rfl, rfl, ?_⟩
      simp [Packet.header]

/-! ### Safety -/

/-- The addresses a consumer in mid-`pop` reads. -/
def Reads (v : RingBufferView) (σ : Spsc) (index : ℕ) : Prop :=
  match σ.consumer with
  | .idle => False
  | .loadedWrite _ => False
  | .readingHeader _ read _ =>
    ∃ j < PacketHeader.size, index = v.wrappedIndex read PacketHeader.size j
  | .readingPayload _ read header _ =>
    (∃ j < PacketHeader.size, index = v.wrappedIndex read PacketHeader.size j) ∨
      ∃ j < header.payloadSize.toNat, index =
        v.wrappedIndex ((read + PacketHeader.size) % v.capacity) header.payloadSize.toNat j

/-- The addresses a producer in mid-`push` writes. -/
def Writes (v : RingBufferView) (σ : Spsc) (index : ℕ) : Prop :=
  match σ.producer with
  | .writing p _ write _ => ∃ k < p.size, index = v.packetIndex write p.payload.length k
  | _ => False

/-- What is read lies in the published region. -/
theorem Inv.occupied_of_reads (h : Inv v σ delivered pending) (hcap : v.capacity ≤ 4294901761)
    {index : ℕ} (hindex : Reads v σ index) : Occupied v σ index := by
  rw [h.occupied_iff]
  unfold Reads at hindex
  split at hindex
  · exact hindex.elim
  · exact hindex.elim
  · next _ read bytes hc =>
    obtain ⟨rfl, p, rest, rfl, -⟩ := h.readingHeader hc
    obtain ⟨j, hj, rfl⟩ := hindex
    have hsize := h.front_size
    rw [RingBufferView.headerIndex_eq (by omega) _ (by omega) (h.fits hcap _ p) hj]
    exact ⟨j, by rw [used_cons, Packet.size]; omega, rfl⟩
  · next _ read header bytes hc =>
    obtain ⟨rfl, p, rest, rfl, rfl, -⟩ := h.readingPayload hc
    have hsize := h.front_size
    have hfit := h.fits hcap (used delivered) p
    rw [Packet.header_payloadSize] at hindex
    rcases hindex with ⟨j, hj, rfl⟩ | ⟨j, hj, rfl⟩
    · rw [RingBufferView.headerIndex_eq (by omega) _ (by omega) hfit hj]
      exact ⟨j, by rw [used_cons, Packet.size]; omega, rfl⟩
    · rw [RingBufferView.payloadIndex_eq (by omega) _ (by omega) hfit hj]
      exact ⟨PacketHeader.size + j, by rw [used_cons, Packet.size]; omega, rfl⟩

/-- What is written does not. -/
theorem Inv.not_occupied_of_writes (h : Inv v σ delivered pending) (hcap : v.capacity ≤ 4294901761)
    {index : ℕ} (hindex : Writes v σ index) : ¬ Occupied v σ index := by
  rw [h.occupied_iff]
  unfold Writes at hindex
  split at hindex
  · next p read write k hp =>
    obtain ⟨rfl, hroom, -, -⟩ := h.writing hp
    obtain ⟨j, hj, rfl⟩ := hindex
    rw [Packet.size] at hj
    rintro ⟨i, hi, heq⟩
    rw [RingBufferView.packetIndex_eq (by omega) _ (by omega) (h.fits hcap _ p) hj] at heq
    exact mod_ne_mod_of_lt (by omega) (by omega) heq.symm
  · exact hindex.elim

end Spsc

open Spsc in
/-- **Safety of one producer and one consumer**, in every state of every interleaving from a fresh
ring of `c` bytes and whatever the size of the consumer's buffer: what the producer writes lies
outside the published region, what the consumer reads lies inside it and keeps its content until the
consumer's store, and the packets handed out are a prefix of those accepted. -/
theorem spsc_safe {c : ℕ} (hc : 1 ≤ c) (hc' : c < 2147483648) (cb data outSize : ℕ)
    (mem : RingMemory) (σ : Spsc)
    (hrun : Run (RingBufferView.construct cb data c true mem).1 outSize
      (start (RingBufferView.construct cb data c true mem).2) σ) :
    let v := (RingBufferView.construct cb data c true mem).1
    (∀ index, Writes v σ index → ¬ Occupied v σ index) ∧
      (∀ index, Reads v σ index → ¬ Writes v σ index ∧
        ∀ σ', Run v outSize σ σ' → σ'.popped = σ.popped →
          σ'.memory.data index = σ.memory.data index) ∧
      σ.popped <+: σ.accepted.map Packet.pair := by
  intro v
  have hcap : v.capacity = c := u32_of_lt (by omega)
  have hlt : v.capacity ≤ 4294901761 := by omega
  have h₀ : Inv v (start (RingBufferView.construct cb data c true mem).2) [] [] :=
    Inv.start (Represents.construct cb data hc (by omega) mem) rfl
  obtain ⟨delivered, pending, h⟩ := h₀.run hlt hrun
  refine ⟨fun index hw => h.not_occupied_of_writes hlt hw, fun index hr => ?_, ?_⟩
  · have hocc := h.occupied_of_reads hlt hr
    exact ⟨fun hw => h.not_occupied_of_writes hlt hw hocc,
      fun σ' hrun' hpopped => (h.run_data hlt hrun' hpopped hocc).2⟩
  · rw [h.popped_eq, h.accepted_eq, List.map_append]
    exact List.prefix_append _ _

namespace Spsc

theorem run_move {v : RingBufferView} {outSize : ℕ} {moves : List Move} {σ σ' : Spsc}
    (hrun : EventRun.run (move v outSize) σ moves = some σ') : Run v outSize σ σ' := by
  apply EventRun.invariant (I := Run v outSize σ) _ hrun .refl
  intro σ₁ event σ₂ h hstep
  cases event with
  | call id data => exact h.tail (.call id data hstep)
  | produce => exact h.tail (.produce hstep)
  | consume =>
    obtain rfl := Option.some.inj hstep
    exact h.tail .consume

/-- One packet goes through; the consumer has all but the last byte of a second one, while the
producer has written two bytes of a third. -/
def overlapping : List Move :=
  .call 7 [1, 2, 3, 4, 5] :: List.replicate 11 .produce ++ List.replicate 13 .consume ++
    .call 8 [6, 7, 8, 9] :: List.replicate 10 .produce ++ List.replicate 7 .consume ++
    .call 9 [10, 11] :: List.replicate 2 .produce ++ List.replicate 3 .consume ++ [.produce]

end Spsc

open Spsc in
/-- A ring of sixteen bytes, with both sides in the middle of a call; the second packet wraps. -/
theorem spsc_safe_sixteen :
    let created := RingBufferView.construct 0 128 16 true ⟨⟨0, 0, 0⟩, fun _ => 0⟩
    ∃ σ, EventRun.run (move created.1 65536) (start created.2) overlapping = some σ ∧
      σ.producer = .writing ⟨9, [10, 11], by decide⟩ 9 1 2 ∧
      σ.consumer = .readingPayload 1 9 ⟨8, 4⟩ [6, 7, 8] ∧ σ.popped = [(7, [1, 2, 3, 4, 5])] ∧
      (∀ index, Writes created.1 σ index → ¬ Occupied created.1 σ index) ∧
      (∀ index, Reads created.1 σ index → ¬ Writes created.1 σ index ∧
        ∀ σ', Run created.1 65536 σ σ' → σ'.popped = σ.popped →
          σ'.memory.data index = σ.memory.data index) ∧
      σ.popped <+: σ.accepted.map Packet.pair := by
  intro created
  have hends : (EventRun.run (move created.1 65536) (start created.2) overlapping).map
      (fun σ => (σ.producer, σ.consumer, σ.popped)) =
        some (.writing ⟨9, [10, 11], by decide⟩ 9 1 2, .readingPayload 1 9 ⟨8, 4⟩ [6, 7, 8],
          [(7, [1, 2, 3, 4, 5])]) := by
    decide +kernel
  obtain ⟨σ, hrun, hσ⟩ := Option.map_eq_some_iff.mp hends
  obtain ⟨hproducer, hrest⟩ := Prod.mk.inj hσ
  obtain ⟨hconsumer, hpopped⟩ := Prod.mk.inj hrest
  exact ⟨σ, hrun, hproducer, hconsumer, hpopped,
    spsc_safe (by decide) (by decide) 0 128 65536 _ σ (run_move hrun)⟩

end IACore
