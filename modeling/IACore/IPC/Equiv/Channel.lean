import IACore.IPC.Channel
import IACore.IPC.Equiv.SpawnNode
import IACore.Library.ExceptState
import IACore.RingBuffer.Equiv.Offsets

/-!
# Safety of the channel

The layout survives in the block (`load_store`), so whenever the node connects it makes the views
that the manager made (`Inv.connect`).  The two rings do not overlap, and a step on a ring keeps to
the ring as long as the ring's own invariant holds (`Spsc.Inv.step_sameFrom`), which in turn a step
on the other ring does not disturb (`Spsc.Inv.congr`).  So both rings keep their invariants in every
interleaving of the two sides (`Inv.run`), and the channel is safe (`channel_safe`).
-/

namespace IACore

/-! ### `std::memcpy` and its surroundings -/

section

variable {mem mem' : ℕ → UInt8} {dst src n k : ℕ} {data : List UInt8}

theorem memcpyTo_of_not_mem (h : k < dst ∨ dst + data.length ≤ k) :
    memcpyTo mem dst data k = mem k := by
  unfold memcpyTo
  split_ifs with hle
  · rw [List.getElem?_eq_none (by omega), Option.getD_none]
  · rfl

theorem memcpyFrom_congr (h : ∀ k, src ≤ k → k < src + n → mem k = mem' k) :
    memcpyFrom mem src n = memcpyFrom mem' src n := by
  unfold memcpyFrom
  rw [List.map_inj_left]
  intro i hi
  have hlt := List.mem_range.mp hi
  exact h _ (by omega) (by omega)

theorem memcpyFrom_memcpyTo_of_disjoint (h : src + n ≤ dst ∨ dst + data.length ≤ src) :
    memcpyFrom (memcpyTo mem dst data) src n = memcpyFrom mem src n := by
  apply memcpyFrom_congr
  intro k hle hlt
  exact memcpyTo_of_not_mem (by omega)

theorem memcpyFrom_memcpyTo_self :
    memcpyFrom (memcpyTo mem dst data) dst data.length = data := by
  apply List.ext_getElem
  · rw [memcpyFrom, List.length_map, List.length_range]
  · intro i hi hi'
    simp [memcpyFrom, memcpyTo, List.getElem?_eq_getElem hi']

end

namespace IpcSharedMemoryLayout

/-! ### The layout in memory -/

/-- The fields `f` and `g` do not overlap. -/
def Disjoint (f g : ℕ × ℕ × ℕ) : Prop := f.1 + f.2.1 ≤ g.1 ∨ g.1 + g.2.1 ≤ f.1

instance (f g : ℕ × ℕ × ℕ) : Decidable (Disjoint f g) := inferInstanceAs (Decidable (_ ∨ _))

/-- The assignments of `store`. -/
def storeFields (fields : List (ℕ × ℕ × ℕ)) (bytes : ℕ → UInt8) : ℕ → UInt8 :=
  fields.foldl
    (fun bytes (offset, size, value) => memcpyTo bytes offset (LittleEndian.toBytes size value))
    bytes

theorem loadField_storeFields_of_disjoint {f : ℕ × ℕ × ℕ} (fields : List (ℕ × ℕ × ℕ))
    (h : ∀ g ∈ fields, Disjoint f g) (bytes : ℕ → UInt8) :
    loadField (storeFields fields bytes) f.1 f.2.1 = loadField bytes f.1 f.2.1 := by
  induction fields generalizing bytes with
  | nil => rfl
  | cons g fields ih =>
    have hg := h g List.mem_cons_self
    show loadField (storeFields fields (memcpyTo bytes g.1 _)) f.1 f.2.1 = _
    rw [ih fun g' hg' => h g' (List.mem_cons_of_mem _ hg')]
    unfold loadField
    rw [memcpyFrom_memcpyTo_of_disjoint]
    rwa [LittleEndian.toBytes_length]

/-- A field that does not overlap with the others is read back. -/
theorem loadField_storeFields {fields : List (ℕ × ℕ × ℕ)} (hdisjoint : fields.Pairwise Disjoint)
    {offset size value : ℕ} (hmem : (offset, size, value) ∈ fields) (hvalue : value < 256 ^ size)
    (bytes : ℕ → UInt8) : loadField (storeFields fields bytes) offset size = value := by
  induction fields generalizing bytes with
  | nil => cases hmem
  | cons g fields ih =>
    rw [List.pairwise_cons] at hdisjoint
    rcases List.mem_cons.mp hmem with rfl | hmem
    · show loadField (storeFields fields (memcpyTo bytes offset _)) offset size = value
      rw [loadField_storeFields_of_disjoint (f := (offset, size, value)) fields hdisjoint.1]
      unfold loadField
      have hself : memcpyFrom (memcpyTo bytes offset (LittleEndian.toBytes size value)) offset
          (LittleEndian.toBytes size value).length = LittleEndian.toBytes size value :=
        memcpyFrom_memcpyTo_self
      rw [LittleEndian.toBytes_length] at hself
      rw [hself, LittleEndian.ofBytes_toBytes hvalue]
    · exact ih hdisjoint.2 hmem _

theorem fields_pairwise (layout : IpcSharedMemoryLayout) : layout.fields.Pairwise Disjoint := by
  simp [fields, Disjoint]

/-- The layout is read back from where it was written. -/
theorem load_store {layout : IpcSharedMemoryLayout} (bytes : ℕ → UInt8)
    (h : ∀ f ∈ layout.fields, f.2.2 < 256 ^ f.2.1) : load (layout.store bytes) = layout := by
  have hfield : ∀ f ∈ layout.fields, loadField (layout.store bytes) f.1 f.2.1 = f.2.2 := by
    intro f hf
    exact loadField_storeFields layout.fields_pairwise hf (h f hf) bytes
  simp only [fields, List.forall_mem_cons, List.not_mem_nil, false_imp_iff, implies_true,
    and_true] at hfield
  obtain ⟨hmagic, hversion, htotal, hmoniOffset, hmoniSize, hminoOffset, hminoSize⟩ := hfield
  rw [load, hmagic, hversion, htotal, hmoniOffset, hmoniSize, hminoOffset, hminoSize]

/-- The layout lies in the header. -/
theorem load_congr {bytes bytes' : ℕ → UInt8} (h : ∀ k < getHeaderSize, bytes k = bytes' k) :
    load bytes = load bytes' := by
  have hheader : getHeaderSize = 384 := rfl
  have hfield : ∀ {offset size : ℕ}, offset + size ≤ 384 →
      loadField bytes offset size = loadField bytes' offset size := by
    intro offset size hle
    rw [loadField, loadField, memcpyFrom_congr]
    intro k _ hlt
    exact h k (by omega)
  simp only [load]
  rw [hfield (by decide), hfield (by decide), hfield (by decide), hfield (by decide),
    hfield (by decide), hfield (by decide), hfield (by decide)]

end IpcSharedMemoryLayout

/-! ### A step and the ring's own bytes -/

namespace Spsc

open CyclicMemory

variable {v : RingBufferView} {outSize : ℕ} {σ σ' : Spsc} {delivered pending : List Packet}

/-- A step writes below the capacity only. -/
theorem Inv.step_sameFrom (h : Inv v σ delivered pending) (hcap : v.capacity ≤ 4294901761)
    (hstep : Step v outSize σ σ') :
    Segment.SameFrom v.capacity σ.memory.data σ'.memory.data := by
  intro index hindex
  cases hstep with
  | call id data hcall => rw [(call_frame hcall).1]
  | produce hproduce =>
    unfold Spsc.produce at hproduce
    split at hproduce
    · cases hproduce
    · simp only at hproduce
      split_ifs at hproduce <;> obtain rfl := Option.some.inj hproduce <;> rfl
    · next p read write k hp =>
      obtain ⟨rfl, hroom, -, -⟩ := h.writing hp
      split at hproduce
      · next byte hbyte =>
        obtain rfl := Option.some.inj hproduce
        have hlt := (List.getElem?_eq_some_iff.mp hbyte).1
        rw [Packet.toBytes_length, Packet.size] at hlt
        have hwritten := RingBufferView.packetIndex_eq (by omega)
          (used delivered + used pending) (show _ < v.capacity by omega) (h.fits hcap _ p) hlt
        simp only [hwritten]
        have hbelow : (used delivered + used pending + k) % v.capacity < v.capacity :=
          Nat.mod_lt _ (by omega)
        exact Function.update_of_ne (by omega) _ _
      · obtain rfl := Option.some.inj hproduce
        rfl
  | consume => rw [consume_data]

/-- The invariant is about the bytes below the capacity only. -/
theorem Inv.congr (h : Inv v σ delivered pending) {data : ℕ → UInt8}
    (hdata : ∀ i < v.capacity, data i = σ.memory.data i) :
    Inv v { σ with memory.data := data } delivered pending := by
  have hpos : 0 < v.capacity := Nat.zero_lt_of_lt h.pending_lt
  have hholds : ∀ {o : ℕ} {xs : List UInt8}, Holds σ.memory.data v.capacity o xs →
      Holds data v.capacity o xs := by
    intro o xs hxs i x hx
    rw [hdata _ (Nat.mod_lt _ hpos)]
    exact hxs i x hx
  obtain ⟨haccepted, hpopped, hread, hwrite, hlt, hbytes, hproducer, hconsumer⟩ := h
  refine ⟨haccepted, hpopped, hread, hwrite, hlt, hholds hbytes, ?_, hconsumer⟩
  unfold ProducerInv at hproducer ⊢
  split at hproducer
  · next hidle => simp only [hidle]
  · next hloaded =>
    simp only [hloaded]
    exact hproducer
  · next hwriting =>
    simp only [hwriting]
    obtain ⟨hw, hroom, hk, hpacket⟩ := hproducer
    exact ⟨hw, hroom, hk, hholds hpacket⟩

theorem Inv.lt_of_reads (h : Inv v σ delivered pending) (hcap : v.capacity ≤ 4294901761)
    {index : ℕ} (hindex : Reads v σ index) : index < v.capacity := by
  obtain ⟨i, -, rfl⟩ := h.occupied_of_reads hcap hindex
  have hlt := h.pending_lt
  exact Nat.mod_lt _ (by omega)

theorem Inv.lt_of_writes (h : Inv v σ delivered pending) (hcap : v.capacity ≤ 4294901761)
    {index : ℕ} (hindex : Writes v σ index) : index < v.capacity := by
  unfold Writes at hindex
  split at hindex
  · next p read write k hp =>
    obtain ⟨rfl, hroom, -, -⟩ := h.writing hp
    obtain ⟨j, hj, rfl⟩ := hindex
    rw [Packet.size] at hj
    rw [RingBufferView.packetIndex_eq (by omega) _ (by omega) (h.fits hcap _ p) hj]
    exact Nat.mod_lt _ (by omega)
  · exact hindex.elim

end Spsc

namespace Channel

/-! ### Safety -/

/-- The addresses that a party in mid-`push` writes. -/
def Writes (σ : Channel) (party : Party) (address : ℕ) : Prop :=
  ∃ layout views, σ.views party = some (layout, views) ∧
    ∃ index, address = party.sends.dataOffset layout + index ∧
      Spsc.Writes (views party.sends) (σ.ring party.sends (party.sends.dataOffset layout)) index

/-- The addresses that a party in mid-`pop` reads. -/
def Reads (σ : Channel) (party : Party) (address : ℕ) : Prop :=
  ∃ layout views, σ.views party = some (layout, views) ∧
    ∃ index, address = party.receives.dataOffset layout + index ∧
      Spsc.Reads (views party.receives) (σ.ring party.receives (party.receives.dataOffset layout))
        index

/-- The view that both sides make of a ring. -/
def view (layout : IpcSharedMemoryLayout) (r : Ring) : RingBufferView :=
  ⟨some (r.dataOffset layout), u32 (r.dataSize layout), some r.controlOffset⟩

theorem create_eq_ok {r : Ring} {layout : IpcSharedMemoryLayout} {isOwner : Bool}
    {mem mem' : RingMemory} {v : RingBufferView}
    (h : r.create layout isOwner mem = .ok (v, mem')) :
    r.dataSize layout ≠ 0 ∧ v = view layout r ∧
      (isOwner = true → mem'.control = ⟨0, 0, u32 (r.dataSize layout)⟩) := by
  unfold Ring.create RingBufferView.create at h
  dsimp only at h
  split_ifs at h with hzero
  obtain ⟨rfl, rfl⟩ := Prod.mk.inj (Except.ok.inj h)
  refine ⟨hzero, rfl, ?_⟩
  rintro rfl
  rfl

theorem connect_eq_ok {σ σ' : Channel} (h : σ.connect = .ok σ') :
    ∃ views, (∀ r, views r = view (.load σ.block.bytes) r) ∧
      σ' = { σ with views :=
        Function.update σ.views .node (some (.load σ.block.bytes, views)) } := by
  unfold connect at h
  dsimp only at h
  split_ifs at h
  · cases h
  · cases h
  · cases h
  · obtain ⟨⟨moni, moniMemory⟩, hmoni, h⟩ := ExceptState.bind_eq_ok.mp h
    obtain ⟨⟨mino, minoMemory⟩, hmino, h⟩ := ExceptState.bind_eq_ok.mp h
    obtain ⟨-, hmoniView, -⟩ := create_eq_ok hmoni
    obtain ⟨-, hminoView, -⟩ := create_eq_ok hmino
    obtain rfl := Except.ok.inj h
    refine ⟨_, ?_, rfl⟩
    rintro (_ | _)
    · exact hmoniView
    · exact hminoView

/-! ### The invariant -/

/-- Both sides have the views of the same layout, the block is as it was but for the two rings, and
both rings are sound. -/
structure Inv (layout : IpcSharedMemoryLayout) (bytes : ℕ → UInt8) (σ : Channel) : Prop where
  views : ∀ party layout' views, σ.views party = some (layout', views) →
    layout' = layout ∧ ∀ r, views r = view layout r
  frame : ∀ address, address < layout.moniDataOffset ∨
    layout.minoDataOffset + layout.minoDataSize ≤ address →
      σ.block.bytes address = layout.store bytes address
  ring : ∀ r : Ring, ∃ delivered pending,
    Spsc.Inv (view layout r) (σ.ring r (r.dataOffset layout)) delivered pending

/-- The rings lie behind the header, one behind the other, their sizes are capacities, and every
field of the layout has its number of bytes. -/
structure Apart (layout : IpcSharedMemoryLayout) : Prop where
  header : IpcSharedMemoryLayout.getHeaderSize ≤ layout.moniDataOffset
  moni : layout.moniDataOffset + layout.moniDataSize ≤ layout.minoDataOffset
  capacity : ∀ r : Ring, r.dataSize layout ≤ 4294901761
  fields : ∀ f ∈ layout.fields, f.2.2 < 256 ^ f.2.1

theorem Apart.capacity_eq {layout : IpcSharedMemoryLayout} (h : Apart layout) (r : Ring) :
    (view layout r).capacity = r.dataSize layout := by
  have hle := h.capacity r
  exact u32_of_lt (by omega)

variable {layout : IpcSharedMemoryLayout} {bytes : ℕ → UInt8} {σ σ' : Channel}

/-- An address in front of the rings or behind them is not in one of them. -/
theorem Apart.not_mem (h : Apart layout) (r : Ring) {address : ℕ}
    (haddress : address < layout.moniDataOffset ∨
      layout.minoDataOffset + layout.minoDataSize ≤ address) :
    address < r.dataOffset layout ∨ r.dataOffset layout + r.dataSize layout ≤ address := by
  have hmoni := h.moni
  cases r with
  | moni =>
    show address < layout.moniDataOffset ∨ layout.moniDataOffset + layout.moniDataSize ≤ address
    omega
  | mino =>
    show address < layout.minoDataOffset ∨ layout.minoDataOffset + layout.minoDataSize ≤ address
    omega

/-- An address in one ring is not in the other. -/
theorem Apart.not_mem_of_ne (h : Apart layout) {r r' : Ring} (hr : r' ≠ r) {i : ℕ}
    (hi : i < r'.dataSize layout) :
    r'.dataOffset layout + i < r.dataOffset layout ∨
      r.dataOffset layout + r.dataSize layout ≤ r'.dataOffset layout + i := by
  have hmoni := h.moni
  cases r with
  | moni =>
    cases r' with
    | moni => exact (hr rfl).elim
    | mino =>
      right
      show layout.moniDataOffset + layout.moniDataSize ≤ layout.minoDataOffset + i
      omega
  | mino =>
    cases r' with
    | moni =>
      have hlt : i < layout.moniDataSize := hi
      left
      show layout.moniDataOffset + i < layout.minoDataOffset
      omega
    | mino => exact (hr rfl).elim

/-- A step on one ring. -/
theorem Inv.setRing (h : Inv layout bytes σ) (hlayout : Apart layout) (r : Ring) {τ : Spsc}
    {outSize : ℕ}
    (hstep : Spsc.Step (view layout r) outSize (σ.ring r (r.dataOffset layout)) τ) :
    Inv layout bytes (σ.setRing r (r.dataOffset layout) τ) := by
  obtain ⟨delivered, pending, hring⟩ := h.ring r
  have hcap : (view layout r).capacity ≤ 4294901761 :=
    (hlayout.capacity_eq r).trans_le (hlayout.capacity r)
  have hsame := hring.step_sameFrom hcap hstep
  rw [hlayout.capacity_eq] at hsame
  refine ⟨h.views, ?_, ?_⟩
  · intro address haddress
    rw [← h.frame address haddress]
    exact Segment.write_of_not_mem hsame (hlayout.not_mem r haddress)
  · intro r'
    by_cases hr : r' = r
    · subst hr
      have hself : (σ.setRing r' (r'.dataOffset layout) τ).ring r' (r'.dataOffset layout) = τ := by
        simp [Channel.setRing, Channel.ring]
      rw [hself]
      exact hring.step hcap hstep
    · obtain ⟨delivered', pending', hring'⟩ := h.ring r'
      -- Of the other ring only the bytes that lie in the first one may have changed.
      have hother : (σ.setRing r (r.dataOffset layout) τ).ring r' (r'.dataOffset layout) =
          { σ.ring r' (r'.dataOffset layout) with
            memory.data := Segment.read (Segment.write σ.block.bytes (r.dataOffset layout)
              τ.memory.data) (r'.dataOffset layout) } := by
        simp [Channel.setRing, Channel.ring, Function.update_of_ne hr]
      rw [hother]
      refine ⟨delivered', pending', hring'.congr ?_⟩
      intro i hi
      rw [hlayout.capacity_eq] at hi
      exact Segment.write_of_not_mem hsame (hlayout.not_mem_of_ne hr hi)

/-- Whenever the node connects, it finds the layout that the manager wrote. -/
theorem Inv.load_eq (h : Inv layout bytes σ) (hlayout : Apart layout) :
    IpcSharedMemoryLayout.load σ.block.bytes = layout := by
  calc IpcSharedMemoryLayout.load σ.block.bytes
      = IpcSharedMemoryLayout.load (layout.store bytes) := by
        apply IpcSharedMemoryLayout.load_congr
        intro k hk
        exact h.frame k (.inl (hk.trans_le hlayout.header))
    _ = layout := IpcSharedMemoryLayout.load_store bytes hlayout.fields

theorem Inv.connect (h : Inv layout bytes σ) (hlayout : Apart layout)
    (hconnect : σ.connect = .ok σ') : Inv layout bytes σ' := by
  obtain ⟨views, hview, rfl⟩ := connect_eq_ok hconnect
  rw [h.load_eq hlayout] at hview ⊢
  refine ⟨?_, h.frame, h.ring⟩
  rintro (_ | _) layout' views' hviews
  · exact h.views .manager layout' views' hviews
  · obtain ⟨rfl, rfl⟩ := Prod.mk.inj (Option.some.inj hviews)
    exact ⟨rfl, hview⟩

theorem Inv.step (h : Inv layout bytes σ) (hlayout : Apart layout) (hstep : Step σ σ') :
    Inv layout bytes σ' := by
  cases hstep with
  | connect hconnect => exact h.connect hlayout hconnect
  | @call party layout' views τ id data hviews hcall =>
    obtain ⟨rfl, -⟩ := h.views party layout' views hviews
    have hring : Spsc.Step (view layout' party.sends) 0
        (σ.ring party.sends (party.sends.dataOffset layout')) τ :=
      .call id data hcall
    exact h.setRing hlayout party.sends hring
  | @produce party layout' views τ hviews hproduce =>
    obtain ⟨rfl, hview⟩ := h.views party layout' views hviews
    rw [hview] at hproduce
    have hring : Spsc.Step (view layout' party.sends) 0
        (σ.ring party.sends (party.sends.dataOffset layout')) τ :=
      .produce hproduce
    exact h.setRing hlayout party.sends hring
  | consume hviews =>
    obtain ⟨rfl, hview⟩ := h.views _ _ _ hviews
    rw [hview]
    exact h.setRing hlayout _ .consume

/-- Every interleaving keeps the invariant. -/
theorem Inv.run (h : Inv layout bytes σ) (hlayout : Apart layout) (hrun : Run σ σ') :
    Inv layout bytes σ' := by
  induction hrun with
  | refl => exact h
  | tail _ hstep ih => exact ih.step hlayout hstep

/-! ### Safety -/

/-- What a party writes lies in the ring that it sends on, outside the published region. -/
theorem Inv.writes (h : Inv layout bytes σ) (hlayout : Apart layout) {party : Party} {address : ℕ}
    (hwrites : σ.Writes party address) : ∃ i < party.sends.dataSize layout,
      address = party.sends.dataOffset layout + i ∧
        ¬ Spsc.Occupied (view layout party.sends)
          (σ.ring party.sends (party.sends.dataOffset layout)) i := by
  obtain ⟨_, views, hviews, i, rfl, hwrites⟩ := hwrites
  obtain ⟨rfl, hview⟩ := h.views _ _ _ hviews
  rw [hview] at hwrites
  obtain ⟨_, _, hring⟩ := h.ring party.sends
  have hcap : (view _ party.sends).capacity ≤ 4294901761 :=
    (hlayout.capacity_eq party.sends).trans_le (hlayout.capacity party.sends)
  refine ⟨i, ?_, rfl, hring.not_occupied_of_writes hcap hwrites⟩
  rw [← hlayout.capacity_eq]
  exact hring.lt_of_writes hcap hwrites

/-- What a party reads lies in the published region of the ring that it receives on. -/
theorem Inv.reads (h : Inv layout bytes σ) (hlayout : Apart layout) {party : Party} {address : ℕ}
    (hreads : σ.Reads party address) : ∃ i < party.receives.dataSize layout,
      address = party.receives.dataOffset layout + i ∧
        Spsc.Occupied (view layout party.receives)
          (σ.ring party.receives (party.receives.dataOffset layout)) i := by
  obtain ⟨_, views, hviews, i, rfl, hreads⟩ := hreads
  obtain ⟨rfl, hview⟩ := h.views _ _ _ hviews
  rw [hview] at hreads
  obtain ⟨_, _, hring⟩ := h.ring party.receives
  have hcap : (view _ party.receives).capacity ≤ 4294901761 :=
    (hlayout.capacity_eq party.receives).trans_le (hlayout.capacity party.receives)
  refine ⟨i, ?_, rfl, hring.occupied_of_reads hcap hreads⟩
  rw [← hlayout.capacity_eq]
  exact hring.lt_of_reads hcap hreads

/-- Cells of different rings have different addresses. -/
theorem Apart.address_ne (h : Apart layout) {r r' : Ring} (hr : r' ≠ r) {i j : ℕ}
    (hi : i < r'.dataSize layout) (hj : j < r.dataSize layout) :
    r'.dataOffset layout + i ≠ r.dataOffset layout + j := by
  rcases h.not_mem_of_ne hr hi with hlt | hle
  · omega
  · omega

theorem Inv.fifo (h : Inv layout bytes σ) (r : Ring) :
    σ.popped r <+: (σ.accepted r).map Packet.pair := by
  obtain ⟨delivered, pending, hring⟩ := h.ring r
  have hpopped : σ.popped r = delivered.map Packet.pair := hring.popped_eq
  have haccepted : σ.accepted r = delivered ++ pending := hring.accepted_eq
  rw [hpopped, haccepted, List.map_append]
  exact List.prefix_append _ _

end Channel

end IACore
