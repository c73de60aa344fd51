import IACore.Library.CyclicMemory
import IACore.RingBuffer

/-!
# The wrapped copies are cyclic windows

`write_wrapped` and `read_wrapped` are `CyclicMemory.fill` and `CyclicMemory.window` as long as the
offset is below the capacity, no more than a whole turn is copied and `offset + size` fits a `u32`
(`writeWrapped_eq_fill`, `readWrapped_eq_window`), so that they are exact and change nothing else
(`wrapped_exact`).  A header survives its trip through memory (`PacketHeader.ofBytes_toBytes`).
-/

namespace IACore

open CyclicMemory

namespace PacketHeader

@[simp] theorem toBytes_length (h : PacketHeader) : h.toBytes.length = size := rfl

private theorem ofNat_split (n : UInt16) :
    UInt16.ofNat ((UInt8.ofNat (n.toNat % 256)).toNat +
      256 * (UInt8.ofNat (n.toNat / 256)).toNat) = n := by
  have hn : n.toNat < 65536 := n.toNat_lt
  rw [UInt8.toNat_ofNat', UInt8.toNat_ofNat']
  have h : n.toNat % 256 % 2 ^ 8 + 256 * (n.toNat / 256 % 2 ^ 8) = n.toNat := by omega
  rw [h, UInt16.ofNat_toNat]

@[simp] theorem ofBytes_toBytes (h : PacketHeader) : ofBytes h.toBytes = h := by
  simp only [toBytes, ofBytes, ofNat_split]

end PacketHeader

/-! ### `memcpy` on an unwrapped range -/

theorem memcpyTo_cons (mem : ℕ → UInt8) (dst : ℕ) (x : UInt8) (xs : List UInt8) :
    memcpyTo mem dst (x :: xs) = memcpyTo (Function.update mem dst x) (dst + 1) xs := by
  funext k
  unfold memcpyTo
  rcases Nat.lt_trichotomy k dst with hlt | rfl | hgt
  · rw [if_neg (by omega), if_neg (by omega), Function.update_of_ne (by omega)]
  · rw [if_pos le_rfl, if_neg (by omega), Nat.sub_self, Function.update_self]
    rfl
  · obtain ⟨d, rfl⟩ : ∃ d, k = dst + 1 + d := ⟨k - dst - 1, by omega⟩
    rw [if_pos (by omega), if_pos (by omega), Function.update_of_ne (by omega),
      show dst + 1 + d - dst = d + 1 by omega, show dst + 1 + d - (dst + 1) = d by omega,
      List.getElem?_cons_succ]

theorem memcpyTo_eq_fill {mem : ℕ → UInt8} {c o : ℕ} {xs : List UInt8}
    (h : o + xs.length ≤ c) : memcpyTo mem o xs = fill mem c o xs := by
  induction xs generalizing mem o with
  | nil =>
    funext k
    unfold memcpyTo
    split_ifs <;> rfl
  | cons x xs ih =>
    rw [List.length_cons] at h
    rw [memcpyTo_cons, fill, Nat.mod_eq_of_lt (by omega), ih (by omega)]

theorem memcpyFrom_eq_window {mem : ℕ → UInt8} {c o n : ℕ} (h : o + n ≤ c) :
    memcpyFrom mem o n = window mem c o n := by
  apply List.map_congr_left
  intro i hi
  rw [List.mem_range] at hi
  rw [Nat.mod_eq_of_lt (by omega)]

/-! ### The wrapped copies -/

namespace RingBufferView

variable {v : RingBufferView} {mem : ℕ → UInt8} {offset : ℕ}

/-- The copies of a packet with `size` payload bytes at `offset` add within a `u32`. -/
structure Fits (v : RingBufferView) (offset size : ℕ) : Prop where
  header : offset + PacketHeader.size < 4294967296
  payload : (offset + PacketHeader.size) % v.capacity + size < 4294967296

/-- Up to this capacity, every packet's do. -/
theorem fits_of_capacity {size : ℕ} (hcap : v.capacity ≤ 4294901761) (ho : offset < v.capacity)
    (hs : size ≤ 65535) : v.Fits offset size where
  header := by
    unfold PacketHeader.size
    omega
  payload := by
    have hmod : (offset + PacketHeader.size) % v.capacity < v.capacity := Nat.mod_lt _ (by omega)
    omega

theorem fits_of_lt {size : ℕ} (h : offset + PacketHeader.size + size < 4294967296) :
    v.Fits offset size where
  header := by omega
  payload := by
    have hmod : (offset + PacketHeader.size) % v.capacity ≤ offset + PacketHeader.size :=
      Nat.mod_le _ _
    omega

theorem writeWrapped_eq_fill (mem : ℕ → UInt8) (data : List UInt8) (hcap : v.capacity < 4294967296)
    (ho : offset < v.capacity) (hs : data.length ≤ v.capacity)
    (hfit : offset + data.length < 4294967296) :
    v.writeWrapped offset data data.length mem = fill mem v.capacity offset data := by
  unfold writeWrapped
  rw [u32_of_lt hfit]
  split_ifs with h
  · rw [List.take_length, memcpyTo_eq_fill h]
  · have hfirst : u32Sub v.capacity offset = v.capacity - offset :=
      u32Sub_of_le (by omega) (by omega)
    have hsecond : u32Sub data.length (v.capacity - offset) =
        data.length - (v.capacity - offset) := u32Sub_of_le (by omega) (by omega)
    simp only [hfirst, hsecond]
    set n := v.capacity - offset with hn
    have htake : (data.drop n).take (data.length - n) = data.drop n := by
      rw [← List.length_drop, List.take_length]
    -- the first chunk ends at the capacity, where the window wraps to `0`
    conv_rhs => rw [← List.take_append_drop n data, fill_append, List.length_take,
      Nat.min_eq_left (by omega), show offset + n = v.capacity by omega, ← fill_mod, Nat.mod_self]
    rw [htake, memcpyTo_eq_fill (c := v.capacity) (by rw [List.length_drop]; omega),
      memcpyTo_eq_fill (c := v.capacity) (by rw [List.length_take]; omega)]

theorem readWrapped_eq_window {size : ℕ} (hcap : v.capacity < 4294967296)
    (ho : offset < v.capacity) (hs : size ≤ v.capacity) (hfit : offset + size < 4294967296) :
    v.readWrapped offset size mem = window mem v.capacity offset size := by
  unfold readWrapped
  rw [u32_of_lt hfit]
  split_ifs with h
  · rw [memcpyFrom_eq_window h]
  · have hfirst : u32Sub v.capacity offset = v.capacity - offset :=
      u32Sub_of_le (by omega) (by omega)
    have hsecond : u32Sub size (v.capacity - offset) = size - (v.capacity - offset) :=
      u32Sub_of_le (by omega) (by omega)
    simp only [hfirst, hsecond]
    set n := v.capacity - offset with hn
    conv_rhs => rw [show size = n + (size - n) by omega, window_add,
      show offset + n = v.capacity by omega, ← window_mod _ _ v.capacity, Nat.mod_self]
    rw [memcpyFrom_eq_window (c := v.capacity) (by omega),
      memcpyFrom_eq_window (c := v.capacity) (by omega)]

/-- What a write of `data` at `offset` does: reading finds it again, writing it in two pieces is the
same, and no other byte is touched. -/
structure ExactWrite (v : RingBufferView) (offset : ℕ) (data : List UInt8) (mem : ℕ → UInt8) :
    Prop where
  read_write :
    v.readWrapped offset data.length (v.writeWrapped offset data data.length mem) = data
  split : ∀ a b, a + b = data.length →
    v.writeWrapped ((offset + a) % v.capacity) (data.drop a) b
      (v.writeWrapped offset (data.take a) a mem) = v.writeWrapped offset data data.length mem
  frame : ∀ k, (∀ i < data.length, k ≠ (offset + i) % v.capacity) →
    v.writeWrapped offset data data.length mem k = mem k

/-- **The wrapped copies are exact and local**, at every offset and for every size up to the whole
capacity, wherever the end and the place of the split are. -/
theorem wrapped_exact (v : RingBufferView) (mem : ℕ → UInt8) {offset : ℕ} {data : List UInt8}
    (hcap : v.capacity < 2147483648) (ho : offset < v.capacity)
    (hs : data.length ≤ v.capacity) : v.ExactWrite offset data mem where
  read_write := by
    rw [writeWrapped_eq_fill mem data (by omega) ho hs (by omega),
      readWrapped_eq_window (by omega) ho hs (by omega)]
    exact (holds_fill mem v.capacity offset hs).window_eq
  split := by
    intro a b hab
    have htake : (data.take a).length = a := by
      rw [List.length_take]
      omega
    have hdrop : (data.drop a).length = b := by
      rw [List.length_drop]
      omega
    have hmod : (offset + a) % v.capacity < v.capacity := Nat.mod_lt _ (by omega)
    -- both pieces fill their windows, and the second begins where the first ends
    have hfirst := writeWrapped_eq_fill mem (data.take a) (v := v) (by omega) ho (by omega)
      (by omega)
    have hsecond := writeWrapped_eq_fill (fill mem v.capacity offset (data.take a)) (data.drop a)
      (v := v) (by omega) hmod (by omega) (by omega)
    rw [htake] at hfirst
    rw [hdrop] at hsecond
    rw [hfirst, hsecond, fill_mod, writeWrapped_eq_fill mem data (by omega) ho hs (by omega)]
    conv_rhs => rw [← List.take_append_drop a data, fill_append, htake]
  frame := by
    intro k hk
    rw [writeWrapped_eq_fill mem data (by omega) ho hs (by omega)]
    exact fill_of_ne hk

/-- Eight bytes in a ring of eight, from the sixth place on. -/
theorem wrapped_exact_full :
    ExactWrite ⟨some 128, 8, some 0⟩ 5 [1, 2, 3, 4, 5, 6, 7, 8] fun _ => 0 :=
  wrapped_exact ⟨some 128, 8, some 0⟩ (fun _ => 0) (by decide) (by decide) (by decide)

/-- The two branches of the free-space formula compute one number: the offsets are those of two
counters, `d` bytes apart. -/
theorem freeSpace_mod (hcap : v.capacity < 4294967296) (r : ℕ) {d : ℕ} (hd : d < v.capacity) :
    v.freeSpace (r % v.capacity) ((r + d) % v.capacity) = v.capacity - d := by
  have hr : r % v.capacity < v.capacity := Nat.mod_lt _ (by omega)
  rw [← Nat.mod_add_mod]
  have hmod := add_mod_eq_or hr hd
  set read := r % v.capacity
  unfold freeSpace u32Sub u32
  split_ifs <;> omega

end RingBufferView

end IACore
