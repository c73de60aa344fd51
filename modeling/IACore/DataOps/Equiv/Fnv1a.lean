import IACore.DataOps.Fnv1a
import IACore.Library.Mixing

/-!
# What `DataOps::hash_fnv1a` detects

A step is one-to-one in the hash and in the byte, so a change to one byte always shows.  For more
bytes, the exclusive or changes only the lowest byte of the hash, and the products of two hashes
that differ by less than 256 differ by far more: three changed bytes would have to solve a linear
congruence that has no solution that small (`congruence_unsolvable`).  Four can.
-/

namespace IACore

namespace DataOps

open Mixing

variable {data data' : List UInt8} {s t : BitVec 32}

/-! ### The two overloads -/

theorem fnv1aLoop_eq (data : List UInt8) (hash : BitVec 32) (n i : ℕ) (hn : i + n = data.length) :
    fnv1aLoop data hash i = (data.drop i).foldl fnv1aStep hash := by
  -- On the bytes that are left.
  induction n generalizing i hash with
  | zero =>
    rw [fnv1aLoop, dif_neg (by omega), List.drop_of_length_le (by omega)]
    rfl
  | succ n ih =>
    have hlt : i < data.length := by omega
    rw [fnv1aLoop, dif_pos hlt, List.drop_eq_getElem_cons hlt, List.foldl_cons]
    exact ih _ (i + 1) (by omega)

theorem hashFnv1a_eq (data : List UInt8) : hashFnv1a data = hashFnv1aString data :=
  fnv1aLoop_eq data fnv1a32Offset data.length 0 (Nat.zero_add _)

/-! ### One byte -/

theorem mul_fnv1a32Prime_injective : Function.Injective fun x => x * fnv1a32Prime :=
  mul_injective (b := 0x359C449B) (by decide)

theorem xor_byte_injective (s : BitVec 32) :
    Function.Injective fun byte : UInt8 => s ^^^ byte.toBitVec.setWidth 32 := by
  intro byte byte' h
  exact UInt8.toBitVec_inj.mp (setWidth_injective (by decide) ((BitVec.xor_right_inj s).mp h))

theorem fnv1aStep_oneToOne : OneToOne fnv1aStep where
  state byte _ _ h := (BitVec.xor_left_inj (byte.toBitVec.setWidth 32)).mp
    (mul_fnv1a32Prime_injective h)
  input s _ _ h := xor_byte_injective s (mul_fnv1a32Prime_injective h)

/-! ### Up to three bytes -/

/-- Hashes that agree above the lowest byte. -/
def Above (s t : BitVec 32) : Prop := s >>> 8 = t >>> 8

theorem above_xor (s : BitVec 32) (byte : UInt8) : Above (s ^^^ byte.toBitVec.setWidth 32) s := by
  have hbyte : byte.toBitVec.setWidth 32 >>> 8 = 0#32 := by
    apply BitVec.eq_of_getLsbD_eq
    intro i hi
    rw [BitVec.getLsbD_ushiftRight, BitVec.getLsbD_setWidth,
      BitVec.getLsbD_of_ge _ _ (Nat.le_add_right 8 i), Bool.and_false, BitVec.getLsbD_zero]
  rw [Above, BitVec.ushiftRight_xor_distrib, hbyte, BitVec.xor_zero]

theorem above_of_eq (h : s = t) : Above s t := by rw [h]; rfl

theorem above_xor_xor (s : BitVec 32) (byte byte' : UInt8) :
    Above (s ^^^ byte.toBitVec.setWidth 32) (s ^^^ byte'.toBitVec.setWidth 32) :=
  (above_xor s byte).trans (above_xor s byte').symm

theorem above_of_xor_eq {byte byte' : UInt8}
    (h : s ^^^ byte.toBitVec.setWidth 32 = t ^^^ byte'.toBitVec.setWidth 32) : Above s t :=
  (above_xor s byte).symm.trans ((above_of_eq h).trans (above_xor t byte'))

theorem Above.div_eq (h : Above s t) : s.toNat / 256 = t.toNat / 256 := by
  have hnat := congrArg BitVec.toNat h
  rwa [BitVec.toNat_ushiftRight, BitVec.toNat_ushiftRight, Nat.shiftRight_eq_div_pow,
    Nat.shiftRight_eq_div_pow] at hnat

theorem toNat_mul_fnv1a32Prime (s : BitVec 32) :
    (s * fnv1a32Prime).toNat = s.toNat * 16777619 % 4294967296 := BitVec.toNat_mul s fnv1a32Prime

/-- The congruence `k p ^ 2 + m p = d` modulo `2 ^ 32` for the prime `p`, with `p ^ 2` reduced, has
only the trivial solution for numbers this small. -/
theorem congruence_unsolvable {k m d q : ℤ} (hk : -255 ≤ k ∧ k ≤ 255) (hm : -510 ≤ m ∧ m ≤ 510)
    (hd : -255 ≤ d ∧ d ≤ 255)
    (h : k * 637696617 + m * 16777619 = d + 4294967296 * q) : k = 0 ∧ m = 0 := by
  -- Apart from multiples of `2 ^ 24`, only `c` times this number is left.
  obtain ⟨c, hlow, hhigh⟩ : ∃ c : ℤ, 162409 * k + 403 * m - d = 16777216 * c ∧
      38 * k + m + c = 256 * q := ⟨256 * q - 38 * k - m, by omega, by omega⟩
  clear h
  have hc : -2 ≤ c ∧ c ≤ 2 := by omega
  obtain ⟨e, rfl⟩ : ∃ e, k = 103 * c + e := ⟨k - 103 * c, by omega⟩
  have he : e = 0 ∨ e = 1 ∨ e = -1 := by
    clear hhigh hk
    omega
  replace hc : c = 0 ∨ c = 1 ∨ c = -1 ∨ c = 2 ∨ c = -2 := by omega
  rcases hc with rfl | rfl | rfl | rfl | rfl
  all_goals
    rcases he with rfl | rfl | rfl
    all_goals omega

/-- Two numbers that differ in their lowest bytes, whose products with the prime are changed there
to `x` and `y`: if the products of these differ there at most, nothing differs. -/
theorem eq_of_div_eq {s t x y : ℕ} (hst : s / 256 = t / 256)
    (hx : x / 256 = s * 16777619 % 4294967296 / 256)
    (hy : y / 256 = t * 16777619 % 4294967296 / 256)
    (hxy : x * 16777619 % 4294967296 / 256 = y * 16777619 % 4294967296 / 256) :
    s = t ∧ x = y := by
  have hsplit : ∀ n, ∃ q r, n % 4294967296 = r ∧ n = 4294967296 * q + r :=
    fun n => ⟨_, _, rfl, (Nat.div_add_mod n 4294967296).symm⟩
  obtain ⟨qs, u, hu, hs⟩ := hsplit (s * 16777619)
  obtain ⟨qt, v, hv, ht⟩ := hsplit (t * 16777619)
  obtain ⟨qx, z, hz, hx'⟩ := hsplit (x * 16777619)
  obtain ⟨qy, w, hw, hy'⟩ := hsplit (y * 16777619)
  rw [hu] at hx
  rw [hv] at hy
  rw [hz, hw] at hxy
  have hk : -255 ≤ (s - t : ℤ) ∧ (s - t : ℤ) ≤ 255 := by omega
  have hm : -510 ≤ (x - u - (y - v) : ℤ) ∧ (x - u - (y - v) : ℤ) ≤ 510 := by omega
  have hd : -255 ≤ (z - w : ℤ) ∧ (z - w : ℤ) ≤ 255 := by omega
  have hcongruence : (s - t : ℤ) * 637696617 + (x - u - (y - v) : ℤ) * 16777619 =
      (z - w) + 4294967296 * ((qx - qy) + 16777619 * (qs - qt) - 65539 * (s - t)) := by omega
  have hsolution := congruence_unsolvable hk hm hd hcongruence
  obtain rfl : s = t := by omega
  obtain rfl : u = v := hu.symm.trans hv
  exact ⟨rfl, by omega⟩

/-- Two hashes that differ in their lowest bytes and are so again after the next step and the one
after that. -/
theorem eq_of_above {x y : BitVec 32} (hst : Above s t) (hx : Above x (s * fnv1a32Prime))
    (hy : Above y (t * fnv1a32Prime)) (h : Above (x * fnv1a32Prime) (y * fnv1a32Prime)) :
    s = t ∧ x = y := by
  replace hx := hx.div_eq
  replace hy := hy.div_eq
  replace h := h.div_eq
  rw [toNat_mul_fnv1a32Prime] at hx hy
  rw [toNat_mul_fnv1a32Prime, toNat_mul_fnv1a32Prime] at h
  obtain ⟨hs, hx⟩ := eq_of_div_eq hst.div_eq hx hy h
  exact ⟨BitVec.eq_of_toNat_eq hs, BitVec.eq_of_toNat_eq hx⟩

/-- Up to three bytes are told apart by the hash that they lead to. -/
theorem window_eq {bytes bytes' : List UInt8} (hlength : bytes.length = bytes'.length)
    (hshort : bytes.length ≤ 3) (h : bytes.foldl fnv1aStep s = bytes'.foldl fnv1aStep s) :
    bytes = bytes' := by
  match bytes, bytes', hlength, hshort with
  | [], [], _, _ => rfl
  | [a], [a'], _, _ => rw [fnv1aStep_oneToOne.input s h]
  | [a, b], [a', b'], _, _ =>
    have hlast := mul_fnv1a32Prime_injective h
    have habove := above_of_eq (congrArg (· * fnv1a32Prime) hlast)
    obtain ⟨ha, -⟩ := eq_of_above (above_xor_xor s a a') (above_xor _ b) (above_xor _ b') habove
    obtain rfl := xor_byte_injective s ha
    rw [xor_byte_injective _ hlast]
  | [a, b, c], [a', b', c'], _, _ =>
    have hlast := mul_fnv1a32Prime_injective h
    have habove := above_of_xor_eq hlast
    obtain ⟨ha, hb⟩ := eq_of_above (above_xor_xor s a a') (above_xor _ b) (above_xor _ b') habove
    obtain rfl := xor_byte_injective s ha
    obtain rfl := xor_byte_injective _ hb
    rw [xor_byte_injective _ hlast]

/-- **What `hash_fnv1a` detects**: both overloads compute the same hash; a common rest neither hides
nor makes a difference; and data of one length that have the same hash and differ at most in three
bytes in a row are the same. -/
theorem hash_fnv1a_detects (data data' : List UInt8) :
    hashFnv1a data = hashFnv1aString data ∧
    (∀ rest, hashFnv1a (data ++ rest) = hashFnv1a (data' ++ rest) ↔
      hashFnv1a data = hashFnv1a data') ∧
    (data.length = data'.length → hashFnv1a data = hashFnv1a data' →
      ∀ k, (∀ i, i < k ∨ k + 3 ≤ i → data[i]? = data'[i]?) → data = data') := by
  refine ⟨hashFnv1a_eq data, ?_, ?_⟩
  · intro rest
    simp only [hashFnv1a_eq, hashFnv1aString, List.foldl_append]
    exact (fnv1aStep_oneToOne.foldl_injective rest).eq_iff
  · intro hlength h k hsame
    have hbefore : data.take k = data'.take k := by
      apply List.ext_getElem?
      intro i
      rw [List.getElem?_take, List.getElem?_take]
      split
      · exact hsame i (Or.inl ‹_›)
      · rfl
    have hafter : (data.drop k).drop 3 = (data'.drop k).drop 3 := by
      apply List.ext_getElem?
      intro i
      rw [List.drop_drop, List.drop_drop, List.getElem?_drop, List.getElem?_drop]
      exact hsame _ (Or.inr (Nat.le_add_right _ i))
    have hparts : ∀ bytes : List UInt8,
        bytes = bytes.take k ++ ((bytes.drop k).take 3 ++ (bytes.drop k).drop 3) := by
      intro bytes
      rw [List.take_append_drop, List.take_append_drop]
    rw [hashFnv1a_eq, hashFnv1a_eq, hashFnv1aString, hashFnv1aString, hparts data, hparts data',
      hbefore, hafter, List.foldl_append, List.foldl_append, List.foldl_append,
      List.foldl_append] at h
    have hwindow : (data.drop k).take 3 = (data'.drop k).take 3 := by
      apply window_eq _ (List.length_take_le 3 _) (fnv1aStep_oneToOne.foldl_injective _ h)
      rw [List.length_take, List.length_take, List.length_drop, List.length_drop, hlength]
    rw [hparts data, hparts data', hbefore, hafter, hwindow]

/-- Three bytes, the other way round. -/
theorem hash_fnv1a_detects_swap : hashFnv1a [1, 2, 3, 4] ≠ hashFnv1a [3, 2, 1, 4] := by
  intro h
  have hsame := (hash_fnv1a_detects [1, 2, 3, 4] [3, 2, 1, 4]).2.2 (by decide) h 0 fun i hi => by
    match i with
    | 0 | 1 | 2 => omega
    | i + 3 => rfl
  exact absurd hsame (by decide)

/- Four bytes can be changed without a trace. -/
example : hashFnv1aString [6, 112, 128, 0] = hashFnv1aString [0, 230, 5, 107] := by decide

end DataOps

end IACore
