import Mathlib.Data.List.Basic
import Mathlib.Data.Nat.Notation

/-!
# `Vec<u8>`

What `std::vector<u8>` does with its elements; it is taken to find the memory that it asks for.
-/

namespace IACore

/-- `std::vector::resize`; new elements are zero. -/
def resize (v : List UInt8) (n : ℕ) : List UInt8 := v.take n ++ List.replicate (n - v.length) 0

/-- The bytes of `v` from `pos` on are replaced by `bytes`, as many as these are. -/
def overwrite (v : List UInt8) (pos : ℕ) (bytes : List UInt8) : List UInt8 :=
  v.take pos ++ bytes ++ v.drop (pos + bytes.length)

@[simp] theorem resize_length (v : List UInt8) (n : ℕ) : (resize v n).length = n := by
  simp only [resize, List.length_append, List.length_take, List.length_replicate]
  omega

theorem resize_take {v : List UInt8} {k n : ℕ} (hk : k ≤ v.length) (hkn : k ≤ n) :
    (resize v n).take k = v.take k := by
  rw [resize, List.take_append_of_le_length (by rw [List.length_take]; omega), List.take_take,
    Nat.min_eq_left hkn]

theorem resize_of_le {v : List UInt8} {n : ℕ} (h : n ≤ v.length) : resize v n = v.take n := by
  rw [resize, Nat.sub_eq_zero_of_le h, List.replicate_zero, List.append_nil]

theorem overwrite_length {v bytes : List UInt8} {pos : ℕ} (h : pos + bytes.length ≤ v.length) :
    (overwrite v pos bytes).length = v.length := by
  simp only [overwrite, List.length_append, List.length_take, List.length_drop]
  omega

theorem overwrite_take {v bytes : List UInt8} {pos : ℕ} (h : pos ≤ v.length) :
    (overwrite v pos bytes).take (pos + bytes.length) = v.take pos ++ bytes := by
  have hlength : (v.take pos ++ bytes).length = pos + bytes.length := by
    rw [List.length_append, List.length_take, Nat.min_eq_left h]
  rw [overwrite, ← hlength, List.take_left]

end IACore
