import Mathlib.Data.List.Basic
import Mathlib.Data.List.GetD

/-!
# Big-endian bit strings

`bits n x` are the `n` lowest bits of a word, the highest of them first, and `pack w bs` is the word
of `w` bits that a bit string spells.  `words w bs` cuts a bit string into whole words of `w` bits
and drops what is left over; on the bits of a list of words it gives the list back, whatever shorter
rest follows (`words_flatMap_bits_append`).
-/

namespace BitString

variable {w n m : ℕ}

/-- The `n` lowest bits of a word, the highest of them first. -/
def bits : ℕ → BitVec w → List Bool
  | 0, _ => []
  | n + 1, x => x.getLsbD n :: bits n x

/-- Move the bits up and put `b` below them. -/
def snoc (x : BitVec w) (b : Bool) : BitVec w := x <<< 1 ||| (BitVec.ofBool b).setWidth w

/-- The word that a bit string spells; of a longer one, its last `w` bits. -/
def pack (w : ℕ) (bs : List Bool) : BitVec w := bs.foldl snoc 0

/-- The whole words of a bit string. -/
def words (w : ℕ) (bs : List Bool) : List (BitVec w) :=
  (List.range (bs.length / w)).map fun i => pack w ((bs.drop (w * i)).take w)

/-! ### Bits -/

@[simp] theorem bits_length (n : ℕ) (x : BitVec w) : (bits n x).length = n := by
  induction n with
  | zero => rfl
  | succ n ih => rw [bits, List.length_cons, ih]

/-- Words that agree on their `n` lowest bits. -/
theorem bits_congr {x : BitVec w} {y : BitVec m} (h : ∀ i < n, x.getLsbD i = y.getLsbD i) :
    bits n x = bits n y := by
  induction n with
  | zero => rfl
  | succ n ih => rw [bits, bits, h n (Nat.lt_succ_self n), ih fun i hi => h i (by omega)]

/-- The bits of a word, in two parts. -/
theorem bits_add (n m : ℕ) (x : BitVec w) : bits (n + m) x = bits n (x >>> m) ++ bits m x := by
  induction n with
  | zero => rw [Nat.zero_add, bits, List.nil_append]
  | succ n ih =>
    rw [Nat.succ_add, bits, bits, ih, BitVec.getLsbD_ushiftRight, Nat.add_comm m n]
    rfl

/-! ### Words -/

/-- Taking the bits of `x` in moves what is there up. -/
theorem getLsbD_foldl_bits (n : ℕ) (x : BitVec m) (y : BitVec w) {i : ℕ} (hi : i < w) :
    ((bits n x).foldl snoc y).getLsbD i =
      if i < n then x.getLsbD i else y.getLsbD (i - n) := by
  induction n generalizing y with
  | zero => rfl
  | succ n ih =>
    rw [bits, List.foldl_cons, ih]
    rcases Nat.lt_trichotomy i n with hlt | rfl | hgt
    · rw [if_pos hlt, if_pos (by omega)]
    · simp [snoc, show 0 < w by omega]
    · obtain ⟨d, rfl⟩ : ∃ d, i = n + d + 1 := ⟨i - n - 1, by omega⟩
      rw [if_neg (by omega), if_neg (by omega)]
      simp [snoc, show n + d + 1 - n = d + 1 by omega, show d + 1 < w by omega,
        BitVec.getLsbD_eq_getElem (show d < w by omega)]

/-- Packing the bits of a word gives the word. -/
theorem pack_bits (x : BitVec w) : pack w (bits w x) = x := by
  apply BitVec.eq_of_getLsbD_eq
  intro i hi
  rw [pack, getLsbD_foldl_bits w x 0 hi, if_pos hi]

theorem words_of_short {bs : List Bool} (h : bs.length < w) : words w bs = [] := by
  rw [words, Nat.div_eq_of_lt h]
  rfl

@[simp] theorem words_length (w : ℕ) (bs : List Bool) : (words w bs).length = bs.length / w := by
  rw [words, List.length_map, List.length_range]

/-- The first word of a longer bit string. -/
theorem words_append {bs : List Bool} (hw : 0 < w) (h : bs.length = w) (rest : List Bool) :
    words w (bs ++ rest) = pack w bs :: words w rest := by
  have hdiv : (bs ++ rest).length / w = rest.length / w + 1 := by
    rw [List.length_append, h, Nat.add_comm, Nat.add_div_right _ hw]
  rw [words, hdiv, List.range_succ_eq_map, List.map_cons, List.map_map, words]
  congr 1
  · rw [Nat.mul_zero, List.drop_zero, List.take_left' h]
  · apply List.map_congr_left
    intro i _
    have hdrop : (bs ++ rest).drop (w * (i + 1)) = rest.drop (w * i) := by
      rw [Nat.mul_succ, Nat.add_comm, ← List.drop_drop, List.drop_left' h]
    rw [Function.comp_apply, hdrop]

/-- Words come back out of their bits, whatever follows. -/
theorem words_flatMap_bits_append (hw : 0 < w) (xs : List (BitVec w)) (rest : List Bool) :
    words w (xs.flatMap (bits w) ++ rest) = xs ++ words w rest := by
  induction xs with
  | nil => rfl
  | cons x xs ih =>
    rw [List.flatMap_cons, List.append_assoc, words_append hw (bits_length w x), pack_bits, ih,
      List.cons_append]

end BitString
