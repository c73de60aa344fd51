import Mathlib.Algebra.Group.Nat.Even
import Mathlib.Data.List.Basic
import Mathlib.Logic.Function.Iterate
import Mathlib.Tactic.ByContra

/-!
# Feedback shift registers

A register of `w` bits that shifts towards bit `0` and folds `poly` back in whenever a one falls
out.  `step` is one shift of the register alone, `shiftIn` one shift with a message bit added at
bit `0`; a message is a list of bits, those of a word taken from bit `0` upwards (`bits`).

Two facts make table-driven implementations of such a register work.  `step` is linear over
exclusive or (`steps_xor`), so the parts of a word can be followed apart; and while zeros fall out
it is a plain shift (`steps_of_shiftLeft`), so the part that starts `k` bits up behaves as the same
part at bit `0` does `k` steps later.  `foldl_shiftIn_bits` connects the two readings: adding a
whole word and then stepping is shifting its bits in one by one.

What the final register says about the message rests on the polynomial.  With its highest bit set
no step loses anything, so messages that differ within `w` bits in a row leave different registers
(`burst_eq`); with an odd number of bits set every step keeps the parity, so the register shows the
parity of the message (`parity_foldl_shiftIn`).
-/

namespace ShiftRegister

variable {w : ℕ}

/-- One shift of the register alone. -/
def step (poly x : BitVec w) : BitVec w :=
  (x >>> 1) ^^^ (if x.getLsbD 0 then poly else 0#w)

/-- `n` shifts of the register alone. -/
def steps (poly : BitVec w) (n : ℕ) : BitVec w → BitVec w := (step poly)^[n]

/-- One shift with `bit` added at the end that falls out. -/
def shiftIn (poly x : BitVec w) (bit : Bool) : BitVec w :=
  step poly (x ^^^ (BitVec.ofBool bit).setWidth w)

/-- The `n` lowest bits of a word, the lowest first. -/
def bits : ℕ → BitVec w → List Bool
  | 0, _ => []
  | n + 1, x => x.getLsbD 0 :: bits n (x >>> 1)

/-- The little-endian word of `bytes`. -/
def littleEndian (w : ℕ) : List (BitVec 8) → BitVec w
  | [] => 0#w
  | byte :: bytes => byte.setWidth w ||| littleEndian w bytes <<< 8

/-! ### Stepping -/

@[simp] theorem steps_zero (poly x : BitVec w) : steps poly 0 x = x := rfl

theorem steps_succ (poly x : BitVec w) (n : ℕ) :
    steps poly (n + 1) x = steps poly n (step poly x) := rfl

theorem steps_add (poly x : BitVec w) (m n : ℕ) :
    steps poly (m + n) x = steps poly m (steps poly n x) :=
  Function.iterate_add_apply _ m n x

/-- One shift is linear: `poly` is folded in for exactly one of two words that differ in bit `0`. -/
theorem step_xor (poly x y : BitVec w) : step poly (x ^^^ y) = step poly x ^^^ step poly y := by
  have hfeedback : ∀ a b : Bool, (if a ^^ b then poly else 0#w)
      = (if a then poly else 0#w) ^^^ (if b then poly else 0#w) := by
    intro a b
    cases a <;> cases b <;> simp
  unfold step
  rw [BitVec.ushiftRight_xor_distrib, BitVec.getLsbD_xor, hfeedback]
  ac_rfl

theorem steps_xor (poly : BitVec w) (n : ℕ) (x y : BitVec w) :
    steps poly n (x ^^^ y) = steps poly n x ^^^ steps poly n y := by
  induction n generalizing x y with
  | zero => rfl
  | succ n ih => rw [steps_succ, step_xor, ih, steps_succ, steps_succ]

/-- A step that drops a zero is a shift. -/
theorem step_of_getLsbD {poly x : BitVec w} (h : x.getLsbD 0 = false) : step poly x = x >>> 1 := by
  simp [step, h]

/-- Steps that drop zeros only are a shift. -/
theorem steps_of_getLsbD {poly x : BitVec w} {n : ℕ} (h : ∀ i < n, x.getLsbD i = false) :
    steps poly n x = x >>> n := by
  induction n generalizing x with
  | zero => simp
  | succ n ih =>
    rw [steps_succ, step_of_getLsbD (h 0 (by omega)), ih, ← BitVec.shiftRight_add, Nat.add_comm]
    intro i hi
    rw [BitVec.getLsbD_ushiftRight]
    exact h (1 + i) (by omega)

/-- The part of `x` that starts `n` bits up comes down in `n` steps; the part below it goes its own
way. -/
theorem steps_split (poly x low : BitVec w) {n : ℕ} (hlow : low >>> n = 0#w)
    (hx : ∀ i < n, low.getLsbD i = x.getLsbD i) :
    steps poly n x = (x >>> n) ^^^ steps poly n low := by
  have hhigh : ∀ i < n, (x ^^^ low).getLsbD i = false := by
    intro i hi
    rw [BitVec.getLsbD_xor, hx i hi, Bool.xor_self]
  have hsum : x = (x ^^^ low) ^^^ low := by rw [BitVec.xor_assoc, BitVec.xor_self, BitVec.xor_zero]
  calc steps poly n x
      = steps poly n (x ^^^ low) ^^^ steps poly n low := by rw [← steps_xor, ← hsum]
    _ = ((x ^^^ low) >>> n) ^^^ steps poly n low := by rw [steps_of_getLsbD hhigh]
    _ = (x >>> n) ^^^ steps poly n low := by
        rw [BitVec.ushiftRight_xor_distrib, hlow, BitVec.xor_zero]

/-! ### Messages -/

/-- The bits of two words, of any widths, that agree below `n`. -/
theorem bits_congr {v : ℕ} {n : ℕ} {x : BitVec w} {y : BitVec v}
    (h : ∀ i < n, x.getLsbD i = y.getLsbD i) : bits n x = bits n y := by
  induction n generalizing x y with
  | zero => rfl
  | succ n ih =>
    rw [bits, bits, h 0 (by omega), ih]
    intro i hi
    rw [BitVec.getLsbD_ushiftRight, BitVec.getLsbD_ushiftRight]
    exact h (1 + i) (by omega)

theorem bits_add (m n : ℕ) (x : BitVec w) : bits (m + n) x = bits m x ++ bits n (x >>> m) := by
  induction m generalizing x with
  | zero => simp [bits]
  | succ m ih =>
    rw [Nat.succ_add, bits, bits, ih, ← BitVec.shiftRight_add, Nat.add_comm 1 m, List.cons_append]

/-- Shifting a word's bits in one by one is adding the word and stepping. -/
theorem foldl_shiftIn_bits (poly x z : BitVec w) {n : ℕ} (hz : z >>> n = 0#w) :
    (bits n z).foldl (shiftIn poly) x = steps poly n (x ^^^ z) := by
  induction n generalizing x z with
  | zero =>
    have h0 : z = 0#w := by simpa using hz
    simp [bits, h0]
  | succ n ih =>
    have hz' : (z >>> 1) >>> n = 0#w := by rwa [← BitVec.shiftRight_add, Nat.add_comm]
    rw [bits, List.foldl_cons, ih _ _ hz', steps_succ]
    congr 1
    -- only bit `0` of `z` meets the feedback; the rest commutes with the shift
    have hbit : (x ^^^ (BitVec.ofBool (z.getLsbD 0)).setWidth w).getLsbD 0
        = (x ^^^ z).getLsbD 0 := by
      rcases Nat.eq_zero_or_pos w with rfl | hw
      · simp
      · simp [hw]
    have hrest : ((BitVec.ofBool (z.getLsbD 0)).setWidth w) >>> 1 = 0#w := by
      apply BitVec.eq_of_getLsbD_eq
      intro i hi
      simp
    unfold shiftIn step
    rw [hbit, BitVec.ushiftRight_xor_distrib, BitVec.ushiftRight_xor_distrib, hrest,
      BitVec.xor_zero, BitVec.xor_assoc, BitVec.xor_comm _ (z >>> 1), ← BitVec.xor_assoc]

/-- The bits of a little-endian word are those of its bytes, one byte after the other. -/
theorem bits_littleEndian {bytes : List (BitVec 8)} (h : 8 * bytes.length ≤ w) :
    bits (8 * bytes.length) (littleEndian w bytes) = bytes.flatMap (bits 8) := by
  induction bytes with
  | nil => rfl
  | cons byte bytes ih =>
    rw [List.length_cons] at h
    rw [List.length_cons, Nat.mul_succ, Nat.add_comm, bits_add, List.flatMap_cons, ← ih (by omega)]
    congr 1
    · apply bits_congr
      intro i hi
      simp [littleEndian, hi, show i < w by omega]
    · apply bits_congr
      intro i hi
      simp only [littleEndian, BitVec.getLsbD_ushiftRight, BitVec.getLsbD_or,
        BitVec.getLsbD_setWidth, BitVec.getLsbD_shiftLeft]
      simp [show 8 + i < w by omega, show ¬ 8 + i < 8 by omega]

/-! ### Bursts -/

@[simp] theorem length_bits (n : ℕ) (x : BitVec w) : (bits n x).length = n := by
  induction n generalizing x with
  | zero => rfl
  | succ n ih => rw [bits, List.length_cons, ih]

@[simp] theorem getElem?_bits (n : ℕ) (x : BitVec w) (i : ℕ) :
    (bits n x)[i]? = if i < n then some (x.getLsbD i) else none := by
  induction n generalizing x i with
  | zero => simp [bits]
  | succ n ih =>
    rcases i with _ | i
    · simp [bits]
    · rw [bits, List.getElem?_cons_succ, ih, BitVec.getLsbD_ushiftRight, Nat.add_comm 1 i]
      simp

/-- Any `w` bits at most are those of a word. -/
theorem exists_bits {bs : List Bool} (h : bs.length ≤ w) :
    ∃ z : BitVec w, z >>> bs.length = 0#w ∧ bits bs.length z = bs := by
  refine ⟨(BitVec.ofBoolListLE bs).setWidth w, ?_, ?_⟩
  · apply BitVec.eq_of_getLsbD_eq
    intro i hi
    simp
  · apply List.ext_getElem?
    intro i
    rw [getElem?_bits]
    by_cases hi : i < bs.length
    · rw [if_pos hi, BitVec.getLsbD_setWidth, BitVec.getLsbD_ofBoolListLE,
        List.getD_eq_getElem?_getD, List.getElem?_eq_getElem hi]
      simp [show i < w by omega]
    · simp [hi]

/-- When the highest bit of `poly` is set, a step keeps the bit that falls out there. -/
theorem step_eq_zero {poly x : BitVec w} (hpoly : poly.msb = true) (h : step poly x = 0#w) :
    x = 0#w := by
  have hw : 0 < w := by
    by_contra h0
    rw [BitVec.msb_eq_getLsbD_last, BitVec.getLsbD_of_ge _ _ (by omega)] at hpoly
    exact Bool.noConfusion hpoly
  have hout : x.getLsbD 0 = false := by
    by_contra h1
    have hlast : (step poly x).getLsbD (w - 1) = true := by
      rw [step, if_pos (by simpa using h1), BitVec.getLsbD_xor, BitVec.getLsbD_ushiftRight,
        BitVec.getLsbD_of_ge x _ (by omega), ← BitVec.msb_eq_getLsbD_last, hpoly]
      rfl
    rw [h] at hlast
    simp at hlast
  rw [step_of_getLsbD hout] at h
  apply BitVec.eq_of_getLsbD_eq
  intro i hi
  rcases i with _ | i
  · simpa using hout
  · have hbit : (x >>> 1).getLsbD i = false := by rw [h]; simp
    rw [BitVec.getLsbD_ushiftRight, Nat.add_comm] at hbit
    simpa using hbit

theorem steps_injective {poly : BitVec w} (hpoly : poly.msb = true) (n : ℕ) :
    Function.Injective (steps poly n) := by
  apply Function.Injective.iterate
  intro x y h
  have hzero : step poly (x ^^^ y) = 0#w := by rw [step_xor, h, BitVec.xor_self]
  exact BitVec.xor_eq_zero_iff.mp (step_eq_zero hpoly hzero)

theorem foldl_shiftIn_injective {poly : BitVec w} (hpoly : poly.msb = true) (bs : List Bool) :
    Function.Injective fun x => bs.foldl (shiftIn poly) x := by
  induction bs with
  | nil => exact fun _ _ h => h
  | cons bit bs ih =>
    intro x y h
    have hshift : step poly (x ^^^ (BitVec.ofBool bit).setWidth w)
        = step poly (y ^^^ (BitVec.ofBool bit).setWidth w) := ih h
    exact (BitVec.xor_left_inj _).mp (steps_injective hpoly 1 hshift)

/-- Two messages that differ within `w` bits in a row, and leave the same register, are the same. -/
theorem burst_eq {poly x : BitVec w} (hpoly : poly.msb = true) {before u v after : List Bool}
    (hlength : u.length = v.length) (hu : u.length ≤ w)
    (h : (before ++ u ++ after).foldl (shiftIn poly) x
      = (before ++ v ++ after).foldl (shiftIn poly) x) : u = v := by
  simp only [List.foldl_append] at h
  have hburst := foldl_shiftIn_injective hpoly after h
  obtain ⟨y, hy, hbitsu⟩ := exists_bits hu
  obtain ⟨z, hz, hbitsv⟩ := exists_bits (hlength ▸ hu)
  rw [← hbitsu, ← hbitsv, foldl_shiftIn_bits _ _ _ hy, foldl_shiftIn_bits _ _ _ hz, hlength]
    at hburst
  have hwords := (BitVec.xor_right_inj _).mp (steps_injective hpoly _ hburst)
  rw [← hbitsu, ← hbitsv, hwords, hlength]

/-! ### Parity -/

/-- Whether the number of ones is odd. -/
def parity : List Bool → Bool
  | [] => false
  | bit :: bs => bit ^^ parity bs

theorem parity_append (as bs : List Bool) : parity (as ++ bs) = (parity as ^^ parity bs) := by
  induction as with
  | nil => simp [parity]
  | cons bit as ih => rw [List.cons_append, parity, ih, parity, Bool.xor_assoc]

theorem parity_eq_false_iff (bs : List Bool) : parity bs = false ↔ Even (bs.count true) := by
  induction bs with
  | nil => simp [parity]
  | cons bit bs ih =>
    cases bit
    · simpa [parity] using ih
    · rw [parity, Bool.true_xor, List.count_cons_self, Nat.even_add_one, ← ih]
      simp

/-- Messages of one length have the same parity when they differ in an even number of places. -/
theorem parity_zipWith_xor {as bs : List Bool} (h : as.length = bs.length) :
    parity (as.zipWith xor bs) = (parity as ^^ parity bs) := by
  induction as generalizing bs with
  | nil =>
    rw [List.length_eq_zero_iff.mp h.symm]
    rfl
  | cons a as ih =>
    rcases bs with _ | ⟨b, bs⟩
    · simp at h
    · rw [List.zipWith_cons_cons, parity, parity, parity, ih (by simpa using h)]
      simp only [Bool.xor_assoc, Bool.xor_left_comm]

theorem parity_bits_xor (n : ℕ) (x y : BitVec w) :
    parity (bits n (x ^^^ y)) = (parity (bits n x) ^^ parity (bits n y)) := by
  induction n generalizing x y with
  | zero => rfl
  | succ n ih =>
    rw [bits, bits, bits, parity, parity, parity, BitVec.ushiftRight_xor_distrib, ih,
      BitVec.getLsbD_xor]
    simp only [Bool.xor_assoc, Bool.xor_left_comm]

/-- A shift loses the bit that falls out. -/
theorem parity_ushiftRight (x : BitVec w) :
    parity (bits w (x >>> 1)) = (parity (bits w x) ^^ x.getLsbD 0) := by
  have hfirst : parity (bits (w + 1) x) = (x.getLsbD 0 ^^ parity (bits w (x >>> 1))) := rfl
  have hlast : parity (bits (w + 1) x) = parity (bits w x) := by
    rw [bits_add, parity_append]
    simp [bits, parity]
  rw [← hlast, hfirst, Bool.xor_comm, ← Bool.xor_assoc, Bool.xor_self, Bool.false_xor]

theorem parity_bits_zero (n : ℕ) : parity (bits n (0#w)) = false := by
  have hself := parity_bits_xor n (0#w) (0#w)
  rwa [BitVec.xor_self, Bool.xor_self] at hself

/-- When `poly` has an odd number of ones, feedback makes up for the bit that falls out. -/
theorem parity_step {poly : BitVec w} (hpoly : parity (bits w poly) = true) (x : BitVec w) :
    parity (bits w (step poly x)) = parity (bits w x) := by
  rw [step, parity_bits_xor, parity_ushiftRight]
  cases x.getLsbD 0
  · simp [parity_bits_zero]
  · simp [hpoly]

theorem parity_foldl_shiftIn {poly : BitVec w} (hpoly : parity (bits w poly) = true) (x : BitVec w)
    (bs : List Bool) :
    parity (bits w (bs.foldl (shiftIn poly) x)) = (parity (bits w x) ^^ parity bs) := by
  have hbit : ∀ bit, parity (bits w ((BitVec.ofBool bit).setWidth w)) = bit := by
    rcases w with _ | w
    · exact Bool.noConfusion hpoly
    · intro bit
      have hrest : ((BitVec.ofBool bit).setWidth (w + 1)) >>> 1 = 0#(w + 1) := by
        apply BitVec.eq_of_getLsbD_eq
        intro i hi
        simp
      rw [bits, parity, hrest, parity_bits_zero]
      simp
  induction bs generalizing x with
  | nil => simp [parity]
  | cons bit bs ih =>
    rw [List.foldl_cons, ih, shiftIn, parity_step hpoly, parity_bits_xor, hbit, parity,
      Bool.xor_assoc]

end ShiftRegister
