import Mathlib.Data.List.Basic
import Mathlib.Logic.Function.Basic

/-!
# Mixing steps

A step `mix s a` takes an input `a` into a state `s`.  If it is one-to-one in either when the other
is fixed, a change to one input is still there after any number of further steps
(`OneToOne.foldl_single`).  The operations on words that such steps are made of are one-to-one:
the product with a number that has an inverse, rotations, and the exclusive or with a shift of the
word itself.
-/

namespace Mixing

variable {σ α : Type*} {mix : σ → α → σ}

/-- One-to-one in the state, and in the input. -/
structure OneToOne (mix : σ → α → σ) : Prop where
  state : ∀ a, Function.Injective fun s => mix s a
  input : ∀ s, Function.Injective (mix s)

namespace OneToOne

theorem foldl_injective (h : OneToOne mix) (as : List α) :
    Function.Injective fun s => as.foldl mix s := by
  induction as with
  | nil => exact Function.injective_id
  | cons a as ih =>
    intro s s' hfold
    exact h.state a (ih hfold)

/-- Inputs that agree in all places but one and lead to the same state are the same. -/
theorem foldl_single (h : OneToOne mix) {as bs : List α} (hlength : as.length = bs.length)
    {k : ℕ} (hsame : ∀ i, i ≠ k → as[i]? = bs[i]?) {s : σ}
    (hfold : as.foldl mix s = bs.foldl mix s) : as = bs := by
  induction as generalizing bs k s with
  | nil => exact (List.length_eq_zero_iff.mp hlength.symm).symm
  | cons a as ih =>
    obtain ⟨b, bs, rfl⟩ := List.exists_cons_of_length_eq_add_one hlength.symm
    cases k with
    | zero =>
      have htail : as = bs := by
        apply List.ext_getElem?
        intro i
        exact hsame (i + 1) (Nat.succ_ne_zero i)
      subst htail
      rw [h.input s (h.foldl_injective as hfold)]
    | succ k =>
      have hhead : a = b := Option.some.inj (hsame 0 (Nat.succ_ne_zero k).symm)
      subst hhead
      have htail : as = bs := by
        apply ih (Nat.succ.inj hlength) _ hfold
        · exact k
        · intro i hi
          exact hsame (i + 1) fun heq => hi (Nat.succ.inj heq)
      rw [htail]

end OneToOne

/-! ### Operations on words -/

variable {w : ℕ}

theorem mul_injective {a b : BitVec w} (h : a * b = 1#w) : Function.Injective fun x => x * a := by
  intro x y hxy
  have hmul : x * a * b = y * a * b := congrArg (· * b) hxy
  rwa [BitVec.mul_assoc, BitVec.mul_assoc, h, BitVec.mul_one, BitVec.mul_one] at hmul

theorem add_injective (a : BitVec w) : Function.Injective fun x => x + a :=
  fun _ _ h => (BitVec.add_left_inj a).mp h

theorem setWidth_injective {v : ℕ} (h : w ≤ v) :
    Function.Injective fun x : BitVec w => x.setWidth v := by
  intro x y hxy
  have hback : (x.setWidth v).setWidth w = (y.setWidth v).setWidth w := congrArg _ hxy
  rwa [BitVec.setWidth_setWidth_of_le x h, BitVec.setWidth_setWidth_of_le y h, BitVec.setWidth_eq,
    BitVec.setWidth_eq] at hback

theorem rotateLeft_injective (n : ℕ) : Function.Injective fun x : BitVec w => x.rotateLeft n := by
  intro x y h
  replace h : x.rotateLeft n = y.rotateLeft n := h
  apply BitVec.eq_of_getLsbD_eq
  intro i hi
  -- Bit `i` goes to `i + n % w`, round the end.
  have hbit : ∀ j, (x.rotateLeft n).getLsbD j = (y.rotateLeft n).getLsbD j := by
    intro j
    rw [h]
  have hmod : n % w < w := Nat.mod_lt n (by omega)
  rcases Nat.lt_or_ge (i + n % w) w with hlt | hge
  · have hj := hbit (i + n % w)
    have hhigh : ¬ i + n % w < n % w := by omega
    rw [BitVec.getLsbD_rotateLeft, BitVec.getLsbD_rotateLeft] at hj
    simpa [hlt, hhigh] using hj
  · have hj := hbit (i + n % w - w)
    have hlow : i + n % w - w < n % w := by omega
    rw [BitVec.getLsbD_rotateLeft, BitVec.getLsbD_rotateLeft] at hj
    simp only [hlow, decide_true, cond_true] at hj
    rwa [show w - n % w + (i + n % w - w) = i by omega] at hj

theorem xorShift_injective {n : ℕ} (hn : 0 < n) :
    Function.Injective fun x : BitVec w => x ^^^ x >>> n := by
  intro x y h
  replace h : x ^^^ x >>> n = y ^^^ y >>> n := h
  -- From the highest bit down.
  have hbit : ∀ m i, w ≤ i + m → x.getLsbD i = y.getLsbD i := by
    intro m
    induction m with
    | zero =>
      intro i hi
      rw [BitVec.getLsbD_of_ge x i hi, BitVec.getLsbD_of_ge y i hi]
    | succ m ih =>
      intro i hi
      have hxor := congrArg (fun z => BitVec.getLsbD z i) h
      simp only [BitVec.getLsbD_xor, BitVec.getLsbD_ushiftRight] at hxor
      rw [ih (n + i) (by omega)] at hxor
      exact Bool.xor_left_inj.mp hxor
  apply BitVec.eq_of_getLsbD_eq
  intro i _
  exact hbit w i (Nat.le_add_left w i)

end Mixing
