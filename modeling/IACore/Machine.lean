import Mathlib.Data.Nat.Notation
import Mathlib.Tactic.NormNum

/-!
# Fixed-width arithmetic

Unsigned integers are natural numbers reduced by hand where the source's type reduces them, signed
ones are integers.  `usize` has 64 bits, as on every platform of the build presets but wasm.
-/

namespace IACore

/-- The value a `u32` expression takes when its exact value is `n`. -/
def u32 (n : ℕ) : ℕ := n % 4294967296

/-- `u32` subtraction. -/
def u32Sub (a b : ℕ) : ℕ := u32 (a + 4294967296 - b)

/-- The value a `usize` expression takes when its exact value is `n`. -/
def usize (n : ℕ) : ℕ := n % 18446744073709551616

/-- `usize` or `u64` subtraction. -/
def usizeSub (a b : ℕ) : ℕ := usize (a + 18446744073709551616 - b)

/-- The value an `i32` atomic holds after arithmetic whose exact value is `n`: two's complement. -/
def i32 (n : ℤ) : ℤ := (n + 2147483648) % 4294967296 - 2147483648

theorem u32_of_lt {n : ℕ} (h : n < 4294967296) : u32 n = n := Nat.mod_eq_of_lt h

theorem u32Sub_of_le {a b : ℕ} (hba : b ≤ a) (ha : a < 4294967296) : u32Sub a b = a - b := by
  unfold u32Sub u32
  omega

theorem usize_of_lt {n : ℕ} (h : n < 18446744073709551616) : usize n = n := Nat.mod_eq_of_lt h

theorem usizeSub_of_le {a b : ℕ} (hba : b ≤ a) (ha : a < 18446744073709551616) :
    usizeSub a b = a - b := by
  unfold usizeSub usize
  omega

theorem i32_of_range {n : ℤ} (h : -2147483648 ≤ n) (h' : n < 2147483648) : i32 n = n := by
  unfold i32
  omega

@[simp] theorem i32_i32_add (n k : ℤ) : i32 (i32 n + k) = i32 (n + k) := by
  unfold i32
  omega

@[simp] theorem i32_i32_sub (n k : ℤ) : i32 (i32 n - k) = i32 (n - k) := by
  unfold i32
  omega

end IACore
