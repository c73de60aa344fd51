import Mathlib.Data.List.TakeWhile
import Mathlib.Data.Nat.Notation

/-!
# Texts

The contents of a `String` or a `StringView` are bytes.  `formatU32` is what `std::format` prints
for a `u32` and `fromChars` what `std::from_chars` reads for one.
-/

namespace IACore

/-- The contents of a `String` or a `StringView`. -/
abbrev Text := List UInt8

/-- The text of a literal, which is ASCII throughout the sources. -/
def text (literal : String) : Text := literal.toList.map Char.toUInt8

/-- The `n` bytes of `data` from `t` on, as `data.substr(t, n)` or `StringView(data + t, n)`. -/
def substr (data : Text) (t n : ℕ) : Text := (data.drop t).take n

/-- What a reader of a C string sees: the text up to the first NUL. -/
def cString (t : Text) : Text := t.takeWhile (· ≠ 0)

/-- `std::format("{}", n)`. -/
def formatU32 (n : UInt32) : Text := (Nat.toDigits 10 n.toNat).map Char.toUInt8

def isDigit (c : UInt8) : Bool := '0'.toUInt8 ≤ c && c ≤ '9'.toUInt8

/-- `std::from_chars` for a `u32`: the value of the longest run of decimal digits, or nothing if
the run is empty or its value has no place in a `u32`. -/
def fromChars (t : Text) : Option UInt32 :=
  let digits := t.takeWhile isDigit
  let value := digits.foldl (fun n c => 10 * n + (c.toNat - '0'.toNat)) 0
  if digits = [] then none else if value < 4294967296 then some (UInt32.ofNat value) else none

/-! ### Strings of C -/

/-- A reader of a C string sees all of a text just if it has no NUL. -/
theorem cString_eq_self_iff {t : Text} : cString t = t ↔ 0 ∉ t := by
  rw [cString, List.takeWhile_eq_self_iff]
  constructor
  · intro h hzero
    exact absurd (h 0 hzero) (by decide)
  · intro h c hc
    rw [decide_eq_true_eq]
    rintro rfl
    exact h hc

theorem zero_notMem_cString (t : Text) : 0 ∉ cString t := by
  intro h
  exact absurd (List.mem_takeWhile_imp h) (by decide)

/-! ### Decimal numbers -/

theorem mem_formatU32 {n : UInt32} {c : UInt8} (h : c ∈ formatU32 n) :
    ∃ d : Char, d.isDigit ∧ d.toUInt8 = c := by
  rw [formatU32, List.mem_map] at h
  obtain ⟨d, hd, hdc⟩ := h
  exact ⟨d, Nat.isDigit_of_mem_toDigits (by omega) (by omega) hd, hdc⟩

/-- The byte of a digit has the digit's code. -/
theorem toNat_toUInt8 {d : Char} (h : d.isDigit) : d.toUInt8.toNat = d.toNat := by
  rw [Char.isDigit_iff_toNat] at h
  have h9 : d.toNat ≤ 57 := h.2
  have h256 : d.toUInt8.toNat = d.toNat % 256 := by
    simp only [Char.toUInt8, UInt32.toNat_toUInt8]
    rfl
  omega

theorem isDigit_iff_toNat {c : UInt8} : isDigit c = true ↔ 48 ≤ c.toNat ∧ c.toNat ≤ 57 := by
  have h0 : '0'.toUInt8.toNat = 48 := rfl
  have h9 : '9'.toUInt8.toNat = 57 := rfl
  simp [isDigit, UInt8.le_iff_toNat_le, h0, h9]

theorem isDigit_of_mem_formatU32 {n : UInt32} {c : UInt8} (h : c ∈ formatU32 n) :
    isDigit c = true := by
  obtain ⟨d, hd, rfl⟩ := mem_formatU32 h
  rw [isDigit_iff_toNat, toNat_toUInt8 hd]
  exact Char.isDigit_iff_toNat.mp hd

/-- Reading the digits of `ds` as bytes gives the number that they denote. -/
theorem foldl_digits (ds : List Char) (hds : ∀ d ∈ ds, d.isDigit) (init : ℕ) :
    (ds.map Char.toUInt8).foldl (fun n c => 10 * n + (c.toNat - '0'.toNat)) init
      = Nat.ofDigitChars 10 ds init := by
  induction ds generalizing init with
  | nil => rfl
  | cons d ds ih =>
    have hd := hds d List.mem_cons_self
    rw [List.map_cons, List.foldl_cons, toNat_toUInt8 hd, Nat.ofDigitChars_cons]
    apply ih
    intro e he
    exact hds e (List.mem_cons_of_mem _ he)

/-- `std::from_chars` reads back what `std::format` prints. -/
theorem fromChars_formatU32 (n : UInt32) : fromChars (formatU32 n) = some n := by
  have hdigits : (formatU32 n).takeWhile isDigit = formatU32 n := by
    rw [List.takeWhile_eq_self_iff]
    intro c hc
    exact isDigit_of_mem_formatU32 hc
  have hvalue : (formatU32 n).foldl (fun n c => 10 * n + (c.toNat - '0'.toNat)) 0 = n.toNat := by
    rw [formatU32, foldl_digits, Nat.ofDigitChars_ten_toDigits]
    intro d hd
    exact Nat.isDigit_of_mem_toDigits (by omega) (by omega) hd
  have hne : formatU32 n ≠ [] := by simp [formatU32, Nat.toDigits_ne_nil]
  simp only [fromChars, hdigits, hvalue]
  rw [if_neg hne, if_pos n.toNat_lt, UInt32.ofNat_toNat]

end IACore
