import IACore.Text

/-!
# Hexadecimal digits

Both cases are read, upper case is written: by `Utils` from a table, by `HttpCommon` through a
stream.
-/

namespace IACore

/-- The value of a hexadecimal digit. -/
def hexValue (c : UInt8) : Option ℕ :=
  if '0'.toUInt8 ≤ c ∧ c ≤ '9'.toUInt8 then some (c.toNat - '0'.toNat)
  else if 'A'.toUInt8 ≤ c ∧ c ≤ 'F'.toUInt8 then some (c.toNat - 'A'.toNat + 10)
  else if 'a'.toUInt8 ≤ c ∧ c ≤ 'f'.toUInt8 then some (c.toNat - 'a'.toNat + 10)
  else none

def isHexDigit (c : UInt8) : Bool := (hexValue c).isSome

/-- The upper-case digits. -/
def hexDigits : Text := text "0123456789ABCDEF"

/-- A letter of the ASCII range in upper case. -/
def toUpper (c : UInt8) : UInt8 :=
  if 'a'.toUInt8 ≤ c ∧ c ≤ 'z'.toUInt8 then c - 32 else c

/-- The two digits of a byte. -/
def hexPair (b : UInt8) : Text := [hexDigits.getD (b.toNat / 16) 0, hexDigits.getD (b.toNat % 16) 0]

/-! ### Digits and their values -/

/-- What holds of every code below 256 holds of every byte. -/
theorem forall_byte {P : UInt8 → Prop} (h : ∀ n < 256, P (UInt8.ofNat n)) (c : UInt8) : P c := by
  have hc := h c.toNat c.toNat_lt
  rwa [UInt8.ofNat_toNat] at hc

theorem isHexDigit_iff {c : UInt8} :
    isHexDigit c = true ↔ c ∈ text "0123456789ABCDEFabcdef" :=
  forall_byte (P := fun c => isHexDigit c = true ↔ c ∈ text "0123456789ABCDEFabcdef")
    (by decide +kernel) c

theorem hexValue_hexDigits : ∀ n < 16, hexValue (hexDigits.getD n 0) = some n := by decide

/-- The digit of a value is the one that was read, in upper case. -/
theorem hexDigits_hexValue {c : UInt8} {n : ℕ} (h : hexValue c = some n) :
    n < 16 ∧ hexDigits.getD n 0 = toUpper c := by
  have hall : ∀ m ∈ hexValue c, m < 16 ∧ hexDigits.getD m 0 = toUpper c :=
    forall_byte (P := fun c => ∀ m ∈ hexValue c, m < 16 ∧ hexDigits.getD m 0 = toUpper c)
      (by decide +kernel) c
  exact hall n h

theorem hexDigits_mem : ∀ n < 16, hexDigits.getD n 0 ∈ hexDigits := by decide

theorem div_lt_sixteen (b : UInt8) : b.toNat / 16 < 16 := by
  have hb := b.toNat_lt
  omega

theorem mod_lt_sixteen (b : UInt8) : b.toNat % 16 < 16 := Nat.mod_lt _ (by decide)

end IACore
