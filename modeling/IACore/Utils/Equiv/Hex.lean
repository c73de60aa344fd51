import IACore.Hex
import IACore.Utils
import Mathlib.Data.List.Induction

/-!
# The hexadecimal codec is exact

`binary_to_hex_string` writes the two digits of each byte (`binaryToHexString_eq`).
`hex_string_to_binary` takes a pair of digits a turn; what it returns is read off the pairs it has
taken (`hexStringFrom_eq_ok`), and it gets to the end exactly if they are all digits.
-/

namespace IACore

namespace Utils

/-! ### Single digits -/

theorem binaryToHexString_eq (data : List UInt8) :
    binaryToHexString data = data.flatMap hexPair := by
  have hdigits : ∀ b : UInt8,
      lut.getD ((b >>> 4) &&& 0x0F).toNat 0 = hexDigits.getD (b.toNat / 16) 0 ∧
      lut.getD (b &&& 0x0F).toNat 0 = hexDigits.getD (b.toNat % 16) 0 :=
    forall_byte (by decide +kernel)
  have hfold : ∀ res : Text, data.foldl (fun (res : Text) (b : UInt8) =>
      res ++ [lut.getD ((b >>> 4) &&& 0x0F).toNat 0] ++ [lut.getD (b &&& 0x0F).toNat 0]) res =
        res ++ data.flatMap hexPair := by
    intro res
    induction data generalizing res with
    | nil => simp
    | cons b data ih =>
      rw [List.foldl_cons, ih, (hdigits b).1, (hdigits b).2, List.flatMap_cons, hexPair]
      simp
  exact hfold []

/-- The value of a character is `-1` exactly if it is no digit. -/
theorem fromHexChar_eq (c : UInt8) :
    (isHexDigit c = false ∧ fromHexChar c = -1) ∨
      ∃ n < 16, hexValue c = some n ∧ fromHexChar c = BitVec.ofNat 32 n :=
  forall_byte (P := fun c => (isHexDigit c = false ∧ fromHexChar c = -1) ∨
    ∃ n < 16, hexValue c = some n ∧ fromHexChar c = BitVec.ofNat 32 n) (by decide +kernel) c

/-- The byte of two values. -/
theorem byte_of_values : ∀ x < 16, ∀ y < 16,
    ((BitVec.ofNat 32 x <<< 4) ||| BitVec.ofNat 32 y).setWidth 8 = BitVec.ofNat 8 (16 * x + y) ∧
      BitVec.ofNat 32 x ≠ -1 := by
  decide +kernel

/-! ### The loop of `hex_string_to_binary` -/

variable {out : List UInt8} {high low : UInt8} {hex : Text}

/-- A pair of digits is a byte, which is written as these digits in upper case. -/
theorem hexStringFrom_of_digits (out : List UInt8) (hex : Text) (hhigh : isHexDigit high = true)
    (hlow : isHexDigit low = true) :
    ∃ b, hexPair b = [toUpper high, toUpper low] ∧
      hexStringFrom out (high :: low :: hex) = hexStringFrom (out ++ [b]) hex := by
  obtain ⟨x, hx, hxvalue, hxchar⟩ : ∃ x < 16, hexValue high = some x ∧
      fromHexChar high = BitVec.ofNat 32 x := (fromHexChar_eq high).resolve_left (by simp [hhigh])
  obtain ⟨y, hy, hyvalue, hychar⟩ : ∃ y < 16, hexValue low = some y ∧
      fromHexChar low = BitVec.ofNat 32 y := (fromHexChar_eq low).resolve_left (by simp [hlow])
  obtain ⟨hbyte, hxne⟩ := byte_of_values x hx y hy
  have hyne := (byte_of_values y hy y hy).2
  refine ⟨⟨BitVec.ofNat 8 (16 * x + y)⟩, ?_, ?_⟩
  · have hnat : (UInt8.ofBitVec (BitVec.ofNat 8 (16 * x + y))).toNat = 16 * x + y :=
      Nat.mod_eq_of_lt (by omega)
    rw [hexPair, hnat, show (16 * x + y) / 16 = x by omega, show (16 * x + y) % 16 = y by omega,
      (hexDigits_hexValue hxvalue).2, (hexDigits_hexValue hyvalue).2]
  · rw [hexStringFrom, hxchar, hychar, if_neg (not_or_intro hxne hyne), hbyte]

theorem hexStringFrom_of_not_digits (h : isHexDigit high = false ∨ isHexDigit low = false) :
    hexStringFrom out (high :: low :: hex) = .error "Invalid hex character found" := by
  have hminus : ∀ c, isHexDigit c = false → fromHexChar c = -1 := by
    intro c hc
    rcases fromHexChar_eq c with ⟨-, hvalue⟩ | ⟨n, -, hvalue, -⟩
    · exact hvalue
    · rw [isHexDigit, hvalue] at hc
      cases hc
  rw [hexStringFrom, if_pos (h.imp (hminus high) (hminus low))]

/-- Digits in pairs are read to the end. -/
theorem hexStringFrom_digits (out : List UInt8) (heven : hex.length % 2 = 0)
    (hdigits : ∀ c ∈ hex, isHexDigit c = true) :
    ∃ bytes, hexStringFrom out hex = .ok (out ++ bytes) ∧
      bytes.flatMap hexPair = hex.map toUpper := by
  induction hex using List.twoStepInduction generalizing out with
  | nil => exact ⟨[], by rw [hexStringFrom, List.append_nil]; nofun, rfl⟩
  | singleton c => cases heven
  | cons_cons high low hex ih _ =>
    obtain ⟨b, hb, hturn⟩ := hexStringFrom_of_digits out hex
      (hdigits high (by simp)) (hdigits low (by simp))
    have hrest : hex.length % 2 = 0 := by
      rw [List.length_cons, List.length_cons] at heven
      omega
    obtain ⟨bytes, hok, hbytes⟩ := ih (out ++ [b]) hrest fun c hc =>
      hdigits c (by simp [hc])
    refine ⟨b :: bytes, ?_, ?_⟩
    · rw [hturn, hok, List.append_assoc, List.singleton_append]
    · rw [List.flatMap_cons, hb, hbytes]
      rfl

/-- Only digits are. -/
theorem isHexDigit_of_hexStringFrom {x : List UInt8} (heven : hex.length % 2 = 0)
    (hok : hexStringFrom out hex = .ok x) : ∀ c ∈ hex, isHexDigit c = true := by
  induction hex using List.twoStepInduction generalizing out with
  | nil => nofun
  | singleton c => cases heven
  | cons_cons high low hex ih _ =>
    by_cases hpair : isHexDigit high = false ∨ isHexDigit low = false
    · rw [hexStringFrom_of_not_digits hpair] at hok
      cases hok
    · rw [not_or, Bool.not_eq_false, Bool.not_eq_false] at hpair
      obtain ⟨b, -, hturn⟩ := hexStringFrom_of_digits out hex hpair.1 hpair.2
      rw [hturn] at hok
      have hrest : hex.length % 2 = 0 := by
        rw [List.length_cons, List.length_cons] at heven
        omega
      intro c hc
      rcases List.mem_cons.mp hc with rfl | hc
      · exact hpair.1
      · rcases List.mem_cons.mp hc with rfl | hc
        · exact hpair.2
        · exact ih hrest hok c hc

/-! ### Both directions -/

theorem hexPair_digits (b : UInt8) : (hexPair b).map toUpper = hexPair b ∧
    ∀ c ∈ hexPair b, isHexDigit c = true :=
  forall_byte (P := fun b => (hexPair b).map toUpper = hexPair b ∧
    ∀ c ∈ hexPair b, isHexDigit c = true) (by decide +kernel) b

theorem hexPair_inj {b b' : UInt8} (h : hexPair b = hexPair b') : b = b' := by
  have hvalue : ∀ b : UInt8,
      (hexPair b).map hexValue = [some (b.toNat / 16), some (b.toNat % 16)] :=
    forall_byte (by decide +kernel)
  have hpair := congrArg (List.map hexValue) h
  simp only [hvalue, List.cons.injEq, Option.some.injEq] at hpair
  apply UInt8.toNat_inj.mp
  omega

/-- The pairs of bytes are read back. -/
theorem hexStringFrom_flatMap_hexPair (data : List UInt8) :
    hexStringFrom out (data.flatMap hexPair) = .ok (out ++ data) := by
  induction data generalizing out with
  | nil => rw [List.flatMap_nil, hexStringFrom, List.append_nil]; nofun
  | cons b data ih =>
    obtain ⟨hupper, hdigits⟩ := hexPair_digits b
    obtain ⟨high, low, hpair⟩ : ∃ high low, hexPair b = [high, low] := ⟨_, _, rfl⟩
    rw [hpair] at hupper hdigits
    obtain ⟨b', hb', hturn⟩ := hexStringFrom_of_digits out (data.flatMap hexPair)
      (hdigits high (by simp)) (hdigits low (by simp))
    have hsame : b' = b := hexPair_inj (hb'.trans (hupper.trans hpair.symm))
    rw [List.flatMap_cons, hpair, List.cons_append, List.cons_append, List.nil_append, hturn, ih,
      hsame, List.append_assoc, List.singleton_append]

theorem flatMap_hexPair_length (data : List UInt8) :
    (data.flatMap hexPair).length = 2 * data.length := by
  induction data with
  | nil => rfl
  | cons b data ih =>
    rw [List.flatMap_cons, List.length_append, ih, List.length_cons]
    show 2 + _ = _
    omega

/-- The bytes of a written string are read back; a string is read exactly if its length is even and
all its characters are digits, and what is read is then written as the string in upper case. -/
theorem hexCodec_exact :
    (∀ x : List UInt8, hexStringToBinary (binaryToHexString x) = .ok x) ∧
    ∀ s : Text,
      ((∃ x, hexStringToBinary s = .ok x) ↔
        s.length % 2 = 0 ∧ ∀ c ∈ s, c ∈ text "0123456789ABCDEFabcdef") ∧
      ∀ x, hexStringToBinary s = .ok x → binaryToHexString x = s.map toUpper := by
  have heven : ∀ s : Text, s.length % 2 = 0 → hexStringToBinary s = hexStringFrom [] s := by
    intro s hs
    rw [hexStringToBinary, if_neg (not_not_intro hs)]
  have hsuccess : ∀ (s : Text) x, hexStringToBinary s = .ok x → s.length % 2 = 0 ∧
      ∀ c ∈ s, isHexDigit c = true := by
    intro s x hok
    by_cases hs : s.length % 2 = 0
    · rw [heven s hs] at hok
      exact ⟨hs, isHexDigit_of_hexStringFrom hs hok⟩
    · rw [hexStringToBinary, if_pos hs] at hok
      cases hok
  refine ⟨?_, fun s => ⟨⟨?_, ?_⟩, ?_⟩⟩
  · intro x
    rw [binaryToHexString_eq, heven _ (by rw [flatMap_hexPair_length]; omega),
      hexStringFrom_flatMap_hexPair, List.nil_append]
  · rintro ⟨x, hok⟩
    obtain ⟨hs, hdigits⟩ := hsuccess s x hok
    exact ⟨hs, fun c hc => isHexDigit_iff.mp (hdigits c hc)⟩
  · rintro ⟨hs, hdigits⟩
    obtain ⟨bytes, hok, -⟩ := hexStringFrom_digits [] hs fun c hc =>
      isHexDigit_iff.mpr (hdigits c hc)
    exact ⟨bytes, (heven s hs).trans hok⟩
  · intro x hok
    obtain ⟨hs, hdigits⟩ := hsuccess s x hok
    obtain ⟨bytes, hbytes, hupper⟩ := hexStringFrom_digits [] hs hdigits
    rw [heven s hs, hbytes, List.nil_append] at hok
    rw [binaryToHexString_eq, ← Except.ok.inj hok, hupper]

/- The literals of the unit test. -/
example : binaryToHexString [0xDE, 0xAD, 0xBE, 0xEF, 0x00, 0xFF] = text "DEADBEEF00FF" := by decide

end Utils

end IACore
