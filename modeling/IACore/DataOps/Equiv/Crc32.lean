import IACore.DataOps.Crc32
import Mathlib.Tactic.ByContra

/-!
# Every path of `DataOps::crc32` is CRC-32C

Each implementation is the shared loop with its own two steps, so it is enough that a block step
shifts in the bits of the next eight bytes and a byte step those of one (`crc32Loop_eq`).  For the
hardware paths that is what the intrinsics promise.  For the tables it is a statement about the
register: entry `i` of slice `s` is where `i` stands after `8 * (s + 1)` steps (`table_eq`), and a
word is the exclusive or of its bytes, each of which comes down to bit `0` first (`steps_word`).
-/

namespace IACore

namespace DataOps

open ShiftRegister

/-! ### The tables -/

namespace Crc32Tables

/-- `crc & 1` is tested for the bit that falls out. -/
theorem and_one_ne_zero (crc : BitVec 32) : crc &&& 1 ≠ 0 ↔ crc.getLsbD 0 = true := by
  constructor
  · intro h
    by_contra h0
    apply h
    apply BitVec.eq_of_getLsbD_eq
    intro i hi
    rcases Nat.eq_zero_or_pos i with rfl | hpos
    · simpa using h0
    · simp [BitVec.getLsbD_one, show i ≠ 0 by omega]
  · intro h h0
    have hzero : (crc &&& 1).getLsbD 0 = false := by rw [h0]; rfl
    rw [BitVec.getLsbD_and, h] at hzero
    exact Bool.noConfusion hzero

theorem shift_eq (crc : BitVec 32) : shift crc = step T crc := by
  simp only [shift, step, and_one_ne_zero]
  rfl

theorem table₀_eq (i : BitVec 32) : table₀ i = steps T 8 i := by
  simp only [table₀, shift_eq, steps_succ, steps_zero]

theorem getLsbD_lowByte (x : BitVec 32) (i : ℕ) :
    (x &&& 0xFF).getLsbD i = (x.getLsbD i && decide (i < 8)) := by
  have hmask : (0xFF : BitVec 32) = (BitVec.allOnes 8).setWidth 32 := rfl
  rw [hmask, BitVec.getLsbD_and, BitVec.getLsbD_setWidth, BitVec.getLsbD_allOnes]
  by_cases hi : i < 8
  · simp [hi, show i < 32 by omega]
  · simp [hi]

/-- The low byte of the register takes its eight steps while the rest comes down. -/
theorem steps_eight (x : BitVec 32) : steps T 8 x = (x >>> 8) ^^^ steps T 8 (x &&& 0xFF) := by
  apply steps_split
  · apply BitVec.eq_of_getLsbD_eq
    intro i hi
    rw [BitVec.getLsbD_ushiftRight, getLsbD_lowByte]
    simp
  · intro i hi
    rw [getLsbD_lowByte]
    simp [hi]

theorem table_eq (slice : ℕ) (i : BitVec 32) : table slice i = steps T (8 * (slice + 1)) i := by
  induction slice with
  | zero => exact table₀_eq i
  | succ slice ih =>
    simp only [table]
    rw [ih, table₀_eq, ← steps_eight, ← steps_add, Nat.mul_succ 8 (slice + 1), Nat.add_comm]

/-- The indices that `crc32_software_slice8` takes from a word are entries of the table. -/
theorem index_lt (x : BitVec 32) : (x &&& 0xFF).toNat < 256 ∧ (x >>> 24).toNat < 256 := by
  constructor
  · rw [BitVec.toNat_and]
    exact Nat.lt_of_le_of_lt Nat.and_le_right (by decide)
  · rw [BitVec.toNat_ushiftRight, Nat.shiftRight_eq_div_pow]
    omega

/-- A word `n` bytes from the end of a block, byte by byte: the bytes above come down to bit `0`
while those below them are stepped. -/
theorem steps_word (n : ℕ) (x : BitVec 32) :
    steps T (8 * (n + 4)) x = table (n + 3) (x &&& 0xFF) ^^^ table (n + 2) ((x >>> 8) &&& 0xFF) ^^^
      table (n + 1) ((x >>> 16) &&& 0xFF) ^^^ table n (x >>> 24) := by
  have hbyte : ∀ (m : ℕ) (y : BitVec 32),
      steps T (8 * (m + 1)) y = table m (y &&& 0xFF) ^^^ steps T (8 * m) (y >>> 8) := by
    intro m y
    rw [table_eq, Nat.mul_succ, steps_add, steps_eight, steps_xor, ← steps_add, BitVec.xor_comm]
  rw [hbyte (n + 3), hbyte (n + 2), hbyte (n + 1), ← BitVec.shiftRight_add, ← BitVec.shiftRight_add,
    table_eq n, BitVec.xor_assoc, BitVec.xor_assoc]

end Crc32Tables

/-! ### The blocks -/

theorem messageBits_append (xs ys : List UInt8) :
    messageBits (xs ++ ys) = messageBits xs ++ messageBits ys := List.flatMap_append

theorem bits_readUnaligned {n : ℕ} {p : List UInt8} (h : n ≤ p.length) :
    bits (8 * n) (readUnaligned (8 * n) p) = messageBits (p.take n) := by
  have hlength : ((p.take n).map UInt8.toBitVec).length = n := by simp [h]
  have hle : 8 * ((p.take n).map UInt8.toBitVec).length ≤ 8 * n := by omega
  have hbits := bits_littleEndian hle
  rw [hlength] at hbits
  rw [readUnaligned, Nat.mul_div_cancel_left n (by omega), hbits, messageBits, List.flatMap_map]

/-- Adding a word read from the message and stepping is shifting its four bytes in. -/
theorem foldl_word (crc : BitVec 32) {p : List UInt8} (h : 4 ≤ p.length) :
    (messageBits (p.take 4)).foldl bitStep crc
      = steps Crc32Tables.T 32 (crc ^^^ readUnaligned 32 p) := by
  rw [← bits_readUnaligned h]
  apply foldl_shiftIn_bits
  apply BitVec.eq_of_getLsbD_eq
  intro i hi
  simp

theorem foldl_byte (crc : BitVec 32) (byte : UInt8) :
    (messageBits [byte]).foldl bitStep crc
      = steps Crc32Tables.T 8 (crc ^^^ byte.toBitVec.setWidth 32) := by
  have hbits : messageBits [byte] = bits 8 (byte.toBitVec.setWidth 32) := by
    rw [messageBits, List.flatMap_singleton]
    apply bits_congr
    intro i hi
    simp [show i < 32 by omega]
  rw [hbits]
  apply foldl_shiftIn_bits
  apply BitVec.eq_of_getLsbD_eq
  intro i hi
  simp

open Crc32Tables in
theorem slice8_eq (crc : BitVec 32) {p : List UInt8} (h : 8 ≤ p.length) :
    slice8 crc p = (messageBits (p.take 8)).foldl bitStep crc := by
  have hsplit : p.take 8 = p.take 4 ++ (p.drop 4).take 4 := by rw [← List.take_add]
  have h4 : 4 ≤ (p.drop 4).length := by rw [List.length_drop]; omega
  rw [hsplit, messageBits_append, List.foldl_append, foldl_word crc (by omega), foldl_word _ h4,
    steps_xor, ← steps_add]
  rw [steps_word 4 (crc ^^^ readUnaligned 32 p), steps_word 0 (readUnaligned 32 (p.drop 4))]
  simp only [slice8, BitVec.xor_assoc]

open Crc32Tables in
theorem slice1_eq (crc : BitVec 32) (byte : UInt8) :
    slice1 crc byte = (messageBits [byte]).foldl bitStep crc := by
  have hbyte : (byte.toBitVec.setWidth 32) >>> 8 = 0#32 := by
    apply BitVec.eq_of_getLsbD_eq
    intro i hi
    simp
  rw [foldl_byte, steps_eight, BitVec.ushiftRight_xor_distrib, hbyte, BitVec.xor_zero, slice1,
    table_eq]

/-! ### The loop -/

theorem crc32Loop_eq {block : BitVec 32 → List UInt8 → BitVec 32}
    {byte : BitVec 32 → UInt8 → BitVec 32}
    (hblock : ∀ crc p, 8 ≤ p.length → block crc p = (messageBits (p.take 8)).foldl bitStep crc)
    (hbyte : ∀ crc b, byte crc b = (messageBits [b]).foldl bitStep crc) (crc : BitVec 32)
    (p : List UInt8) :
    crc32Loop block byte crc p = (messageBits p).foldl bitStep crc := by
  induction crc, p using crc32Loop.induct block with
  | case1 crc p h ih =>
    rw [crc32Loop, if_pos h, ih, hblock crc p h, ← List.foldl_append, ← messageBits_append,
      List.take_append_drop]
  | case2 crc p h =>
    rw [crc32Loop, if_neg h]
    clear h
    -- the bytes that are left go in one by one
    induction p generalizing crc with
    | nil => rfl
    | cons b p ih =>
      rw [List.foldl_cons, ih, hbyte, ← List.foldl_append, ← messageBits_append]
      rfl

theorem crc32SoftwareSlice8_eq (data : List UInt8) : crc32SoftwareSlice8 data = crc32c data := by
  rw [crc32SoftwareSlice8, crc32c,
    crc32Loop_eq (fun crc p h => slice8_eq crc h) (fun crc b => slice1_eq crc b)]

/-! ### The hardware paths -/

section Intrinsics

variable {mmCrc32U8 crc32cb : BitVec 32 → BitVec 8 → BitVec 32}
  {mmCrc32U64 : BitVec 64 → BitVec 64 → BitVec 64} {crc32cd : BitVec 32 → BitVec 64 → BitVec 32}

theorem bits_chunk {p : List UInt8} (h : 8 ≤ p.length) :
    bits 64 (readUnaligned 64 p) = messageBits (p.take 8) := bits_readUnaligned h

theorem bits_byte (byte : UInt8) : bits 8 byte.toBitVec = messageBits [byte] := by
  rw [messageBits, List.flatMap_singleton]

theorem crc32X64Hw_eq
    (hU8 : ∀ crc byte, mmCrc32U8 crc byte = (bits 8 byte).foldl bitStep crc)
    (hU64 : ∀ (crc : BitVec 32) (chunk : BitVec 64), mmCrc32U64 (crc.setWidth 64) chunk
      = ((bits 64 chunk).foldl bitStep crc).setWidth 64) (data : List UInt8) :
    crc32X64Hw mmCrc32U8 mmCrc32U64 data = crc32c data := by
  rw [crc32X64Hw, crc32c, crc32Loop_eq]
  · intro crc p h
    rw [hU64, bits_chunk h, BitVec.setWidth_setWidth_of_le _ (by omega), BitVec.setWidth_eq]
  · intro crc b
    rw [hU8, bits_byte]

theorem crc32Arm64Hw_eq (hcb : ∀ crc byte, crc32cb crc byte = (bits 8 byte).foldl bitStep crc)
    (hcd : ∀ crc chunk, crc32cd crc chunk = (bits 64 chunk).foldl bitStep crc)
    (data : List UInt8) : crc32Arm64Hw crc32cb crc32cd data = crc32c data := by
  rw [crc32Arm64Hw, crc32c, crc32Loop_eq]
  · intro crc p h
    rw [hcd, bits_chunk h]
  · intro crc b
    rw [hcb, bits_byte]

/-- `DataOps::crc32` is CRC-32C on every machine. -/
theorem crc32_eq (hU8 : ∀ crc byte, mmCrc32U8 crc byte = (bits 8 byte).foldl bitStep crc)
    (hU64 : ∀ (crc : BitVec 32) (chunk : BitVec 64), mmCrc32U64 (crc.setWidth 64) chunk
      = ((bits 64 chunk).foldl bitStep crc).setWidth 64)
    (hcb : ∀ crc byte, crc32cb crc byte = (bits 8 byte).foldl bitStep crc)
    (hcd : ∀ crc chunk, crc32cd crc chunk = (bits 64 chunk).foldl bitStep crc)
    (machine : Arch) (data : List UInt8) :
    crc32 mmCrc32U8 mmCrc32U64 crc32cb crc32cd machine data = crc32c data := by
  cases machine with
  | x64 => exact crc32X64Hw_eq hU8 hU64 data
  | arm64 hardwareCRC32 =>
    cases hardwareCRC32
    · exact crc32SoftwareSlice8_eq data
    · exact crc32Arm64Hw_eq hcb hcd data
  | other => exact crc32SoftwareSlice8_eq data

/-- The three implementations return the CRC-32C of any data, where the intrinsics take one
bit-step for each bit of what they are given. -/
theorem crc32_paths_agree
    (hU8 : ∀ crc byte, mmCrc32U8 crc byte = (bits 8 byte).foldl bitStep crc)
    (hU64 : ∀ (crc : BitVec 32) (chunk : BitVec 64), mmCrc32U64 (crc.setWidth 64) chunk
      = ((bits 64 chunk).foldl bitStep crc).setWidth 64)
    (hcb : ∀ crc byte, crc32cb crc byte = (bits 8 byte).foldl bitStep crc)
    (hcd : ∀ crc chunk, crc32cd crc chunk = (bits 64 chunk).foldl bitStep crc)
    (data : List UInt8) :
    crc32SoftwareSlice8 data = crc32c data ∧
    crc32X64Hw mmCrc32U8 mmCrc32U64 data = crc32c data ∧
    crc32Arm64Hw crc32cb crc32cd data = crc32c data :=
  ⟨crc32SoftwareSlice8_eq data, crc32X64Hw_eq hU8 hU64 data, crc32Arm64Hw_eq hcb hcd data⟩

/-- Nine bytes, so that each path takes a block and a byte. -/
theorem crc32_paths_agree_nine :
    let data : List UInt8 := [49, 50, 51, 52, 53, 54, 55, 56, 57]
    crc32SoftwareSlice8 data = crc32c data ∧
    crc32X64Hw (fun crc byte => (bits 8 byte).foldl bitStep crc)
      (fun crc chunk => ((bits 64 chunk).foldl bitStep (crc.setWidth 32)).setWidth 64) data
      = crc32c data ∧
    crc32Arm64Hw (fun crc byte => (bits 8 byte).foldl bitStep crc)
      (fun crc chunk => (bits 64 chunk).foldl bitStep crc) data = crc32c data := by
  apply crc32_paths_agree
  · intro crc byte
    rfl
  · intro crc chunk
    rw [BitVec.setWidth_setWidth_of_le _ (by omega), BitVec.setWidth_eq]
  · intro crc byte
    rfl
  · intro crc chunk
    rfl

end Intrinsics

/-- The check value of CRC-32C, by the definition that the paths are compared with. -/
example : crc32c [49, 50, 51, 52, 53, 54, 55, 56, 57] = 0xE3069283 := by decide +kernel

end DataOps

end IACore
