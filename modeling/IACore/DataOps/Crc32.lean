import IACore.Library.ShiftRegister

/-!
# `DataOps::crc32`

The three implementations of the checksum and the choice between them.  They share one loop, which
takes eight bytes at a time while it can and single bytes after that, and differ in what it does
with them.  The intrinsics of the two hardware paths are parameters.
-/

namespace IACore

namespace DataOps

/-- `read_unaligned<T>` for a `T` of `width` bits, on a little-endian machine. -/
def readUnaligned (width : ℕ) (p : List UInt8) : BitVec width :=
  ShiftRegister.littleEndian width ((p.take (width / 8)).map UInt8.toBitVec)

namespace Crc32Tables

def T : BitVec 32 := 0x82F63B78

/-- One turn of the bit loop. -/
def shift (crc : BitVec 32) : BitVec 32 :=
  (crc >>> 1) ^^^ (if crc &&& 1 ≠ 0 then T else 0)

/-- `table[0][i]`. -/
def table₀ (i : BitVec 32) : BitVec 32 := shift (shift (shift (shift
  (shift (shift (shift (shift i)))))))

/-- `table[slice][i]`; the source keeps the entries with `slice < 8` and `i < 256`. -/
def table : ℕ → BitVec 32 → BitVec 32
  | 0, i => table₀ i
  | slice + 1, i =>
    let prev := table slice i
    (prev >>> 8) ^^^ table₀ (prev &&& 0xFF)

end Crc32Tables

/-- The loops of the three implementations: `block` for each eight bytes at `p`, then `byte` for
each of the fewer than eight that are left. -/
def crc32Loop (block : BitVec 32 → List UInt8 → BitVec 32) (byte : BitVec 32 → UInt8 → BitVec 32)
    (crc : BitVec 32) (p : List UInt8) : BitVec 32 :=
  if 8 ≤ p.length then crc32Loop block byte (block crc p) (p.drop 8) else p.foldl byte crc
termination_by p.length
decreasing_by simp only [List.length_drop]; omega

/-- `crc32_x64_hw`, with the intrinsics `_mm_crc32_u8` and `_mm_crc32_u64`. -/
def crc32X64Hw (mmCrc32U8 : BitVec 32 → BitVec 8 → BitVec 32)
    (mmCrc32U64 : BitVec 64 → BitVec 64 → BitVec 64) (data : List UInt8) : BitVec 32 :=
  ~~~ crc32Loop (fun crc p => (mmCrc32U64 (crc.setWidth 64) (readUnaligned 64 p)).setWidth 32)
    (fun crc byte => mmCrc32U8 crc byte.toBitVec) 0xFFFFFFFF data

/-- `crc32_arm64_hw`, with the intrinsics `__crc32cb` and `__crc32cd`. -/
def crc32Arm64Hw (crc32cb : BitVec 32 → BitVec 8 → BitVec 32)
    (crc32cd : BitVec 32 → BitVec 64 → BitVec 32) (data : List UInt8) : BitVec 32 :=
  ~~~ crc32Loop (fun crc p => crc32cd crc (readUnaligned 64 p))
    (fun crc byte => crc32cb crc byte.toBitVec) 0xFFFFFFFF data

open Crc32Tables in
/-- The eight-byte step of `crc32_software_slice8`. -/
def slice8 (crc : BitVec 32) (p : List UInt8) : BitVec 32 :=
  let term1 := crc ^^^ readUnaligned 32 p
  let term2 := readUnaligned 32 (p.drop 4)
  table 7 (term1 &&& 0xFF) ^^^ table 6 ((term1 >>> 8) &&& 0xFF) ^^^
    table 5 ((term1 >>> 16) &&& 0xFF) ^^^ table 4 (term1 >>> 24) ^^^
    table 3 (term2 &&& 0xFF) ^^^ table 2 ((term2 >>> 8) &&& 0xFF) ^^^
    table 1 ((term2 >>> 16) &&& 0xFF) ^^^ table 0 (term2 >>> 24)

open Crc32Tables in
/-- The one-byte step of `crc32_software_slice8`. -/
def slice1 (crc : BitVec 32) (byte : UInt8) : BitVec 32 :=
  (crc >>> 8) ^^^ table 0 ((crc ^^^ byte.toBitVec.setWidth 32) &&& 0xFF)

def crc32SoftwareSlice8 (data : List UInt8) : BitVec 32 :=
  ~~~ crc32Loop slice8 slice1 0xFFFFFFFF data

/-- The architecture of the build and, on ARM64, what `Platform::GetCapabilities` reports. -/
inductive Arch
  | x64
  | arm64 (hardwareCRC32 : Bool)
  | other
  deriving DecidableEq, Repr

/-- `DataOps::crc32`. -/
def crc32 (mmCrc32U8 : BitVec 32 → BitVec 8 → BitVec 32)
    (mmCrc32U64 : BitVec 64 → BitVec 64 → BitVec 64)
    (crc32cb : BitVec 32 → BitVec 8 → BitVec 32) (crc32cd : BitVec 32 → BitVec 64 → BitVec 32)
    (machine : Arch) (data : List UInt8) : BitVec 32 :=
  match machine with
  | .x64 => crc32X64Hw mmCrc32U8 mmCrc32U64 data
  | .arm64 true => crc32Arm64Hw crc32cb crc32cd data
  | .arm64 false => crc32SoftwareSlice8 data
  | .other => crc32SoftwareSlice8 data

/-! ### The bit-by-bit checksum -/

/-- One bit-step of the reflected CRC with the polynomial of CRC-32C. -/
def bitStep : BitVec 32 → Bool → BitVec 32 := ShiftRegister.shiftIn 0x82F63B78#32

/-- The bits of `data` in the order in which they are taken, the lowest bit of a byte first. -/
def messageBits (data : List UInt8) : List Bool :=
  data.flatMap fun byte => ShiftRegister.bits 8 byte.toBitVec

/-- CRC-32C by its definition. -/
def crc32c (data : List UInt8) : BitVec 32 := ~~~ (messageBits data).foldl bitStep 0xFFFFFFFF

end DataOps

end IACore
