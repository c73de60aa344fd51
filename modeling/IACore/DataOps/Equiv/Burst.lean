import IACore.DataOps.Equiv.Crc32

/-!
# What `DataOps::crc32` detects

Changes to a message of a fixed length that leave the checksum alone, whatever machine it is
computed on.  The polynomial `T` has its highest bit set, so such a change cannot lie within
thirty-two bits in a row, four bytes for instance; and it has an odd number of bits set, so such a
change is one in an even number of bits.
-/

namespace IACore

namespace DataOps

open ShiftRegister

theorem length_messageBits (data : List UInt8) : (messageBits data).length = 8 * data.length := by
  induction data with
  | nil => rfl
  | cons byte data ih =>
    have hsplit : messageBits (byte :: data) = bits 8 byte.toBitVec ++ messageBits data := rfl
    rw [hsplit, List.length_append, length_bits, ih, List.length_cons]
    omega

theorem messageBits_injective : Function.Injective messageBits := by
  intro data data' h
  have hlength : data.length = data'.length := by
    have h8 := congrArg List.length h
    rw [length_messageBits, length_messageBits] at h8
    omega
  induction data generalizing data' with
  | nil => exact (List.length_eq_zero_iff.mp hlength.symm).symm
  | cons byte data ih =>
    rcases data' with _ | ⟨byte', data'⟩
    · simp at hlength
    · have hsplit : bits 8 byte.toBitVec ++ messageBits data
          = bits 8 byte'.toBitVec ++ messageBits data' := h
      obtain ⟨hbits, hrest⟩ := List.append_inj hsplit (by simp)
      have hbyte : byte.toBitVec = byte'.toBitVec := by
        apply BitVec.eq_of_getLsbD_eq
        intro i hi
        have hbit : (bits 8 byte.toBitVec)[i]? = (bits 8 byte'.toBitVec)[i]? := by rw [hbits]
        rw [getElem?_bits, getElem?_bits, if_pos hi, if_pos hi] at hbit
        exact Option.some.inj hbit
      rw [UInt8.toBitVec_inj.mp hbyte, ih hrest (by simpa using hlength)]

theorem msb_T : Crc32Tables.T.msb = true := by decide

theorem parity_T : parity (bits 32 Crc32Tables.T) = true := by decide

/-- A message is what lies before a window, in it and after it. -/
theorem eq_window (bs : List Bool) (first width : ℕ) :
    bs = bs.take first ++ (bs.drop first).take width ++ bs.drop (first + width) := by
  rw [List.append_assoc, ← List.drop_drop, List.take_append_drop, List.take_append_drop]

theorem crc32c_burst {data data' : List UInt8} (hlength : data.length = data'.length)
    (h : crc32c data = crc32c data') {first : ℕ}
    (houtside : ∀ i, i < first ∨ first + 32 ≤ i →
      (messageBits data)[i]? = (messageBits data')[i]?) :
    data = data' := by
  have hregister : (messageBits data).foldl bitStep 0xFFFFFFFF
      = (messageBits data').foldl bitStep 0xFFFFFFFF := BitVec.not_inj.mp h
  have hbefore : (messageBits data).take first = (messageBits data').take first := by
    apply List.ext_getElem?
    intro i
    rw [List.getElem?_take, List.getElem?_take]
    split
    · exact houtside i (Or.inl ‹_›)
    · rfl
  have hafter : (messageBits data).drop (first + 32) = (messageBits data').drop (first + 32) := by
    apply List.ext_getElem?
    intro i
    rw [List.getElem?_drop, List.getElem?_drop]
    exact houtside _ (Or.inr (by omega))
  have hbits : (messageBits data).length = (messageBits data').length := by
    rw [length_messageBits, length_messageBits, hlength]
  apply messageBits_injective
  rw [eq_window (messageBits data) first 32, eq_window (messageBits data') first 32, hbefore,
    hafter] at hregister ⊢
  rw [burst_eq msb_T _ _ hregister]
  · simp [hbits]
  · exact List.length_take_le _ _

theorem crc32c_parity {data data' : List UInt8} (hlength : data.length = data'.length)
    (h : crc32c data = crc32c data') :
    Even (((messageBits data).zipWith xor (messageBits data')).count true) := by
  have hregister : (messageBits data).foldl bitStep 0xFFFFFFFF
      = (messageBits data').foldl bitStep 0xFFFFFFFF := BitVec.not_inj.mp h
  have hmessage := parity_foldl_shiftIn parity_T 0xFFFFFFFF
  have hparity : (parity (bits 32 (0xFFFFFFFF : BitVec 32)) ^^ parity (messageBits data))
      = (parity (bits 32 (0xFFFFFFFF : BitVec 32)) ^^ parity (messageBits data')) := by
    rw [← hmessage, ← hmessage]
    exact congrArg (fun x => parity (bits 32 x)) hregister
  rw [← parity_eq_false_iff, parity_zipWith_xor, Bool.xor_right_inj.mp hparity, Bool.xor_self]
  rw [length_messageBits, length_messageBits, hlength]

variable {mmCrc32U8 crc32cb : BitVec 32 → BitVec 8 → BitVec 32}
  {mmCrc32U64 : BitVec 64 → BitVec 64 → BitVec 64} {crc32cd : BitVec 32 → BitVec 64 → BitVec 32}

/-- Two messages of one length with the same checksum, each taken on any machine, differ in an even
number of bits; and when they agree outside thirty-two bits in a row they are the same message. -/
theorem crc32_detects (hU8 : ∀ crc byte, mmCrc32U8 crc byte = (bits 8 byte).foldl bitStep crc)
    (hU64 : ∀ (crc : BitVec 32) (chunk : BitVec 64), mmCrc32U64 (crc.setWidth 64) chunk
      = ((bits 64 chunk).foldl bitStep crc).setWidth 64)
    (hcb : ∀ crc byte, crc32cb crc byte = (bits 8 byte).foldl bitStep crc)
    (hcd : ∀ crc chunk, crc32cd crc chunk = (bits 64 chunk).foldl bitStep crc)
    {machine machine' : Arch} {data data' : List UInt8} (hlength : data.length = data'.length)
    (h : crc32 mmCrc32U8 mmCrc32U64 crc32cb crc32cd machine data
      = crc32 mmCrc32U8 mmCrc32U64 crc32cb crc32cd machine' data') :
    Even (((messageBits data).zipWith xor (messageBits data')).count true) ∧
    ∀ first, (∀ i, i < first ∨ first + 32 ≤ i →
      (messageBits data)[i]? = (messageBits data')[i]?) → data = data' := by
  rw [crc32_eq hU8 hU64 hcb hcd, crc32_eq hU8 hU64 hcb hcd] at h
  constructor
  · exact crc32c_parity hlength h
  · intro first houtside
    exact crc32c_burst hlength h houtside

/-- Five bytes with the thirty-three bits of the polynomial, on a machine with the instructions, and
five zeros on one without: the checksums are the same, and one bit less would tell them apart. -/
theorem crc32_detects_polynomial :
    let data : List UInt8 := [0xF1, 0x76, 0xEC, 0x05, 0x01]
    let data' : List UInt8 := [0, 0, 0, 0, 0]
    Even (((messageBits data).zipWith xor (messageBits data')).count true) ∧
    ∀ first, (∀ i, i < first ∨ first + 32 ≤ i →
      (messageBits data)[i]? = (messageBits data')[i]?) → data = data' := by
  have hU8 : ∀ (crc : BitVec 32) (byte : BitVec 8),
      (bits 8 byte).foldl bitStep crc = (bits 8 byte).foldl bitStep crc := fun _ _ => rfl
  have hU64 : ∀ (crc : BitVec 32) (chunk : BitVec 64),
      ((bits 64 chunk).foldl bitStep ((crc.setWidth 64).setWidth 32)).setWidth 64
        = ((bits 64 chunk).foldl bitStep crc).setWidth 64 := by
    intro crc chunk
    rw [BitVec.setWidth_setWidth_of_le _ (by omega), BitVec.setWidth_eq]
  have hcd : ∀ (crc : BitVec 32) (chunk : BitVec 64),
      (bits 64 chunk).foldl bitStep crc = (bits 64 chunk).foldl bitStep crc := fun _ _ => rfl
  intro data data'
  have hsame : crc32 (fun crc byte => (bits 8 byte).foldl bitStep crc)
      (fun crc chunk => ((bits 64 chunk).foldl bitStep (crc.setWidth 32)).setWidth 64)
      (fun crc byte => (bits 8 byte).foldl bitStep crc)
      (fun crc chunk => (bits 64 chunk).foldl bitStep crc) .x64 data
      = crc32 (fun crc byte => (bits 8 byte).foldl bitStep crc)
        (fun crc chunk => ((bits 64 chunk).foldl bitStep (crc.setWidth 32)).setWidth 64)
        (fun crc byte => (bits 8 byte).foldl bitStep crc)
        (fun crc chunk => (bits 64 chunk).foldl bitStep crc) .other data' := by
    rw [crc32_eq hU8 hU64 hU8 hcd, crc32_eq hU8 hU64 hU8 hcd]
    decide +kernel
  exact crc32_detects hU8 hU64 hU8 hcd rfl hsame

end DataOps

end IACore
