import IACore.StringOps

/-!
# Base64 as bit strings

The encoder and the decoder are compared with the bit string between them.  The decoder has turned
the bits of the letters it has taken into the octets of `result`, except for those that wait in
`tmp_buf` (`Base64Decoder.Spells`), and what follows the loop emits the octets that are complete
(`decodeBase64_eq`).  A turn of the encoder spells the bits of its bytes, with zeros up to a whole
letter (`encodeBase64_encodes`), so decoding gives the bytes back (`decodeBase64_encodeBase64`).
-/

namespace IACore

namespace StringOps

open BitString

/-! ### The alphabet -/

theorem base64CharTable_length : base64CharTable.length = 64 := by decide

/-- The table by its ranges. -/
theorem base64CharTable_eq : base64CharTable =
    (List.range' 65 26 ++ List.range' 97 26 ++ List.range' 48 10 ++ [43, 47]).map UInt8.ofNat := by
  decide

/-- The letter at a place, and its place and value. -/
theorem table_letter : ∀ k < 64, base64CharTable.getD k 0 ∈ base64CharTable ∧
    base64CharTable.idxOf (base64CharTable.getD k 0) = k ∧
    getBase64Index (base64CharTable.getD k 0) = BitVec.ofNat 8 k := by
  rw [base64CharTable_eq]
  decide

theorem isBase64_iff {c : UInt8} : isBase64 c = true ↔ c ∈ base64CharTable := by
  have hranges : isBase64 c = true ↔ 65 ≤ c.toNat ∧ c.toNat ≤ 90 ∨ 97 ≤ c.toNat ∧ c.toNat ≤ 122 ∨
      48 ≤ c.toNat ∧ c.toNat ≤ 57 ∨ c.toNat = 43 ∨ c.toNat = 47 := by
    simp only [isBase64, Bool.or_eq_true, Bool.and_eq_true, decide_eq_true_eq,
      UInt8.le_iff_toNat_le, ← UInt8.toNat_inj, or_assoc]
    rfl
  rw [hranges, base64CharTable_eq, List.mem_map]
  simp only [List.mem_append, List.mem_range'_1, List.mem_cons, List.not_mem_nil, or_false]
  constructor
  · intro hc
    exact ⟨c.toNat, by omega, UInt8.ofNat_toNat⟩
  · rintro ⟨n, hn, rfl⟩
    have hlt : n < UInt8.size := by
      show n < 256
      omega
    rw [UInt8.toNat_ofNat_of_lt' hlt]
    omega

theorem getBase64Index_eq {c : UInt8} (h : c ∈ base64CharTable) :
    getBase64Index c = BitVec.ofNat 8 (base64CharTable.idxOf c) := by
  have hlt : base64CharTable.idxOf c < base64CharTable.length := List.idxOf_lt_length_of_mem h
  have hletter : base64CharTable.getD (base64CharTable.idxOf c) 0 = c := by
    rw [List.getD_eq_getElem _ _ hlt, List.getElem_idxOf]
  have hvalue := (table_letter _ (base64CharTable_length ▸ hlt)).2.2
  rwa [hletter] at hvalue

theorem padding_not_mem : '='.toUInt8 ∉ base64CharTable := by decide

/-- The six bits of a letter, from the value that the decoder finds. -/
theorem sextet_eq {c : UInt8} (h : c ∈ base64CharTable) : sextet c = bits 6 (getBase64Index c) := by
  rw [sextet, getBase64Index_eq h]
  apply bits_congr
  intro i hi
  rw [BitVec.getLsbD_ofNat, BitVec.getLsbD_ofNat]
  simp [hi, show i < 8 by omega]

/-- The value of a letter has no further bits. -/
theorem getLsbD_getBase64Index {c : UInt8} (h : c ∈ base64CharTable) {i : ℕ} (hi : 6 ≤ i) :
    (getBase64Index c).getLsbD i = false := by
  have hlt : base64CharTable.idxOf c < 2 ^ 6 := List.idxOf_lt_length_of_mem h
  rw [getBase64Index_eq h, BitVec.getLsbD_ofNat,
    Nat.testBit_lt_two_pow (hlt.trans_le (Nat.pow_le_pow_right (by decide) hi)), Bool.and_false]

@[simp] theorem sextets_length (p : Text) : (p.flatMap sextet).length = 6 * p.length := by
  induction p with
  | nil => rfl
  | cons c p ih =>
    rw [List.flatMap_cons, List.length_append, ih, sextet, bits_length, List.length_cons]
    omega

/-! ### Octets -/

@[simp] theorem octetBits_length (bytes : List UInt8) :
    (bytes.flatMap octetBits).length = 8 * bytes.length := by
  induction bytes with
  | nil => rfl
  | cons b bytes ih =>
    rw [List.flatMap_cons, List.length_append, ih, octetBits, bits_length, List.length_cons]
    omega

/-- The octets of bytes come back, whatever follows. -/
theorem octets_flatMap_append (bytes : List UInt8) (rest : List Bool) :
    octets (bytes.flatMap octetBits ++ rest) = bytes ++ octets rest := by
  have hwords : bytes.flatMap octetBits = (bytes.map UInt8.toBitVec).flatMap (bits 8) := by
    rw [List.flatMap_map]
    rfl
  rw [octets, hwords, words_flatMap_bits_append (by decide), List.map_append, List.map_map]
  congr 1
  exact List.map_id bytes

theorem octets_of_short {bs : List Bool} (h : bs.length < 8) : octets bs = [] := by
  rw [octets, words_of_short h]
  rfl

/-- Fewer bits than an octet are dropped. -/
theorem octets_append_short (bytes : List UInt8) {rest : List Bool} (h : rest.length < 8) :
    octets (bytes.flatMap octetBits ++ rest) = bytes := by
  rw [octets_flatMap_append, octets_of_short h, List.append_nil]

theorem octets_length (bs : List Bool) : (octets bs).length = bs.length / 8 := by
  rw [octets, List.length_map, words_length]

namespace Base64Decoder

/-! ### Four values -/

variable (n0 n1 n2 n3 : BitVec 8)

/-- The first two values spell a byte and leave four bits. -/
theorem bits_byte0 : bits 6 n0 ++ bits 6 n1 = octetBits ⟨byte0 n0 n1⟩ ++ bits 4 n1 := by
  simp [octetBits, bits, byte0]

theorem bits_byte1 : bits 4 n1 ++ bits 6 n2 = octetBits ⟨byte1 n1 n2⟩ ++ bits 2 n2 := by
  simp [octetBits, bits, byte1]

theorem bits_byte2 (h : ∀ i, 6 ≤ i → n3.getLsbD i = false) :
    bits 2 n2 ++ bits 6 n3 = octetBits ⟨byte2 n2 n3⟩ := by
  have h6 : n3[6] = false := h 6 (by omega)
  have h7 : n3[7] = false := h 7 (by omega)
  simp [octetBits, bits, byte2, h6, h7]

variable {σ : Base64Decoder} {bs : List Bool} {c : UInt8}

/-- The bits of four letters. -/
theorem sextets_eq {c0 c1 c2 c3 : UInt8} (h : ∀ c ∈ [c0, c1, c2, c3], c ∈ base64CharTable) :
    [c0, c1, c2, c3].flatMap sextet =
      [⟨byte0 (getBase64Index c0) (getBase64Index c1)⟩,
        ⟨byte1 (getBase64Index c1) (getBase64Index c2)⟩,
        ⟨byte2 (getBase64Index c2) (getBase64Index c3)⟩].flatMap octetBits := by
  simp only [List.flatMap_cons, List.flatMap_nil, List.append_nil]
  rw [sextet_eq (h c0 (by simp)), sextet_eq (h c1 (by simp)), sextet_eq (h c2 (by simp)),
    sextet_eq (h c3 (by simp)), ← List.append_assoc, bits_byte0, List.append_assoc,
    ← List.append_assoc (bits 4 _), bits_byte1, List.append_assoc, bits_byte2 _ _ fun i hi =>
      getLsbD_getBase64Index (h c3 (by simp)) hi]

/-! ### The loop -/

/-- The letters taken so far spell `bs`: `result` has its octets, `tmp_buf` the letters since. -/
structure Spells (σ : Base64Decoder) (bs : List Bool) : Prop where
  lt : σ.i < 4
  length : σ.tmpBuf.length = 4
  letters : ∀ c ∈ σ.tmpBuf.take σ.i, c ∈ base64CharTable
  bits_eq : σ.result.flatMap octetBits ++ (σ.tmpBuf.take σ.i).flatMap sextet = bs

theorem Spells.start : Spells start [] where
  lt := by decide
  length := rfl
  letters := nofun
  bits_eq := rfl

theorem take_set_succ {xs : List UInt8} {i : ℕ} (hi : i < xs.length) (c : UInt8) :
    (xs.set i c).take (i + 1) = xs.take i ++ [c] := by
  rw [List.take_add_one, List.take_set_of_le (le_refl i), List.getElem?_set_self hi]
  rfl

/-- A letter adds its six bits; the fourth one completes three octets. -/
theorem Spells.take (h : Spells σ bs) (hc : c ∈ base64CharTable) :
    Spells (σ.take c) (bs ++ sextet c) := by
  have hlt := h.lt
  have hset : (σ.tmpBuf.set σ.i c).length = 4 := by rw [List.length_set, h.length]
  have htake : (σ.tmpBuf.set σ.i c).take (σ.i + 1) = σ.tmpBuf.take σ.i ++ [c] :=
    take_set_succ (by rw [h.length]; exact hlt) c
  have hletters : ∀ d ∈ (σ.tmpBuf.set σ.i c).take (σ.i + 1), d ∈ base64CharTable := by
    intro d hd
    rw [htake] at hd
    rcases List.mem_append.mp hd with hold | hnew
    · exact h.letters d hold
    · exact List.mem_singleton.mp hnew ▸ hc
  have hbits : σ.result.flatMap octetBits ++
      ((σ.tmpBuf.set σ.i c).take (σ.i + 1)).flatMap sextet = bs ++ sextet c := by
    rw [htake, List.flatMap_append, ← List.append_assoc, h.bits_eq]
    simp
  unfold Base64Decoder.take
  by_cases hfour : σ.i + 1 = 4
  · simp only [hfour, if_true]
    rw [hfour, List.take_of_length_le hset.le] at hletters hbits
    refine ⟨Nat.succ_pos 3, hset, nofun, ?_⟩
    obtain ⟨c0, c1, c2, c3, hbuf⟩ := List.length_eq_four.mp hset
    rw [hbuf] at hletters hbits ⊢
    rw [sextets_eq hletters] at hbits
    rw [List.flatMap_append, List.take_zero, List.flatMap_nil, List.append_nil]
    exact hbits
  · simp only [hfour, if_false]
    have hlt' : σ.i + 1 < 4 := by omega
    exact ⟨hlt', hset, hletters, hbits⟩

/-- The loop takes the letters up to the first character that is none. -/
theorem Spells.run (h : Spells σ bs) (data : Text) :
    Spells (σ.run data) (bs ++ (data.takeWhile (· ∈ base64CharTable)).flatMap sextet) := by
  induction data generalizing σ bs with
  | nil => simpa [Base64Decoder.run] using h
  | cons c data ih =>
    by_cases hc : c ∈ base64CharTable
    · have hpadding : c ≠ '='.toUInt8 := fun heq => padding_not_mem (heq ▸ hc)
      have hbase : (!isBase64 c) = false := by rw [isBase64_iff.mpr hc]; rfl
      rw [Base64Decoder.run, if_neg hpadding, hbase, if_neg Bool.false_ne_true,
        List.takeWhile_cons_of_pos (by simpa using hc), List.flatMap_cons, ← List.append_assoc]
      exact ih (h.take hc)
    · have hbase : isBase64 c = false := Bool.eq_false_iff.mpr fun h => hc (isBase64_iff.mp h)
      have hstop : σ.run (c :: data) = σ := by
        rw [Base64Decoder.run, hbase, Bool.not_false, if_pos rfl, ite_self]
      rw [hstop, List.takeWhile_cons_of_neg (by simpa using hc)]
      simpa using h

/-! ### What follows the loop -/

theorem octets_two {c0 c1 : UInt8} (h : ∀ c ∈ [c0, c1], c ∈ base64CharTable) :
    octets ([c0, c1].flatMap sextet) = [⟨byte0 (getBase64Index c0) (getBase64Index c1)⟩] := by
  have hbits : [c0, c1].flatMap sextet =
      [⟨byte0 (getBase64Index c0) (getBase64Index c1)⟩].flatMap octetBits ++
        bits 4 (getBase64Index c1) := by
    simp only [List.flatMap_cons, List.flatMap_nil, List.append_nil]
    rw [sextet_eq (h c0 (by simp)), sextet_eq (h c1 (by simp)), bits_byte0]
  rw [hbits, octets_append_short _ (by simp)]

theorem octets_three {c0 c1 c2 : UInt8} (h : ∀ c ∈ [c0, c1, c2], c ∈ base64CharTable) :
    octets ([c0, c1, c2].flatMap sextet) =
      [⟨byte0 (getBase64Index c0) (getBase64Index c1)⟩,
        ⟨byte1 (getBase64Index c1) (getBase64Index c2)⟩] := by
  have hbits : [c0, c1, c2].flatMap sextet =
      [⟨byte0 (getBase64Index c0) (getBase64Index c1)⟩,
        ⟨byte1 (getBase64Index c1) (getBase64Index c2)⟩].flatMap octetBits ++
        bits 2 (getBase64Index c2) := by
    simp only [List.flatMap_cons, List.flatMap_nil, List.append_nil]
    rw [sextet_eq (h c0 (by simp)), sextet_eq (h c1 (by simp)), sextet_eq (h c2 (by simp)),
      ← List.append_assoc, bits_byte0, List.append_assoc, bits_byte1, List.append_assoc]
  rw [hbits, octets_append_short _ (by simp)]

/-- The octets that are complete are emitted, the other bits dropped. -/
theorem Spells.finish (h : Spells σ bs) : σ.finish = octets bs := by
  obtain ⟨result, i, tmpBuf⟩ := σ
  obtain ⟨hlt, hlength, hletters, hbits⟩ := h
  obtain ⟨c0, c1, c2, c3, rfl⟩ := List.length_eq_four.mp hlength
  dsimp only at hlt hletters hbits
  rw [← hbits, octets_flatMap_append]
  have hcases : i = 0 ∨ i = 1 ∨ i = 2 ∨ i = 3 := by omega
  rcases hcases with rfl | rfl | rfl | rfl
  · rw [octets_of_short (by simp)]
    exact (List.append_nil result).symm
  · -- six bits are no octet
    rw [octets_of_short (by simp [sextet])]
    exact (List.append_nil result).symm
  · have htwo := octets_two hletters
    exact (congrArg (result ++ ·) htwo).symm
  · have hthree := octets_three hletters
    have happend := List.append_assoc result
      [⟨byte0 (getBase64Index c0) (getBase64Index c1)⟩]
      [⟨byte1 (getBase64Index c1) (getBase64Index c2)⟩]
    exact happend.trans (congrArg (result ++ ·) hthree).symm

end Base64Decoder

/-- For every text, `decode_base64` returns the whole octets of the bit string that its longest
prefix of letters spells; the rest of the text does not matter. -/
theorem decodeBase64_eq (s : Text) :
    let p := s.takeWhile (· ∈ base64CharTable)
    decodeBase64 s = octets (p.flatMap sextet) ∧ (decodeBase64 s).length = 6 * p.length / 8 := by
  intro p
  have heq : decodeBase64 s = octets (p.flatMap sextet) :=
    (Base64Decoder.Spells.start.run s).finish
  refine ⟨heq, ?_⟩
  rw [heq, octets_length, sextets_length]

/- The text of the unit test. -/
example : decodeBase64 (text "SGVsbG8gV29ybGQ=") = text "Hello World" := by decide

/-! ### The encoder's letters -/

theorem index_lt (x : BitVec 32) : (x &&& 0x3F).toNat < 64 := by
  rw [BitVec.toNat_and]
  exact Nat.lt_of_le_of_lt Nat.and_le_right (by decide)

theorem letter_mem (x : BitVec 32) : letter x ∈ base64CharTable :=
  (table_letter _ (index_lt x)).1

theorem letters_mem (words : List (BitVec 32)) : ∀ c ∈ words.map letter, c ∈ base64CharTable := by
  intro c hc
  obtain ⟨x, -, rfl⟩ := List.mem_map.mp hc
  exact letter_mem x

theorem sextet_letter (x : BitVec 32) : sextet (letter x) = bits 6 x := by
  rw [sextet, letter, (table_letter _ (index_lt x)).2.1]
  apply bits_congr
  intro i hi
  have hmask : (0x3F : BitVec 32) = (BitVec.allOnes 6).setWidth 32 := rfl
  rw [BitVec.getLsbD_ofNat, BitVec.testBit_toNat, BitVec.getLsbD_and, hmask,
    BitVec.getLsbD_setWidth, BitVec.getLsbD_allOnes]
  simp [hi, show i < 32 by omega]

/-- The bits of the first letters of a turn. -/
theorem sextets_two (t : BitVec 32) :
    [letter (t >>> 18), letter (t >>> 12)].flatMap sextet = bits 12 (t >>> 12) := by
  have h := bits_add 6 6 (t >>> 12)
  rw [← BitVec.shiftRight_add] at h
  simp [sextet_letter, h]

theorem sextets_three (t : BitVec 32) :
    [letter (t >>> 18), letter (t >>> 12), letter (t >>> 6)].flatMap sextet
      = bits 18 (t >>> 6) := by
  have h := bits_add 12 6 (t >>> 6)
  rw [← BitVec.shiftRight_add, ← sextets_two, ← sextet_letter] at h
  rw [h]
  simp

theorem sextets_four (t : BitVec 32) :
    [letter (t >>> 18), letter (t >>> 12), letter (t >>> 6), letter t].flatMap sextet
      = bits 24 t := by
  have h := bits_add 18 6 t
  rw [← sextets_three, ← sextet_letter] at h
  rw [h]
  simp

/-- Each of three bytes in one word has its own eight bits. -/
theorem bits_three (x y z : BitVec 8) :
    bits 24 (x.setWidth 32 <<< 16 ||| y.setWidth 32 <<< 8 ||| z.setWidth 32) =
      bits 8 x ++ (bits 8 y ++ bits 8 z) := by
  have hout : ∀ (b : BitVec 8) (i : ℕ), 8 ≤ i → b.getLsbD i = false := fun b i hi =>
    BitVec.getLsbD_of_ge b i hi
  rw [bits_add 8 16, bits_add 8 8]
  congr 1
  · apply bits_congr
    intro i hi
    simp [hi, hout y (16 + i - 8) (by omega), hout z (16 + i) (by omega),
      show 16 + i < 32 by omega, show i < 32 by omega]
  · congr 1
    · apply bits_congr
      intro i hi
      simp [hi, show 8 + i < 16 by omega, show 8 + i < 32 by omega, show i < 32 by omega]
    · apply bits_congr
      intro i hi
      simp [hi, show i < 16 by omega, show i < 32 by omega]

/-- The bytes of a turn, zero past the end. -/
theorem bits_triple (data : List UInt8) (i : ℕ) :
    bits 24 (triple data i) = octetBits (data.getD i 0) ++
      (octetBits (data.getD (i + 1) 0) ++ octetBits (data.getD (i + 2) 0)) := by
  have hpast : ∀ j, (if j < data.length then (data.getD j 0).toBitVec.setWidth 32 else 0) =
      ((data.getD j 0).toBitVec.setWidth 32 : BitVec 32) := by
    intro j
    split_ifs with hj
    · rfl
    · rw [List.getD_eq_default _ _ (by omega)]
      rfl
  simp only [triple, hpast]
  exact bits_three _ _ _

/-! ### The encoder's loop -/

/-- How many `=` end the encoding of `n` bytes. -/
def paddingLength (n : ℕ) : ℕ := (3 - n % 3) % 3

/-- The text is letters that spell the bytes, with zeros up to a whole letter, and the padding. -/
def Encodes (bytes : List UInt8) (t : Text) : Prop :=
  ∃ letters : Text, t = letters ++ List.replicate (paddingLength bytes.length) '='.toUInt8 ∧
    (∀ c ∈ letters, c ∈ base64CharTable) ∧
    letters.flatMap sextet =
      bytes.flatMap octetBits ++ List.replicate (2 * paddingLength bytes.length) false

theorem Encodes.nil : Encodes [] [] := ⟨[], rfl, nofun, rfl⟩

theorem drop_eq_getD_cons {data : List UInt8} {i : ℕ} (hi : i < data.length) :
    data.drop i = data.getD i 0 :: data.drop (i + 1) := by
  rw [List.drop_eq_getElem_cons hi, List.getD_eq_getElem _ _ hi]

/-- Whole turns go in front. -/
theorem Encodes.turn {bytes : List UInt8} {t : Text} (h : Encodes bytes t) {b0 b1 b2 : UInt8}
    {ls : Text} (hls : ∀ c ∈ ls, c ∈ base64CharTable)
    (hbits : ls.flatMap sextet = [b0, b1, b2].flatMap octetBits) :
    Encodes (b0 :: b1 :: b2 :: bytes) (ls ++ t) := by
  obtain ⟨letters, rfl, hletters, hspell⟩ := h
  have hlength : paddingLength (b0 :: b1 :: b2 :: bytes).length = paddingLength bytes.length := by
    simp only [List.length_cons, paddingLength]
    omega
  refine ⟨ls ++ letters, ?_, ?_, ?_⟩
  · rw [hlength, List.append_assoc]
  · intro c hc
    exact (List.mem_append.mp hc).elim (hls c) (hletters c)
  · rw [hlength, List.flatMap_append, hbits, hspell, ← List.append_assoc, ← List.flatMap_append]
    rfl

/-- The turn that takes three bytes. -/
theorem encodeTurn_full {data : List UInt8} {i : ℕ} (hi : i + 2 < data.length) :
    (∀ c ∈ encodeTurn data i, c ∈ base64CharTable) ∧ (encodeTurn data i).flatMap sextet =
      [data.getD i 0, data.getD (i + 1) 0, data.getD (i + 2) 0].flatMap octetBits := by
  have hturn : encodeTurn data i = [letter (triple data i >>> 18), letter (triple data i >>> 12),
      letter (triple data i >>> 6), letter (triple data i)] := by
    rw [encodeTurn, if_pos (by omega), if_pos hi]
  constructor
  · rw [hturn]
    exact letters_mem [_, _, _, _]
  · rw [hturn, sextets_four, bits_triple]
    simp

/-- The turn that takes the last two. -/
theorem encodeTurn_two {data : List UInt8} {i : ℕ} (hi : i + 2 = data.length) :
    Encodes [data.getD i 0, data.getD (i + 1) 0] (encodeTurn data i) := by
  have hturn : encodeTurn data i = [letter (triple data i >>> 18), letter (triple data i >>> 12),
      letter (triple data i >>> 6)] ++ ['='.toUInt8] := by
    rw [encodeTurn, if_pos (by omega), if_neg (by omega)]
    rfl
  refine ⟨_, hturn, letters_mem [_, _, _], ?_⟩
  rw [sextets_three]
  have hzero : octetBits 0 = List.replicate 2 false ++ List.replicate 6 false := rfl
  have hbits := bits_triple data i
  rw [List.getD_eq_default data 0 (by omega : data.length ≤ i + 2), bits_add 18 6, hzero,
    ← List.append_assoc, ← List.append_assoc] at hbits
  have hfront := List.append_inj_left' hbits (by simp)
  simpa [paddingLength] using hfront

/-- The turn that takes the last one. -/
theorem encodeTurn_one {data : List UInt8} {i : ℕ} (hi : i + 1 = data.length) :
    Encodes [data.getD i 0] (encodeTurn data i) := by
  have hturn : encodeTurn data i = [letter (triple data i >>> 18), letter (triple data i >>> 12)] ++
      ['='.toUInt8, '='.toUInt8] := by
    rw [encodeTurn, if_neg (by omega), if_neg (by omega)]
    rfl
  refine ⟨_, hturn, letters_mem [_, _], ?_⟩
  rw [sextets_two]
  have hzeros : octetBits 0 ++ octetBits 0 =
    List.replicate 4 false ++ List.replicate 12 false := rfl
  have hbits := bits_triple data i
  rw [List.getD_eq_default data 0 (by omega : data.length ≤ i + 1),
    List.getD_eq_default data 0 (by omega : data.length ≤ i + 2), bits_add 12 12, hzeros,
    ← List.append_assoc] at hbits
  have hfront := List.append_inj_left' hbits (by simp)
  simpa [paddingLength] using hfront

theorem encodeFrom_of_le {data : List UInt8} {i : ℕ} (hi : data.length ≤ i) (result : Text) :
    encodeFrom data i result = result := by
  rw [encodeFrom, if_neg (by omega)]

/-- The last turn, which need not be a whole one. -/
theorem encodeTurn_last {data : List UInt8} {i : ℕ} (hi : i < data.length)
    (hlast : data.length ≤ i + 2) : Encodes (data.drop i) (encodeTurn data i) := by
  rw [drop_eq_getD_cons hi]
  by_cases hone : i + 1 = data.length
  · rw [List.drop_of_length_le (by omega)]
    exact encodeTurn_one hone
  · rw [drop_eq_getD_cons (by omega), List.drop_of_length_le (by omega)]
    exact encodeTurn_two (by omega)

theorem encodeFrom_encodes (data : List UInt8) (n i : ℕ) (hn : data.length ≤ i + 3 * n)
    (result : Text) : ∃ t, encodeFrom data i result = result ++ t ∧ Encodes (data.drop i) t := by
  -- On a bound on the turns that are left.
  induction n generalizing i result with
  | zero =>
    have hi : data.length ≤ i := hn
    rw [encodeFrom_of_le hi, List.drop_of_length_le hi]
    exact ⟨[], (List.append_nil result).symm, Encodes.nil⟩
  | succ n ih =>
    by_cases hi : data.length ≤ i
    · rw [encodeFrom_of_le hi, List.drop_of_length_le hi]
      exact ⟨[], (List.append_nil result).symm, Encodes.nil⟩
    · rw [encodeFrom, if_pos (by omega)]
      by_cases hfull : i + 2 < data.length
      · obtain ⟨hletters, hbits⟩ := encodeTurn_full hfull
        obtain ⟨t, ht, hencodes⟩ := ih (i + 3) (by omega) (result ++ encodeTurn data i)
        refine ⟨encodeTurn data i ++ t, by rw [ht, List.append_assoc], ?_⟩
        rw [drop_eq_getD_cons (by omega), drop_eq_getD_cons (by omega), drop_eq_getD_cons hfull]
        exact hencodes.turn hletters hbits
      · rw [encodeFrom_of_le (by omega)]
        exact ⟨_, rfl, encodeTurn_last (by omega) (by omega)⟩

/-- Encoding spells the bytes. -/
theorem encodeBase64_encodes (data : List UInt8) : Encodes data (encodeBase64 data) := by
  obtain ⟨t, ht, hencodes⟩ := encodeFrom_encodes data data.length 0 (by omega) []
  rw [encodeBase64, ht]
  exact hencodes

/-! ### The round trip -/

/-- The letters of an encoding are its longest prefix of letters. -/
theorem takeWhile_letters {letters : Text} (h : ∀ c ∈ letters, c ∈ base64CharTable) (n : ℕ) :
    (letters ++ List.replicate n '='.toUInt8).takeWhile (· ∈ base64CharTable) = letters := by
  rw [List.takeWhile_append_of_pos (by simpa using h)]
  cases n with
  | zero => simp
  | succ n =>
    rw [List.replicate_succ, List.takeWhile_cons_of_neg (by simpa using padding_not_mem),
      List.append_nil]

/-- For all bytes, decoding the encoding gives them back; the encoding has four characters for each
three bytes or part of three, letters first and then the padding, and no `=` among the letters. -/
theorem decodeBase64_encodeBase64 (x : List UInt8) :
    decodeBase64 (encodeBase64 x) = x ∧
      (encodeBase64 x).length = 4 * ((x.length + 2) / 3) ∧
      ∃ letters : Text,
        encodeBase64 x = letters ++ List.replicate ((3 - x.length % 3) % 3) '='.toUInt8 ∧
          (∀ c ∈ letters, c ∈ base64CharTable) ∧ '='.toUInt8 ∉ letters := by
  obtain ⟨letters, hencode, hletters, hspell⟩ := encodeBase64_encodes x
  have hpadding : paddingLength x.length < 3 := Nat.mod_lt _ (by decide)
  refine ⟨?_, ?_, letters, hencode, hletters, fun hmem => padding_not_mem (hletters _ hmem)⟩
  · have hdecode : decodeBase64 (encodeBase64 x) = octets (letters.flatMap sextet) := by
      have hspells := (Base64Decoder.Spells.start.run (encodeBase64 x)).finish
      rw [hencode, takeWhile_letters hletters] at hspells
      rw [hencode]
      exact hspells
    -- the zeros at the end are no octet
    have hshort : (List.replicate (2 * paddingLength x.length) false).length < 8 := by
      rw [List.length_replicate]
      omega
    rw [hdecode, hspell, octets_append_short x hshort]
  · have hlength := congrArg List.length hspell
    rw [sextets_length, List.length_append, octetBits_length, List.length_replicate] at hlength
    rw [hencode, List.length_append, List.length_replicate]
    unfold paddingLength at hlength ⊢
    omega

end StringOps

end IACore
