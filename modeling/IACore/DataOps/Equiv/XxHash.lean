import IACore.DataOps.XxHash
import IACore.Text

/-!
# `DataOps::hash_xxhash` is XXH32

Each loop is followed by the state it leaves: after `k` stripes the four accumulators have taken the
first `k` words of their lanes (`stripe_afterStripes`), the word loop starts on a multiple of four
and takes the words from there (`addWords_eq`), and the byte loop takes the rest (`addBytes_eq`).
The pointer has then read the offsets below it, each once, so at the end all of them
(`hashXxhash_eq`).
-/

namespace IACore

namespace DataOps

variable {data : List UInt8}

/-- A pointer that has read everything below it. -/
def BytePtr.upTo (p : ℕ) : BytePtr := ⟨p, List.range p⟩

@[simp] theorem BytePtr.upTo_p (p : ℕ) : (upTo p).p = p := rfl

theorem BytePtr.readU32_upTo (data : List UInt8) (p : ℕ) :
    (upTo p).readU32 data = (readUnaligned 32 (data.drop p), upTo (p + 4)) := by
  have hreads : List.range p ++ List.range' p 4 = List.range (p + 4) := by
    rw [List.range_eq_range', List.range_eq_range', ← List.range'_append_1, Nat.zero_add]
  rw [readU32, upTo, hreads]
  rfl

theorem BytePtr.readU8_upTo (data : List UInt8) (p : ℕ) :
    (upTo p).readU8 data = (data[p]?.getD 0, upTo (p + 1)) := by
  rw [readU8, upTo, upTo, List.range_succ]

/-! ### Words -/

@[simp] theorem words_length (data : List UInt8) : (words data).length = data.length / 4 := by
  simp [words]

theorem words_getElem? {i : ℕ} (hi : i < data.length / 4) :
    (words data)[i]? = some (readUnaligned 32 (data.drop (4 * i))) := by
  rw [words, List.getElem?_map, List.getElem?_range hi, Option.map_some]

theorem words_drop {i : ℕ} (hi : i < data.length / 4) :
    (words data).drop i = readUnaligned 32 (data.drop (4 * i)) :: (words data).drop (i + 1) := by
  have hlt : i < (words data).length := (words_length data).symm ▸ hi
  rw [List.drop_eq_getElem_cons hlt, (List.getElem_eq_iff hlt).mpr (words_getElem? hi)]

/-! ### Stripes -/

/-- The first `k` words of a lane, as the accumulator takes them. -/
def laneFold (ws : List (BitVec 32)) (seed : BitVec 32) (lane k : ℕ) : BitVec 32 :=
  ((List.range k).map fun i => ws.getD (4 * i + lane) 0).foldl xxh32Round seed

theorem laneFold_succ (ws : List (BitVec 32)) (seed : BitVec 32) (lane k : ℕ) :
    laneFold ws seed lane (k + 1) =
      xxh32Round (laneFold ws seed lane k) (ws.getD (4 * k + lane) 0) := by
  rw [laneFold, List.range_succ, List.map_append, List.foldl_append]
  rfl

/-- The accumulators after `k` stripes. -/
def afterStripes (ws : List (BitVec 32)) (seed : BitVec 32) (k : ℕ) : Accumulators where
  v1 := laneFold ws (Accumulators.init seed).v1 0 k
  v2 := laneFold ws (Accumulators.init seed).v2 1 k
  v3 := laneFold ws (Accumulators.init seed).v3 2 k
  v4 := laneFold ws (Accumulators.init seed).v4 3 k

/-- One turn of the loop takes one word of each lane. -/
theorem stripe_afterStripes (seed : BitVec 32) {k : ℕ} (hk : 16 * (k + 1) ≤ data.length) :
    stripe data (afterStripes (words data) seed k) (.upTo (16 * k)) =
      (afterStripes (words data) seed (k + 1), .upTo (16 * (k + 1))) := by
  have hword : ∀ lane < 4, (words data).getD (4 * k + lane) 0 =
      readUnaligned 32 (data.drop (16 * k + 4 * lane)) := by
    intro lane hlane
    rw [List.getD_eq_getElem?_getD, words_getElem? (by omega), Option.getD_some,
      show 4 * (4 * k + lane) = 16 * k + 4 * lane by omega]
  simp only [stripe, BytePtr.readU32_upTo, afterStripes, laneFold_succ]
  rw [hword 0 (by omega), hword 1 (by omega), hword 2 (by omega), hword 3 (by omega)]
  rfl

/-- The loop ends after the last whole stripe. -/
theorem stripes_eq (seed : BitVec 32) (n k : ℕ) (hn : k + 1 + n = data.length / 16) :
    stripes data (data.length - 16) (afterStripes (words data) seed k) (.upTo (16 * k)) =
      (afterStripes (words data) seed (data.length / 16), .upTo (16 * (data.length / 16))) := by
  -- On the stripes after this one.
  induction n generalizing k with
  | zero =>
    rw [stripes, stripe_afterStripes seed (by omega)]
    have hend : ¬ 16 * (k + 1) ≤ data.length - 16 := by omega
    rw [← hn]
    exact if_neg hend
  | succ n ih =>
    rw [stripes, stripe_afterStripes seed (by omega)]
    have hmore : 16 * (k + 1) ≤ data.length - 16 := by omega
    exact (if_pos hmore).trans (ih (k + 1) (by omega))

theorem accumulate_eq (data : List UInt8) (seed : BitVec 32) :
    accumulate (words data) seed = afterStripes (words data) seed (data.length / 16) := by
  have hstripes : (words data).length / 4 = data.length / 16 := by
    rw [words_length]
    omega
  simp only [accumulate, laneWords, hstripes, afterStripes, laneFold]

/-! ### What is left -/

theorem addWords_eq (data : List UInt8) (h32 : BitVec 32) (n i : ℕ) (hn : i + n = data.length / 4) :
    addWords data h32 (.upTo (4 * i)) =
      (((words data).drop i).foldl addWord h32, .upTo (4 * (data.length / 4))) := by
  -- On the words that are left.
  induction n generalizing i h32 with
  | zero =>
    have hi : i = data.length / 4 := hn
    rw [addWords, BytePtr.upTo_p, if_neg (by omega),
      List.drop_of_length_le (by rw [words_length]; omega), ← hi]
    rfl
  | succ n ih =>
    rw [addWords, BytePtr.upTo_p, if_pos (by omega), BytePtr.readU32_upTo, words_drop (by omega),
      List.foldl_cons]
    exact ih _ (i + 1) (by omega)

theorem addBytes_eq (data : List UInt8) (h32 : BitVec 32) (n p : ℕ) (hn : p + n = data.length) :
    addBytes data h32 (.upTo p) =
      ((data.drop p).foldl addByte h32, .upTo data.length) := by
  -- On the bytes that are left.
  induction n generalizing p h32 with
  | zero =>
    obtain rfl : p = data.length := hn
    rw [addBytes, BytePtr.upTo_p, if_neg (Nat.lt_irrefl _), List.drop_length]
    rfl
  | succ n ih =>
    have hlt : p < data.length := by omega
    rw [addBytes, BytePtr.upTo_p, if_pos hlt, BytePtr.readU8_upTo, List.getElem?_eq_getElem hlt,
      Option.getD_some, List.drop_eq_getElem_cons hlt, List.foldl_cons]
    exact ih _ (p + 1) (by omega)

/-- What `h32` and `p` are when the data's length is added. -/
theorem afterMerge_eq (data : List UInt8) (seed : BitVec 32) :
    (if 16 ≤ data.length then
      ((stripes data (data.length - 16) (.init seed) ⟨0, []⟩).1.merge,
        (stripes data (data.length - 16) (.init seed) ⟨0, []⟩).2)
    else (seed + xxhPrime32_5, ⟨0, []⟩)) =
      (if data.length < 16 then seed + xxhPrime32_5 else (accumulate (words data) seed).merge,
        BytePtr.upTo (4 * (4 * (data.length / 16)))) := by
  by_cases hlong : 16 ≤ data.length
  · have hstripes : stripes data (data.length - 16) (.init seed) ⟨0, []⟩ =
        (accumulate (words data) seed, .upTo (16 * (data.length / 16))) := by
      rw [accumulate_eq]
      exact stripes_eq seed (data.length / 16 - 1) 0 (by omega)
    rw [if_pos hlong, if_neg (by omega), hstripes, ← Nat.mul_assoc]
  · have hzero : data.length / 16 = 0 := by omega
    rw [if_neg hlong, if_pos (by omega), hzero]
    rfl

/-- `hash_xxhash` returns XXH32 of the data, having read every byte once and nothing else. -/
theorem hashXxhash_eq (data : List UInt8) (seed : BitVec 32) :
    hashXxhash data seed = (xxh32 data seed, List.range data.length) := by
  have hmerge := afterMerge_eq data seed
  have hwords := fun h32 => addWords_eq data h32
    (data.length / 4 - 4 * (data.length / 16)) (4 * (data.length / 16)) (by omega)
  have hbytes := fun h32 => addBytes_eq data h32 (data.length - 4 * (data.length / 4))
    (4 * (data.length / 4)) (by omega)
  simp only [hashXxhash, hmerge, hwords, hbytes]
  rfl

/- The vectors of the unit test. -/
example : xxh32 (text "123456789") 0 = 0x937bad67 := by decide

example : xxh32 (text "The quick brown fox jumps over the lazy dog") 0 = 0xE85EA4DE := by decide

end DataOps

end IACore
