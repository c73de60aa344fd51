import IACore.DataOps.Crc32

/-!
# `DataOps::hash_xxhash`

The pointer `p` is an offset from `data.data()`, and `b_end` is then `data.size()`.  The three loops
keep beside `p` the offsets of the bytes they have read, in the order in which they read them.
`xxh32` is XXH32 by its definition, over the little-endian words of the data.
-/

namespace IACore

namespace DataOps

def xxhPrime32_1 : BitVec 32 := 0x9E3779B1

def xxhPrime32_2 : BitVec 32 := 0x85EBCA77

def xxhPrime32_3 : BitVec 32 := 0xC2B2AE3D

def xxhPrime32_4 : BitVec 32 := 0x27D4EB2F

def xxhPrime32_5 : BitVec 32 := 0x165667B1

/-- `xxh32_round`. -/
def xxh32Round (seed input : BitVec 32) : BitVec 32 :=
  (seed + input * xxhPrime32_2).rotateLeft 13 * xxhPrime32_1

/-- `p`, and the offsets read so far. -/
structure BytePtr where
  p : ℕ
  reads : List ℕ
  deriving DecidableEq, Repr

namespace BytePtr

/-- `read_unaligned<u32>(p)` and `p += 4`. -/
def readU32 (data : List UInt8) (b : BytePtr) : BitVec 32 × BytePtr :=
  (readUnaligned 32 (data.drop b.p), ⟨b.p + 4, b.reads ++ List.range' b.p 4⟩)

/-- `*p++`. -/
def readU8 (data : List UInt8) (b : BytePtr) : UInt8 × BytePtr :=
  (data[b.p]?.getD 0, ⟨b.p + 1, b.reads ++ [b.p]⟩)

end BytePtr

/-- `v1` to `v4`. -/
@[ext] structure Accumulators where
  v1 : BitVec 32
  v2 : BitVec 32
  v3 : BitVec 32
  v4 : BitVec 32
  deriving DecidableEq, Repr

namespace Accumulators

def init (seed : BitVec 32) : Accumulators where
  v1 := seed + xxhPrime32_1 + xxhPrime32_2
  v2 := seed + xxhPrime32_2
  v3 := seed + 0
  v4 := seed - xxhPrime32_1

def merge (v : Accumulators) : BitVec 32 :=
  v.v1.rotateLeft 1 + v.v2.rotateLeft 7 + v.v3.rotateLeft 12 + v.v4.rotateLeft 18

end Accumulators

/-- One turn of the loop over the stripes of 16 bytes. -/
def stripe (data : List UInt8) (v : Accumulators) (b : BytePtr) : Accumulators × BytePtr :=
  let r1 := b.readU32 data
  let r2 := r1.2.readU32 data
  let r3 := r2.2.readU32 data
  let r4 := r3.2.readU32 data
  (⟨xxh32Round v.v1 r1.1, xxh32Round v.v2 r2.1, xxh32Round v.v3 r3.1, xxh32Round v.v4 r4.1⟩, r4.2)

theorem stripe_p (data : List UInt8) (v : Accumulators) (b : BytePtr) :
    (stripe data v b).2.p = b.p + 16 := rfl

/-- `do … while (p <= limit)`. -/
def stripes (data : List UInt8) (limit : ℕ) (v : Accumulators) (b : BytePtr) :
    Accumulators × BytePtr :=
  let r := stripe data v b
  if r.2.p ≤ limit then stripes data limit r.1 r.2 else r
termination_by limit + 1 - b.p
decreasing_by
  have hp := stripe_p data v b
  have hle : (stripe data v b).2.p ≤ limit := by assumption
  rw [hp] at hle ⊢
  omega

/-- What a word that is left does to `h32`. -/
def addWord (h32 word : BitVec 32) : BitVec 32 :=
  (h32 + word * xxhPrime32_3).rotateLeft 17 * xxhPrime32_4

/-- `while (p + 4 <= b_end)`. -/
def addWords (data : List UInt8) (h32 : BitVec 32) (b : BytePtr) : BitVec 32 × BytePtr :=
  if b.p + 4 ≤ data.length then
    let r := b.readU32 data
    addWords data (addWord h32 r.1) r.2
  else (h32, b)
termination_by data.length - b.p
decreasing_by
  show data.length - (b.p + 4) < data.length - b.p
  omega

/-- What a byte that is left does to `h32`. -/
def addByte (h32 : BitVec 32) (byte : UInt8) : BitVec 32 :=
  (h32 + byte.toBitVec.setWidth 32 * xxhPrime32_5).rotateLeft 11 * xxhPrime32_1

/-- `while (p < b_end)`. -/
def addBytes (data : List UInt8) (h32 : BitVec 32) (b : BytePtr) : BitVec 32 × BytePtr :=
  if b.p < data.length then
    let r := b.readU8 data
    addBytes data (addByte h32 r.1) r.2
  else (h32, b)
termination_by data.length - b.p
decreasing_by
  show data.length - (b.p + 1) < data.length - b.p
  omega

/-- The last five lines. -/
def avalanche (h32 : BitVec 32) : BitVec 32 :=
  let h32 := h32 ^^^ h32 >>> 15
  let h32 := h32 * xxhPrime32_2
  let h32 := h32 ^^^ h32 >>> 13
  let h32 := h32 * xxhPrime32_3
  h32 ^^^ h32 >>> 16

/-- `DataOps::hash_xxhash`, with the offsets it reads. -/
def hashXxhash (data : List UInt8) (seed : BitVec 32) : BitVec 32 × List ℕ :=
  let b : BytePtr := ⟨0, []⟩
  let (h32, b) :=
    if 16 ≤ data.length then
      let (v, b) := stripes data (data.length - 16) (.init seed) b
      (v.merge, b)
    else (seed + xxhPrime32_5, b)
  let h32 := h32 + BitVec.ofNat 32 data.length
  let (h32, b) := addWords data h32 b
  let (h32, b) := addBytes data h32 b
  (avalanche h32, b.reads)

/-! ### XXH32 -/

/-- The little-endian words of the data, without the up to three bytes that are left. -/
def words (data : List UInt8) : List (BitVec 32) :=
  (List.range (data.length / 4)).map fun i => readUnaligned 32 (data.drop (4 * i))

/-- The words that the accumulator `lane` takes: one of each whole stripe of four words. -/
def laneWords (ws : List (BitVec 32)) (lane : ℕ) : List (BitVec 32) :=
  (List.range (ws.length / 4)).map fun i => ws.getD (4 * i + lane) 0

/-- The four accumulators after the whole stripes. -/
def accumulate (ws : List (BitVec 32)) (seed : BitVec 32) : Accumulators where
  v1 := (laneWords ws 0).foldl xxh32Round (Accumulators.init seed).v1
  v2 := (laneWords ws 1).foldl xxh32Round (Accumulators.init seed).v2
  v3 := (laneWords ws 2).foldl xxh32Round (Accumulators.init seed).v3
  v4 := (laneWords ws 3).foldl xxh32Round (Accumulators.init seed).v4

/-- XXH32 by its definition. -/
def xxh32 (data : List UInt8) (seed : BitVec 32) : BitVec 32 :=
  let n := data.length
  let ws := words data
  let h32 := if n < 16 then seed + xxhPrime32_5 else (accumulate ws seed).merge
  let h32 := h32 + BitVec.ofNat 32 n
  let h32 := (ws.drop (4 * (n / 16))).foldl addWord h32
  avalanche ((data.drop (4 * (n / 4))).foldl addByte h32)

end DataOps

end IACore
