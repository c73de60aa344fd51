import IACore.Machine
import IACore.Vec

/-!
# `DataOps::zstd_deflate` and `zstd_inflate`

The wrappers over zstd, which is a parameter (`Zstd`).  A frame that tells the size of its content
is inflated in one call; for any other one `zstd_inflate` has a loop, which doubles its buffer
whenever that is full.
-/

namespace IACore

namespace DataOps

/-- What `ZSTD_getFrameContentSize` returns. -/
inductive FrameContentSize
  | error
  | unknown
  | known (n : ℕ)
  deriving DecidableEq, Repr

/-- The calls of zstd.  A call that returns an error returns the name that `ZSTD_getErrorName` has
for it, another one the bytes that it writes. -/
structure Zstd where
  /-- The state of a `ZSTD_DCtx`, with the input that it has not read. -/
  Decoder : Type
  compressBound : ℕ → ℕ
  /-- `ZSTD_compress`, for the capacity of its destination, the level and the source. -/
  compress : ℕ → ℤ → List UInt8 → Except String (List UInt8)
  getFrameContentSize : List UInt8 → FrameContentSize
  /-- `ZSTD_decompress`, for the capacity of its destination and the source. -/
  decompress : ℕ → List UInt8 → Except String (List UInt8)
  /-- A new context, with its input. -/
  createDCtx : List UInt8 → Decoder
  /-- `ZSTD_decompressStream`, for the room that is left in the output: what it returns besides what
  it writes is zero at the end of a frame and else a hint. -/
  decompressStream : Decoder → ℕ → Except String (ℕ × List UInt8 × Decoder)

variable (zstd : Zstd)

/-- `zstd_deflate`. -/
def zstdDeflate (data : List UInt8) : Except String (List UInt8) :=
  let maxDstSize := usize (zstd.compressBound data.length)
  let outBuffer := resize [] maxDstSize
  match zstd.compress maxDstSize 3 data with
  | .error name => .error ("Failed to deflate: " ++ name)
  | .ok written => .ok (resize (overwrite outBuffer 0 written) written.length)

/-- The context, the buffer and the `ZSTD_outBuffer` of the loop of `zstd_inflate`. -/
structure Decoding where
  decoder : zstd.Decoder
  outBuffer : List UInt8
  pos : ℕ
  size : ℕ

variable {zstd}

namespace Decoding

/-- A new context for `data`, with a buffer of twice its size. -/
def start (zstd : Zstd) (data : List UInt8) : Decoding zstd where
  decoder := zstd.createDCtx data
  outBuffer := resize [] (usize (data.length * 2))
  pos := 0
  size := usize (data.length * 2)

/-- The growth at the end of a turn. -/
def grow (σ : Decoding zstd) : Decoding zstd :=
  if σ.pos = σ.size then
    let newSize := usize (σ.outBuffer.length * 2)
    { σ with outBuffer := resize σ.outBuffer newSize, size := newSize }
  else σ

/-- The output after a call that has written `written`. -/
def wrote (σ : Decoding zstd) (written : List UInt8) (decoder : zstd.Decoder) : Decoding zstd where
  decoder := decoder
  outBuffer := overwrite σ.outBuffer σ.pos written
  pos := σ.pos + written.length
  size := σ.size

/-- The loop, for at most `fuel` turns; `none` when it has not ended by then, or when a call leaves
the buffer. -/
def loop : ℕ → Decoding zstd → Option (Except String (Decoding zstd))
  | 0, _ => none
  | fuel + 1, σ =>
    match zstd.decompressStream σ.decoder (σ.size - σ.pos) with
    | .error name => some (.error ("Failed to inflate: " ++ name))
    | .ok (ret, written, decoder) =>
      if σ.pos + written.length ≤ σ.outBuffer.length then
        if ret ≠ 0 then loop fuel (σ.wrote written decoder).grow
        else some (.ok (σ.wrote written decoder).grow)
      else none

end Decoding

variable (zstd)

/-- `zstd_inflate`, with at most `fuel` turns of its loop. -/
def zstdInflate (fuel : ℕ) (data : List UInt8) : Option (Except String (List UInt8)) :=
  match zstd.getFrameContentSize data with
  | .error => some (.error "Failed to inflate: Not valid ZSTD compressed data")
  | .known contentSize =>
    let outBuffer := resize [] (usize contentSize)
    match zstd.decompress outBuffer.length data with
    | .error name => some (.error ("Failed to inflate: " ++ name))
    | .ok written => some (.ok (overwrite outBuffer 0 written))
  | .unknown => do
    match ← Decoding.loop fuel (Decoding.start zstd data) with
    | .error message => some (.error message)
    | .ok σ => some (.ok (resize σ.outBuffer σ.pos))

/-! ### What zstd promises -/

/-- One `ZSTD_decompressStream` with room on a stream that will write `pending` and then come to its
end, or fail with the error `outcome`; `left` bounds the calls that it still takes. -/
inductive StreamStep (Pending : zstd.Decoder → Option String → List UInt8 → ℕ → Prop)
    (outcome : Option String) (pending : List UInt8) (left room : ℕ) :
    Except String (ℕ × List UInt8 × zstd.Decoder) → Prop
  /-- There is more to do. -/
  | more (hint : ℕ) (written rest : List UInt8) (left' : ℕ) (decoder : zstd.Decoder)
      (hhint : hint ≠ 0) (hpending : pending = written ++ rest) (hroom : written.length ≤ room)
      (hleft : left' < left) (hdecoder : Pending decoder outcome rest left') :
      StreamStep Pending outcome pending left room (.ok (hint, written, decoder))
  /-- The frame ends. -/
  | finish (decoder : zstd.Decoder) (houtcome : outcome = none) (hroom : pending.length ≤ room) :
      StreamStep Pending outcome pending left room (.ok (0, pending, decoder))
  | fail (name : String) (houtcome : outcome = some name) :
      StreamStep Pending outcome pending left room (.error name)

/-- What `zstd_inflate` makes of a stream that writes `content` and ends so. -/
def answer {α : Type*} (outcome : Option String) (content : α) : Except String α :=
  match outcome with
  | none => .ok content
  | some name => .error ("Failed to inflate: " ++ name)

/-- The documented behaviour, for sources that fit in memory; the encoding and what a context has
left to do are zstd's own. -/
structure Zstd.Contract (zstd : Zstd) where
  encode : List UInt8 → List UInt8
  Pending : zstd.Decoder → Option String → List UInt8 → ℕ → Prop
  compressBound_lt : ∀ n < 9223372036854775808, zstd.compressBound n < 18446744073709551616
  encode_le : ∀ data, (encode data).length ≤ zstd.compressBound data.length
  /-- `ZSTD_compress` succeeds when its destination has the bound. -/
  compress_enough : ∀ data capacity, zstd.compressBound data.length ≤ capacity →
    zstd.compress capacity 3 data = .ok (encode data)
  /-- A frame that it writes tells its size, -/
  size_encode : ∀ data, zstd.getFrameContentSize (encode data) = .known data.length
  /-- and is decompressed to what was compressed. -/
  decompress_encode : ∀ data capacity, data.length ≤ capacity →
    zstd.decompress capacity (encode data) = .ok data
  /-- Nothing is no frame. -/
  size_nil : zstd.getFrameContentSize [] = .error
  stream_step : ∀ decoder outcome pending left room, 0 < room →
    Pending decoder outcome pending left →
      StreamStep zstd Pending outcome pending left room (zstd.decompressStream decoder room)

end DataOps

end IACore
