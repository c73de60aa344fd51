import IACore.Machine
import IACore.Vec

/-!
# `DataOps::zlib_deflate`, `gzip_deflate` and their inverses

The wrappers over zlib.  zlib itself is a parameter (`Zlib`): what its calls return and write, for
a stream that starts at the first byte of the input.  `avail_in` and `avail_out` are 32-bit, sizes
and `uLong` have 64 bits.
-/

namespace IACore

namespace DataOps

/-- What zlib's calls return. -/
inductive ReturnCode
  | ok
  | streamEnd
  | needDict
  | streamError
  | dataError
  | memError
  | bufError
  deriving DecidableEq, Repr

/-- The window bits that a stream is opened with. -/
inductive Format
  | zlib
  | gzip
  deriving DecidableEq, Repr

structure Zlib where
  /-- The state of an inflating stream, with the input that it has not read. -/
  Decoder : Type
  /-- Whether `deflateInit` or `deflateInit2` returns `Z_OK`. -/
  deflateInit : Format → Bool
  deflateBound : Format → ℕ → ℕ
  /-- `deflate(&zs, Z_FINISH)` on a fresh stream, for its input and `avail_out`: what it returns and
  what it writes to `next_out`. -/
  deflate : Format → List UInt8 → ℕ → ReturnCode × List UInt8
  /-- The stream after `inflateInit2(&zs, 15 + 32)`, if that returns `Z_OK`, with its input. -/
  inflateInit : List UInt8 → Option Decoder
  /-- `inflate(&zs, Z_NO_FLUSH)`, for `avail_out`. -/
  inflate : Decoder → ℕ → ReturnCode × List UInt8 × Decoder

variable (zlib : Zlib)

/-! ### Deflating -/

/-- Both deflating functions: the stream is opened with `format`, the buffer has `extra` bytes more
than the bound, and the two messages are the function's own. -/
def deflateWith (format : Format) (extra : ℕ) (initMessage message : String)
    (data : List UInt8) : Except String (List UInt8) :=
  if zlib.deflateInit format then
    let availIn := u32 data.length
    let outBuffer := resize [] (usize (zlib.deflateBound format data.length + extra))
    let availOut := u32 outBuffer.length
    let (ret, written) := zlib.deflate format (data.take availIn) availOut
    if ret ≠ .streamEnd then .error message
    else .ok (resize (overwrite outBuffer 0 written) written.length)
  else .error initMessage

def zlibDeflate : List UInt8 → Except String (List UInt8) :=
  deflateWith zlib .zlib 0 "Failed to initialize zlib deflate"
    "Failed to deflate, ran out of buffer memory"

def gzipDeflate : List UInt8 → Except String (List UInt8) :=
  deflateWith zlib .gzip 1024 "Failed to initialize gzip deflate" "Failed to deflate"

/-! ### Inflating -/

/-- The stream and the buffer of `zlib_inflate`; `nextOut` is the offset of `next_out` in the
buffer. -/
structure Inflating where
  decoder : zlib.Decoder
  outBuffer : List UInt8
  nextOut : ℕ
  availOut : ℕ
  totalOut : ℕ

variable {zlib}

namespace Inflating

/-- The growth at the start of a turn. -/
def grow (σ : Inflating zlib) : Inflating zlib :=
  if σ.availOut = 0 then
    let currentPos := σ.totalOut
    let newSize := usize (σ.outBuffer.length * 2)
    { σ with
      outBuffer := resize σ.outBuffer newSize
      nextOut := currentPos
      availOut := u32 (usizeSub newSize currentPos) }
  else σ

/-- One call of `inflate`; undefined if it leaves the buffer. -/
def inflate (σ : Inflating zlib) : Option (ReturnCode × Inflating zlib) :=
  let (ret, written, decoder) := zlib.inflate σ.decoder σ.availOut
  if σ.nextOut + written.length ≤ σ.outBuffer.length then
    some (ret, {
      decoder := decoder
      outBuffer := overwrite σ.outBuffer σ.nextOut written
      nextOut := σ.nextOut + written.length
      availOut := σ.availOut - written.length
      totalOut := usize (σ.totalOut + written.length) })
  else none

/-- The loop, for at most `fuel` turns; `none` when it has not ended by then or is undefined. -/
def loop : ℕ → Inflating zlib → Option (ReturnCode × Inflating zlib)
  | 0, _ => none
  | fuel + 1, σ => do
    let (ret, σ) ← σ.grow.inflate
    if ret = .ok then loop fuel σ else some (ret, σ)

/-- The calls of `inflate` in the loop: the stream before each call and what the call writes. -/
def calls : ℕ → Inflating zlib → List (Inflating zlib × List UInt8)
  | 0, _ => []
  | fuel + 1, σ =>
    (σ.grow, (zlib.inflate σ.grow.decoder σ.grow.availOut).2.1) ::
      match σ.grow.inflate with
      | some (.ok, σ') => calls fuel σ'
      | _ => []

end Inflating

variable (zlib)

/-- `guess_size`. -/
def guessSize (n : ℕ) : ℕ := if n < 1024 then usize (n * 4) else usize (n * 2)

/-- `zlib_inflate`, with at most `fuel` turns of its loop. -/
def zlibInflate (fuel : ℕ) (data : List UInt8) : Option (Except String (List UInt8)) :=
  match zlib.inflateInit (data.take (u32 data.length)) with
  | none => some (.error "Failed to initialize zlib inflate")
  | some decoder => do
    let outBuffer := resize [] (guessSize data.length)
    let (ret, σ) ← Inflating.loop fuel {
      decoder := decoder
      outBuffer := outBuffer
      nextOut := 0
      availOut := u32 outBuffer.length
      totalOut := 0 }
    if ret ≠ .streamEnd then some (.error "Failed to inflate: corrupt data or stream error")
    else some (.ok (resize σ.outBuffer σ.totalOut))

def gzipInflate : ℕ → List UInt8 → Option (Except String (List UInt8)) := zlibInflate zlib

/-! ### What zlib promises -/

/-- One `inflate` on a complete stream that has the bytes `pending` left to write and `unread` bytes
left to read, by what it does with `availOut` bytes of room. -/
inductive InflateStep (Pending : zlib.Decoder → List UInt8 → ℕ → Prop) (pending : List UInt8)
    (unread availOut : ℕ) : ReturnCode × List UInt8 × zlib.Decoder → Prop
  /-- `Z_OK` after some progress. -/
  | progress (written rest : List UInt8) (unread' : ℕ) (decoder : zlib.Decoder)
      (hpending : pending = written ++ rest) (hroom : written.length ≤ availOut)
      (hread : unread' ≤ unread) (hprogress : written ≠ [] ∨ unread' < unread)
      (hdecoder : Pending decoder rest unread') :
      InflateStep Pending pending unread availOut (.ok, written, decoder)
  /-- `Z_STREAM_END` with the last byte. -/
  | finish (decoder : zlib.Decoder) (hroom : pending.length ≤ availOut) :
      InflateStep Pending pending unread availOut (.streamEnd, pending, decoder)
  /-- `Z_BUF_ERROR` where no progress is possible: there is no room for what is to be written. -/
  | stuck (decoder : zlib.Decoder) (hpending : pending ≠ []) (hroom : availOut = 0) :
      InflateStep Pending pending unread availOut (.bufError, [], decoder)

/-- The documented behaviour that the round trip rests on, with the encoding of a stream and what a
decoder has left to do as zlib's own. -/
structure Zlib.Contract (zlib : Zlib) where
  encode : Format → List UInt8 → List UInt8
  Pending : zlib.Decoder → List UInt8 → ℕ → Prop
  /-- A stream has at least a header. -/
  encode_ne_nil : ∀ format data, encode format data ≠ []
  /-- With enough room `deflate` writes the encoding of its input; -/
  deflate_enough : ∀ format data availOut, (encode format data).length ≤ availOut →
    zlib.deflate format data availOut = (.streamEnd, encode format data)
  /-- with less it does not come to the end of the stream. -/
  deflate_short : ∀ format data availOut, availOut < (encode format data).length →
    (zlib.deflate format data availOut).1 ≠ .streamEnd
  /-- A stream can be opened, and has what was encoded left to write. -/
  inflate_start : ∀ format data, ∃ decoder unread,
    zlib.inflateInit (encode format data) = some decoder ∧ Pending decoder data unread
  inflate_step : ∀ decoder pending unread availOut, Pending decoder pending unread →
    InflateStep zlib Pending pending unread availOut (zlib.inflate decoder availOut)

/-- What every inflating stream promises, whatever its input: it writes no more than there is room
for, it does not read or write without end, and `Z_OK` means progress. -/
structure Zlib.Streaming (zlib : Zlib) where
  /-- The bytes that are left to read. -/
  unread : zlib.Decoder → ℕ
  /-- A bound on the bytes that are left to write. -/
  unwritten : zlib.Decoder → ℕ
  written_le : ∀ decoder availOut, (zlib.inflate decoder availOut).2.1.length ≤ availOut
  unread_le : ∀ decoder availOut, unread (zlib.inflate decoder availOut).2.2 ≤ unread decoder
  unwritten_le : ∀ decoder availOut, (zlib.inflate decoder availOut).2.1.length +
    unwritten (zlib.inflate decoder availOut).2.2 ≤ unwritten decoder
  progress : ∀ decoder availOut, (zlib.inflate decoder availOut).1 = .ok →
    (zlib.inflate decoder availOut).2.1 ≠ [] ∨
      unread (zlib.inflate decoder availOut).2.2 < unread decoder

end DataOps

end IACore
