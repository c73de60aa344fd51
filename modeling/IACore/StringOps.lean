import IACore.Library.BitString
import IACore.Text

/-!
# `StringOps::encode_base64` and `StringOps::decode_base64`

The encoder takes three bytes a turn and looks its letters up in a table; the decoder collects four
characters a time in `tmp_buf` and finds their values by range.
-/

namespace IACore

namespace StringOps

/-- `BASE64_CHAR_TABLE`. -/
def base64CharTable : Text :=
  text "ABCDEFGHIJKLMNOPQRSTUVWXYZabcdefghijklmnopqrstuvwxyz0123456789+/"

/-- `is_base64`. -/
def isBase64 (c : UInt8) : Bool :=
  ('A'.toUInt8 ≤ c && c ≤ 'Z'.toUInt8) || ('a'.toUInt8 ≤ c && c ≤ 'z'.toUInt8) ||
    ('0'.toUInt8 ≤ c && c ≤ '9'.toUInt8) || c = '+'.toUInt8 || c = '/'.toUInt8

/-- `get_base64_index`. -/
def getBase64Index (c : UInt8) : BitVec 8 :=
  if 'A'.toUInt8 ≤ c ∧ c ≤ 'Z'.toUInt8 then (c - 'A'.toUInt8).toBitVec
  else if 'a'.toUInt8 ≤ c ∧ c ≤ 'z'.toUInt8 then (c - 'a'.toUInt8 + 26).toBitVec
  else if '0'.toUInt8 ≤ c ∧ c ≤ '9'.toUInt8 then (c - '0'.toUInt8 + 52).toBitVec
  else if c = '+'.toUInt8 then 62
  else if c = '/'.toUInt8 then 63
  else 0

/-! ### Encoding -/

/-- `BASE64_CHAR_TABLE[x & 0x3F]`. -/
def letter (x : BitVec 32) : UInt8 := base64CharTable.getD (x &&& 0x3F).toNat 0

/-- The three bytes from `i` on in one word, zeros past the end. -/
def triple (data : List UInt8) (i : ℕ) : BitVec 32 :=
  let b0 : BitVec 32 := (data.getD i 0).toBitVec.setWidth 32
  let b1 : BitVec 32 :=
    if i + 1 < data.length then (data.getD (i + 1) 0).toBitVec.setWidth 32 else 0
  let b2 : BitVec 32 :=
    if i + 2 < data.length then (data.getD (i + 2) 0).toBitVec.setWidth 32 else 0
  b0 <<< 16 ||| b1 <<< 8 ||| b2

/-- The four characters that one turn appends. -/
def encodeTurn (data : List UInt8) (i : ℕ) : Text :=
  let triple := triple data i
  [letter (triple >>> 18), letter (triple >>> 12),
    if i + 1 < data.length then letter (triple >>> 6) else '='.toUInt8,
    if i + 2 < data.length then letter triple else '='.toUInt8]

/-- The loop from `i` on. -/
def encodeFrom (data : List UInt8) (i : ℕ) (result : Text) : Text :=
  if i < data.length then encodeFrom data (i + 3) (result ++ encodeTurn data i) else result
termination_by data.length - i

/-- `StringOps::encode_base64`. -/
def encodeBase64 (data : List UInt8) : Text := encodeFrom data 0 []

/-! ### Decoding -/

/-- The local variables of `decode_base64`. -/
structure Base64Decoder where
  result : List UInt8
  i : ℕ
  tmpBuf : List UInt8
  deriving DecidableEq, Repr

namespace Base64Decoder

def start : Base64Decoder := ⟨[], 0, [0, 0, 0, 0]⟩

/-- `get_base64_index(tmp_buf[j])`. -/
def index (tmpBuf : List UInt8) (j : ℕ) : BitVec 8 := getBase64Index (tmpBuf.getD j 0)

/-- The three bytes that four values spell. -/
def byte0 (n0 n1 : BitVec 8) : BitVec 8 := n0 <<< 2 ||| (n1 &&& 0x30) >>> 4

def byte1 (n1 n2 : BitVec 8) : BitVec 8 := (n1 &&& 0x0F) <<< 4 ||| (n2 &&& 0x3C) >>> 2

def byte2 (n2 n3 : BitVec 8) : BitVec 8 := (n2 &&& 0x03) <<< 6 ||| n3

/-- The loop body, on a character of the alphabet. -/
def take (σ : Base64Decoder) (c : UInt8) : Base64Decoder :=
  let tmpBuf := σ.tmpBuf.set σ.i c
  let i := σ.i + 1
  if i = 4 then
    let n0 := index tmpBuf 0
    let n1 := index tmpBuf 1
    let n2 := index tmpBuf 2
    let n3 := index tmpBuf 3
    ⟨σ.result ++ [⟨byte0 n0 n1⟩, ⟨byte1 n1 n2⟩, ⟨byte2 n2 n3⟩], 0, tmpBuf⟩
  else ⟨σ.result, i, tmpBuf⟩

/-- The loop, which a `=` or a foreign character ends. -/
def run (σ : Base64Decoder) : Text → Base64Decoder
  | [] => σ
  | c :: data =>
    if c = '='.toUInt8 then σ
    else if !isBase64 c then σ
    else run (σ.take c) data

/-- `tmp_buf` with `'A'` from `i` on. -/
def padded (σ : Base64Decoder) : List UInt8 :=
  (List.range' σ.i (4 - σ.i)).foldl (fun tmpBuf j => tmpBuf.set j 'A'.toUInt8) σ.tmpBuf

/-- What follows the loop. -/
def finish (σ : Base64Decoder) : List UInt8 :=
  if 0 < σ.i then
    let n0 := index σ.padded 0
    let n1 := index σ.padded 1
    let n2 := index σ.padded 2
    let result := if 1 < σ.i then σ.result ++ [⟨byte0 n0 n1⟩] else σ.result
    if 2 < σ.i then result ++ [⟨byte1 n1 n2⟩] else result
  else σ.result

end Base64Decoder

/-- `StringOps::decode_base64`. -/
def decodeBase64 (data : Text) : List UInt8 := (Base64Decoder.start.run data).finish

/-! ### The bit strings behind them -/

/-- The six bits of a letter: its place in the table. -/
def sextet (c : UInt8) : List Bool := BitString.bits 6 (BitVec.ofNat 6 (base64CharTable.idxOf c))

/-- The bits of a byte. -/
def octetBits (byte : UInt8) : List Bool := BitString.bits 8 byte.toBitVec

/-- The whole octets of a bit string. -/
def octets (bits : List Bool) : List UInt8 := (BitString.words 8 bits).map UInt8.ofBitVec

end StringOps

end IACore
