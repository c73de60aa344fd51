import IACore.StreamWriter

/-!
# `StreamReader`

The bounded reader of `IACore/StreamReader.hpp` over a block of bytes, and the programs that write
through a `StreamWriter` and read back what it shows.  As for the writer, an operation answers
`none` where the C++ is undefined: a `std::memcpy` that leaves the block.
-/

namespace IACore

/-- `StreamReader`: what `m_data` points at, `m_cursor` and `m_data_size`. -/
structure StreamReader where
  data : List UInt8
  cursor : ℕ
  dataSize : ℕ
  deriving DecidableEq, Repr

namespace StreamReader

/-- The constructor over a span. -/
def ofSpan (data : List UInt8) : StreamReader := ⟨data, 0, data.length⟩

/-- What both `read`s do for `size` bytes: check, copy, move the cursor. -/
def readBytes (r : StreamReader) (size : ℕ) :
    Option (Except String (List UInt8) × StreamReader) :=
  if usize (r.cursor + size) > r.dataSize then
    some (.error "Unexpected EOF while reading", r)
  else if r.cursor + size ≤ r.data.length then
    some (.ok ((r.data.drop r.cursor).take size), { r with cursor := usize (r.cursor + size) })
  else none

/-- `read(buffer, size)`, with what it copies to the buffer. -/
def readBuffer (r : StreamReader) (size : ℕ) :
    Option (Except String (List UInt8) × StreamReader) :=
  r.readBytes size

/-- `read<T>`, with the object representation of the value. -/
def readValue (r : StreamReader) (size : ℕ) :
    Option (Except String (List UInt8) × StreamReader) :=
  r.readBytes size

def skip (r : StreamReader) (amount : ℕ) : StreamReader :=
  { r with cursor := min (usize (r.cursor + amount)) r.dataSize }

def seek (r : StreamReader) (pos : ℕ) : StreamReader :=
  { r with cursor := if pos > r.dataSize then r.dataSize else pos }

def remaining (r : StreamReader) : ℕ := usizeSub r.dataSize r.cursor

def isEof (r : StreamReader) : Bool := r.dataSize ≤ r.cursor

/-! ### Bounds -/

/-- A reader over its block with the cursor in it. -/
structure Within (r : StreamReader) : Prop where
  dataSize : r.dataSize = r.data.length
  cursor_le : r.cursor ≤ r.dataSize
  size_lt : r.dataSize < 18446744073709551616

/-- A read of `size` bytes that succeeds exactly if so many are left, and then copies them and moves
over them; one that fails changes nothing. -/
def ReadExact (r : StreamReader) (size : ℕ)
    (read : Option (Except String (List UInt8) × StreamReader)) : Prop :=
  if size ≤ r.dataSize - r.cursor then
    read = some (.ok ((r.data.drop r.cursor).take size), { r with cursor := r.cursor + size })
  else ∃ message, read = some (.error message, r)

/-- A skip to the end or over `amount` bytes, which is never backwards. -/
def SkipExact (r : StreamReader) (amount : ℕ) : Prop :=
  r.skip amount = { r with cursor := min (r.cursor + amount) r.dataSize } ∧
    r.cursor ≤ (r.skip amount).cursor

def SeekExact (r : StreamReader) (pos : ℕ) : Prop :=
  r.seek pos = { r with cursor := min pos r.dataSize }

end StreamReader

/-! ### Writing and reading back -/

namespace Roundtrip

/-- A call of `write`. -/
inductive Write
  | fill (byte : UInt8) (count : ℕ)
  | buffer (data : List UInt8)
  | value (object : List UInt8)
  deriving DecidableEq, Repr

namespace Write

/-- What it writes. -/
def written : Write → List UInt8
  | .fill byte count => List.replicate count byte
  | .buffer data => data
  | .value object => object

def run (w : StreamWriter) : Write → Option (Except String Unit × StreamWriter)
  | .fill byte count => w.write byte count
  | .buffer data => w.writeBuffer data
  | .value object => w.writeValue object

end Write

/-- A call of `read`, by the number of bytes that it asks for. -/
inductive Read
  | buffer (size : ℕ)
  | value (size : ℕ)
  deriving DecidableEq, Repr

namespace Read

def size : Read → ℕ
  | .buffer size => size
  | .value size => size

def run (r : StreamReader) : Read → Option (Except String (List UInt8) × StreamReader)
  | .buffer size => r.readBuffer size
  | .value size => r.readValue size

end Read

/-- One `write` after the other; `none` if one fails or is undefined. -/
def writeAll (w : StreamWriter) : List Write → Option StreamWriter
  | [] => some w
  | write :: writes =>
    match write.run w with
    | some (.ok (), w) => writeAll w writes
    | _ => none

/-- One `read` after the other, with their results; `none` if one is undefined. -/
def readAll (r : StreamReader) :
    List Read → Option (List (Except String (List UInt8)) × StreamReader)
  | [] => some ([], r)
  | read :: reads => do
    let (result, r) ← read.run r
    let (results, r) ← readAll r reads
    some (result :: results, r)

/-- The bytes of a sequence of writes. -/
def total (writes : List Write) : List UInt8 := writes.flatMap Write.written

/-- The reader undoes the writer: the writes succeed, with the cursor in the capacity after each;
reads of the same sizes over `(data(), cursor())` give back the bytes of each write and end at the
end; and every further read fails. -/
structure Undone (writes : List Write) (reads further : List Read) : Prop where
  within : ∀ before, before <+: writes → ∃ w, writeAll .construct before = some w ∧
    w.cursor ≤ w.capacity
  back : ∃ w, writeAll .construct writes = some w ∧
    ∃ r, readAll (.ofSpan w.contents) reads = some (writes.map fun write => .ok write.written, r) ∧
      r.isEof = true ∧ r.remaining = 0 ∧
      ∃ results r', readAll r further = some (results, r') ∧
        ∀ result ∈ results, ∃ message, result = .error message

end Roundtrip

end IACore
