import IACore.Machine
import IACore.Vec
import Mathlib.Logic.Function.Basic

/-!
# `StreamWriter`

The byte sink of `IACore/StreamWriter.hpp` over a file, a vector of its own or a caller's span, and
the programs that use any number of file-backed writers, with the files themselves.

`m_buffer` is modelled by what it points at, so that moving the vector, which keeps its elements
where they are, keeps `Buffer.vector`.  An operation answers `none` where the C++ is undefined: a
`std::memset` or `std::memcpy` that leaves the buffer.  The source of a write is taken to lie
outside the writer's own vector, and `std::vector::resize` to find the memory it asks for.
-/

namespace IACore

/-- The files, by path. -/
abbrev Disk : Type := String → Option (List UInt8)

/-- How the C library answers: whether `std::fopen(path, "wb")` succeeds, and how many of the bytes
it is given `std::fwrite` writes. -/
structure Stdio where
  fopen : String → Bool
  fwrite : ℕ → ℕ

/-- No path but the empty one fails to open, and nothing is written short. -/
def Stdio.reliable : Stdio := ⟨fun path => path ≠ "", id⟩

/-- `StreamWriter::StorageType`. -/
inductive StorageType
  | nonOwning
  | owningFile
  | owningVector
  deriving DecidableEq, Repr

/-- What `m_buffer` points at: nothing, the elements of `m_owning_vector`, or the caller's span. -/
inductive Buffer
  | null
  | vector
  | span (memory : List UInt8)
  deriving DecidableEq, Repr

/-- `StreamWriter`. -/
structure StreamWriter where
  buffer : Buffer
  cursor : ℕ
  capacity : ℕ
  filePath : String
  owningVector : List UInt8
  storageType : StorageType
  deriving DecidableEq, Repr

namespace StreamWriter

/-- The memory behind `m_buffer`. -/
def memory (w : StreamWriter) : List UInt8 :=
  match w.buffer with
  | .null => []
  | .vector => w.owningVector
  | .span memory => memory

/-- `data()[0 .. cursor())`. -/
def contents (w : StreamWriter) : List UInt8 := w.memory.take w.cursor

/-! ### Construction -/

/-- The default constructor. -/
def construct : StreamWriter where
  buffer := .vector
  cursor := 0
  capacity := 256
  filePath := ""
  owningVector := resize [] 256
  storageType := .owningVector

/-- The constructor over a caller's span. -/
def ofSpan (data : List UInt8) : StreamWriter where
  buffer := .span data
  cursor := 0
  capacity := data.length
  filePath := ""
  owningVector := []
  storageType := .nonOwning

/-- The move constructor: the new writer, and what is left of `other`. -/
def moveConstruct (other : StreamWriter) : StreamWriter × StreamWriter :=
  ({ other with buffer := if other.storageType = .owningVector then .vector else other.buffer },
    -- `m_cursor` stays as it is, and `m_file_path` is copied.
    { other with
      buffer := .null, capacity := 0, owningVector := [], storageType := .nonOwning })

/-- `create_from_file`. -/
def createFromFile (stdio : Stdio) (path : String) (disk : Disk) :
    Except String StreamWriter × Disk :=
  if stdio.fopen path then
    (.ok (moveConstruct { construct with filePath := path, storageType := .owningFile }).1,
      Function.update disk path (some []))
  else
    (.error ("Failed to open file for writing: " ++ path), disk)

/-! ### Writing to the file -/

/-- `flush_to_disk`. -/
def flushToDisk (stdio : Stdio) (w : StreamWriter) (disk : Disk) : Except String Unit × Disk :=
  if w.storageType ≠ .owningFile ∨ w.filePath = "" then
    (.ok (), disk)
  else if stdio.fopen w.filePath then
    let written := stdio.fwrite w.cursor
    (if written = w.cursor then .ok ()
      else .error s!"Incomplete write: {written} of {w.cursor} bytes written",
      Function.update disk w.filePath (some (w.contents.take written)))
  else
    (.error ("Failed to open file for writing: " ++ w.filePath), disk)

/-- `flush`. -/
def flush (stdio : Stdio) (w : StreamWriter) (disk : Disk) :
    Except String Unit × StreamWriter × Disk :=
  match w.flushToDisk stdio disk with
  | (.ok (), disk) => (.ok (), { w with storageType := .owningVector }, disk)
  | (.error message, disk) => (.error message, w, disk)

/-- The destructor; a failure is only printed. -/
def destruct (stdio : Stdio) (w : StreamWriter) (disk : Disk) : Disk :=
  if w.storageType = .owningFile then (w.flushToDisk stdio disk).2 else disk

/-- `operator=` from a different writer: the target, and what is left of `other`. -/
def moveAssign (stdio : Stdio) (w other : StreamWriter) (disk : Disk) :
    StreamWriter × StreamWriter × Disk :=
  ({ other with buffer := if other.storageType = .owningVector then .vector else other.buffer },
    { other with
      buffer := .null, cursor := 0, capacity := 0, filePath := "", owningVector := [],
      storageType := .nonOwning },
    if w.storageType = .owningFile then (w.flushToDisk stdio disk).2 else disk)

/-! ### Writing to the buffer -/

/-- `std::memset` or `std::memcpy` to `m_buffer + m_cursor`. -/
def store (w : StreamWriter) (bytes : List UInt8) : Option StreamWriter :=
  let stored := w.memory.take w.cursor ++ bytes ++ w.memory.drop (w.cursor + bytes.length)
  if w.cursor + bytes.length ≤ w.memory.length then
    match w.buffer with
    | .null => some w
    | .vector => some { w with owningVector := stored }
    | .span _ => some { w with buffer := .span stored }
  else none

/-- The room that both `write`s make for `count` bytes. -/
def reserve (w : StreamWriter) (count : ℕ) : Except String StreamWriter :=
  if usize (w.cursor + count) > w.capacity then
    if w.storageType = .nonOwning then
      .error "StreamWriter buffer overflow (NonOwning)"
    else
      let required := usize (w.cursor + count)
      let doubleCap := usize (w.capacity * 2)
      let newCapacity := if doubleCap > required then doubleCap else required
      let vector := resize w.owningVector newCapacity
      .ok { w with owningVector := vector, capacity := vector.length, buffer := .vector }
  else .ok w

/-- Both `write`s: make room, store, move the cursor. -/
def writeBytes (w : StreamWriter) (bytes : List UInt8) :
    Option (Except String Unit × StreamWriter) :=
  match w.reserve bytes.length with
  | .error message => some (.error message, w)
  | .ok w =>
    (w.store bytes).map fun w => (.ok (), { w with cursor := usize (w.cursor + bytes.length) })

/-- `write(byte, count)`. -/
def write (w : StreamWriter) (byte : UInt8) (count : ℕ) :
    Option (Except String Unit × StreamWriter) :=
  w.writeBytes (List.replicate count byte)

/-- `write(buffer, size)`. -/
def writeBuffer (w : StreamWriter) (buffer : List UInt8) :
    Option (Except String Unit × StreamWriter) :=
  w.writeBytes buffer

/-- `write<T>` of a value with the given object representation. -/
def writeValue (w : StreamWriter) (object : List UInt8) :
    Option (Except String Unit × StreamWriter) :=
  w.writeBuffer object

end StreamWriter

end IACore
