import IACore.StreamWriter

/-!
# Programs over one writer in memory

A writer that is default-constructed or built over a caller's span, and any sequence of writes and
flushes on it whose sizes do not make `m_cursor + count` wrap.  Beside the writer a state records
the bytes whose `write` has returned success; no operation reads that record.
-/

namespace IACore

namespace InMemory

/-- The two constructors; `data` is what the caller's span holds at first. -/
inductive Source
  | default
  | span (data : List UInt8)
  deriving DecidableEq, Repr

structure State where
  writer : StreamWriter
  disk : Disk
  written : List UInt8

/-- One call on the writer. -/
inductive Event
  | write (byte : UInt8) (count : ℕ)
  | writeBuffer (buffer : List UInt8)
  | writeValue (object : List UInt8)
  | flush
  deriving DecidableEq, Repr

/-- What the call writes, if it is a `write`. -/
def Event.bytes : Event → Option (List UInt8)
  | .write byte count => some (List.replicate count byte)
  | .writeBuffer buffer => some buffer
  | .writeValue object => some object
  | .flush => none

def start (disk : Disk) : Source → State
  | .default => ⟨.construct, disk, []⟩
  | .span data => ⟨.ofSpan data, disk, []⟩

namespace State

/-- A `write` of `bytes`; they are recorded if it returns success. -/
def writeWith (σ : State) (bytes : List UInt8)
    (write : StreamWriter → Option (Except String Unit × StreamWriter)) : Option State :=
  if σ.writer.cursor + bytes.length < 18446744073709551616 then do
    match ← write σ.writer with
    | (.ok (), writer) => some { σ with writer := writer, written := σ.written ++ bytes }
    | (.error _, writer) => some { σ with writer := writer }
  else none

/-- What a call does, if its size does not wrap and it is defined. -/
def step (stdio : Stdio) (σ : State) : Event → Option State
  | .write byte count =>
    σ.writeWith (List.replicate count byte) fun writer => writer.write byte count
  | .writeBuffer buffer => σ.writeWith buffer fun writer => writer.writeBuffer buffer
  | .writeValue object => σ.writeWith object fun writer => writer.writeValue object
  | .flush =>
    let (_, writer, disk) := σ.writer.flush stdio σ.disk
    some { σ with writer := writer, disk := disk }

end State

/-- `data()[0 .. cursor())` is what was written; and behind a span writer is still the caller's
span, which holds what was written and, after it, what it held at first. -/
def Visible (σ : State) : Source → Prop
  | .default => σ.writer.contents = σ.written
  | .span data => σ.writer.contents = σ.written ∧ σ.written.length ≤ data.length ∧
      σ.writer.buffer = .span (σ.written ++ data.drop σ.written.length)

/-- The call is a `write` to the caller's span that would take the total beyond its size. -/
def Exceeds (σ : State) (event : Event) : Source → Prop
  | .default => False
  | .span data => ∃ bytes, event.bytes = some bytes ∧
      data.length < σ.written.length + bytes.length

/-- A `write` fails if it would exceed the span. -/
def ExcessFails (source : Source) (σ : State) (event : Event) : Prop :=
  Exceeds σ event source → ∀ bytes, event.bytes = some bytes →
    ∃ message, σ.writer.writeBytes bytes = some (.error message, σ.writer)

/-- A `write` that would exceed the span comes when the writer still knows that it does not own its
memory, as `flush` makes it forget. -/
def ExcessKnown (source : Source) (σ : State) (event : Event) : Prop :=
  Exceeds σ event source → σ.writer.storageType = .nonOwning

/-! ### A fixed buffer -/

/-- A `write` of `bytes` to the span `memory` that succeeds exactly if there is room behind the
cursor, and then changes the bytes there only; one that fails changes nothing. -/
def WriteExact (memory : List UInt8) (w : StreamWriter) (bytes : List UInt8)
    (write : Option (Except String Unit × StreamWriter)) : Prop :=
  if bytes.length ≤ memory.length - w.cursor then
    write = some (.ok (), { w with
      buffer := .span (memory.take w.cursor ++ bytes ++ memory.drop (w.cursor + bytes.length))
      cursor := w.cursor + bytes.length })
  else ∃ message, write = some (.error message, w)

end InMemory

end IACore
