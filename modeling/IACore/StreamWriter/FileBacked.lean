import IACore.StreamWriter

/-!
# Programs over file-backed writers

Any number of writers, all from `create_from_file` on distinct paths, created, written to, flushed,
moved and destroyed in any order, with a C library that does not fail.  A writer that was moved from
may only be destroyed; a move construction needs a free place for the new writer.

Beside the writers and the files, a state records for each path the bytes whose `write` has returned
success on the stream that was created there; no operation reads that record.
-/

namespace IACore

namespace FileBacked

/-- A writer object, the stream it was made for and whether it has been moved from. -/
structure Slot where
  stream : String
  writer : StreamWriter
  movedFrom : Bool
  deriving DecidableEq, Repr

/-- The writer objects by name, the files, and what has been written to each stream. -/
structure World where
  writers : ℕ → Option Slot
  disk : Disk
  written : String → Option (List UInt8)

/-- One call; `w` and `v` name writers. -/
inductive Event
  | create (w : ℕ) (path : String)
  | write (w : ℕ) (byte : UInt8) (count : ℕ)
  | writeBuffer (w : ℕ) (buffer : List UInt8)
  | writeValue (w : ℕ) (object : List UInt8)
  | flush (w : ℕ)
  | moveConstruct (w v : ℕ)
  | moveAssign (w v : ℕ)
  | destroy (w : ℕ)
  deriving DecidableEq, Repr

/-- No writers yet. -/
def start (disk : Disk) : World := ⟨fun _ => none, disk, fun _ => none⟩

namespace World

/-- The writer `w`, unless it has been moved from. -/
def live (σ : World) (w : ℕ) : Option Slot := (σ.writers w).filter fun slot => !slot.movedFrom

/-- The writer `w` of the stream `stream` is now `writer`. -/
def put (σ : World) (w : ℕ) (stream : String) (writer : StreamWriter) : World :=
  { σ with writers := Function.update σ.writers w (some ⟨stream, writer, false⟩) }

/-- The writer `w` has been moved from. -/
def leave (σ : World) (w : ℕ) (stream : String) (writer : StreamWriter) : World :=
  { σ with writers := Function.update σ.writers w (some ⟨stream, writer, true⟩) }

/-- `create_from_file`, on a path that no stream was created on. -/
def create (σ : World) (w : ℕ) (path : String) : Option World :=
  if σ.writers w = none ∧ σ.written path = none then
    match StreamWriter.createFromFile .reliable path σ.disk with
    | (.ok writer, disk) =>
      some { (σ.put w path writer) with
        disk := disk, written := Function.update σ.written path (some []) }
    | (.error _, disk) => some { σ with disk := disk }
  else none

/-- A `write` of `bytes`; they are recorded if it returns success. -/
def writeWith (σ : World) (w : ℕ) (bytes : List UInt8)
    (write : StreamWriter → Option (Except String Unit × StreamWriter)) : Option World := do
  let slot ← σ.live w
  match ← write slot.writer with
  | (.ok (), writer) =>
    some { (σ.put w slot.stream writer) with
      written := Function.update σ.written slot.stream ((σ.written slot.stream).map (· ++ bytes)) }
  | (.error _, writer) => some (σ.put w slot.stream writer)

def flush (σ : World) (w : ℕ) : Option World := do
  let slot ← σ.live w
  let (_, writer, disk) := slot.writer.flush .reliable σ.disk
  some { (σ.put w slot.stream writer) with disk := disk }

def moveConstruct (σ : World) (w v : ℕ) : Option World := do
  let slot ← σ.live v
  if σ.writers w = none then
    let (writer, rest) := slot.writer.moveConstruct
    some ((σ.leave v slot.stream rest).put w slot.stream writer)
  else none

/-- `operator=`; from the writer itself it does nothing. -/
def moveAssign (σ : World) (w v : ℕ) : Option World := do
  let target ← σ.live w
  let slot ← σ.live v
  if w = v then
    some σ
  else
    let (writer, rest, disk) := target.writer.moveAssign .reliable slot.writer σ.disk
    some { (σ.leave v slot.stream rest).put w slot.stream writer with disk := disk }

def destroy (σ : World) (w : ℕ) : Option World := do
  let slot ← σ.writers w
  some { σ with
    writers := Function.update σ.writers w none, disk := slot.writer.destruct .reliable σ.disk }

/-- What a call does, if it may be made and is defined. -/
def step (σ : World) : Event → Option World
  | .create w path => σ.create w path
  | .write w byte count =>
    σ.writeWith w (List.replicate count byte) fun writer => writer.write byte count
  | .writeBuffer w buffer => σ.writeWith w buffer fun writer => writer.writeBuffer buffer
  | .writeValue w object => σ.writeWith w object fun writer => writer.writeValue object
  | .flush w => σ.flush w
  | .moveConstruct w v => σ.moveConstruct w v
  | .moveAssign w v => σ.moveAssign w v
  | .destroy w => σ.destroy w

/-- The stream whose file is due after `event`: a successful flush, the destruction of the writer
that owns the stream or its overwriting. -/
def due (σ : World) : Event → Option String
  | .flush w =>
    match σ.live w with
    | some slot =>
      match slot.writer.flush .reliable σ.disk with
      | (.ok (), _) => some slot.stream
      | (.error _, _) => none
    | none => none
  | .moveAssign w v => if w = v then none else (σ.live w).map Slot.stream
  | .destroy w => (σ.live w).map Slot.stream
  | _ => none

/-- `event` writes at least one byte to `stream` through a writer that has left file mode, as
`flush` makes it do. -/
def WritesLate (σ : World) (stream : String) : Event → Prop
  | .write w _ count => 0 < count ∧ OutOfFileMode w
  | .writeBuffer w buffer => 0 < buffer.length ∧ OutOfFileMode w
  | .writeValue w object => 0 < object.length ∧ OutOfFileMode w
  | _ => False
where
  OutOfFileMode (w : ℕ) : Prop :=
    ∃ slot, σ.live w = some slot ∧ slot.stream = stream ∧ slot.writer.storageType ≠ .owningFile

end World

end FileBacked

end IACore
