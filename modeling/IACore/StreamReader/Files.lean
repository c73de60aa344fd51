import IACore.FileOps.Mapping
import IACore.StreamReader.Objects

/-!
# `StreamReader`s over files

A reader from `create_from_file` points into a mapping that `map_file` made, and gives it back with
`unmap_file` when it is destroyed or assigned to.  The readers live in the process of
`FileOps/Mapping.lean`, whose other code goes on opening, mapping and unmapping; that code unmaps
what its own calls have mapped, as it cannot know what the readers point at.

A read is modelled by the places of what it copies, so that it makes no difference what is in the
files.  `origin` is not in the source: it says which file a reader was created from.
-/

namespace IACore

open FileOps

/-- What `m_data` points at: memory of the program, or the start of a mapping. -/
inductive Pointer
  | memory (bytes : List UInt8)
  | mapped (address : ℕ)
  deriving DecidableEq, Repr

/-- Where a byte comes from. -/
inductive Place
  | file (inode offset : ℕ)
  | memory (byte : UInt8)
  deriving DecidableEq, Repr

/-- The byte of a file that is at an address; behind the end of the file there is none. -/
def Posix.load (k : Posix) (address : ℕ) : Option Place :=
  match k.mappings.find? fun v => v.address ≤ address ∧ address < v.address + v.length with
  | some v =>
    let offset := v.offset + (address - v.address)
    if offset < k.size v.inode then some (.file v.inode offset) else none
  | none => none

/-- `m_data[i]`. -/
def Pointer.load (k : Posix) : Pointer → ℕ → Option Place
  | .memory bytes, i => bytes[i]?.map .memory
  | .mapped address, i => k.load (address + i)

/-- A `StreamReader`. -/
structure FileReader where
  data : Pointer
  cursor : ℕ
  dataSize : ℕ
  storageType : StreamReader.StorageType
  deriving DecidableEq, Repr

namespace FileReader

/-- The constructors over a vector and over a span. -/
def ofMemory (bytes : List UInt8) (storageType : StreamReader.StorageType) : FileReader :=
  ⟨.memory bytes, 0, bytes.length, storageType⟩

/-- The address that a reader is to give to `unmap_file`. -/
def entry (r : FileReader) : Option ℕ :=
  match r.storageType, r.data with
  | .owningMmap, .mapped address => some address
  -- the table has no entry for what is not a mapping
  | _, _ => none

/-- What a move leaves of `other`; `m_cursor` is not set. -/
def left (other : FileReader) : FileReader :=
  { other with data := .memory [], dataSize := 0, storageType := .nonOwning }

/-- `read(buffer, size)` and `read<T>`: the places of what is copied; `none` where the copy leaves
the mapping or the file. -/
def read (r : FileReader) (k : Posix) (size : ℕ) :
    Option (Except String (List Place) × FileReader) :=
  if usize (r.cursor + size) > r.dataSize then
    some (.error "Unexpected EOF while reading", r)
  else
    ((List.range size).mapM fun i => r.data.load k (r.cursor + i)).map fun places =>
      (.ok places, { r with cursor := usize (r.cursor + size) })

def skip (r : FileReader) (amount : ℕ) : FileReader :=
  { r with cursor := min (usize (r.cursor + amount)) r.dataSize }

def seek (r : FileReader) (pos : ℕ) : FileReader :=
  { r with cursor := if pos > r.dataSize then r.dataSize else pos }

end FileReader

/-- The process with its readers; `callers` are the addresses that the rest of the program has got
from `map_file` and `map_shared_memory` and not yet given to `unmap_file`. -/
structure FileReaders (ι κ : Type*) where
  files : Mappings ι
  callers : ℕ → Bool
  readers : κ → Option FileReader
  origin : κ → Option ℕ

namespace FileReaders

variable {ι κ : Type*}

inductive Event (ι κ : Type*)
  /-- The rest of the program. -/
  | process (event : Mappings.Event ι)
  | createFromFile (id : κ) (path : String) (answers : Answers)
  /-- `FileOps::stream_from_file`. -/
  | streamFromFile (id : κ) (path : String) (answers : Answers)
  | construct (id : κ) (bytes : List UInt8) (isVector : Bool)
  | moveConstruct (id source : κ)
  | moveAssign (target source : κ)
  | destroy (id : κ)
  | read (id : κ) (size : ℕ)
  | skip (id : κ) (amount : ℕ)
  | seek (id : κ) (pos : ℕ)

/-- `FileOps::unmap_file(m_data)`, if the reader owns a mapping. -/
def giveBack (files : Mappings ι) (r : FileReader) : Mappings ι :=
  match r.entry with
  | some address => files.unmapFile address
  | none => files

/-- The rest of the program gets an address, if its call succeeds. -/
def grant (callers : ℕ → Bool) : Except String ℕ → ℕ → Bool
  | .ok address => Function.update callers address true
  | .error _ => callers

variable [DecidableEq ι] [DecidableEq κ]

/-- A step of the rest of the program. -/
def process (σ : FileReaders ι κ) : Mappings.Event ι → Option (FileReaders ι κ)
  | .mapFile path answers =>
    let (result, files) := σ.files.mapFile path answers
    some { σ with files, callers := grant σ.callers (result.map Prod.fst) }
  | .mapSharedMemory name size isOwner answers =>
    let (result, files) := σ.files.mapSharedMemory name size isOwner answers
    some { σ with files, callers := grant σ.callers result }
  | .unmapFile mappedPtr =>
    if σ.callers mappedPtr then
      some { σ with
        files := σ.files.unmapFile mappedPtr
        callers := Function.update σ.callers mappedPtr false }
    else none
  | event => (σ.files.step event).map fun files => { σ with files }

/-- The reader `id` becomes `r`, and reads what it was created from. -/
def put (σ : FileReaders ι κ) (id : κ) (r : Option FileReader) (origin : Option ℕ) :
    FileReaders ι κ :=
  { σ with
    readers := Function.update σ.readers id r
    origin := Function.update σ.origin id origin }

/-- `create_from_file`; the local reader is moved into the result. -/
def createFromFile (σ : FileReaders ι κ) (id : κ) (path : String) (answers : Answers) :
    FileReaders ι κ :=
  match σ.files.mapFile path answers with
  | (.error _, files) => { σ with files }
  | (.ok (address, size), files) =>
    { σ with files }.put id (some ⟨.mapped address, 0, size, .owningMmap⟩)
      (σ.files.posix.names .file path)

/-- What an event does, where it may happen. -/
def step (σ : FileReaders ι κ) : Event ι κ → Option (FileReaders ι κ)
  | .process event => σ.process event
  | .createFromFile id path answers =>
    match σ.readers id with
    | some _ => none
    | none => some (σ.createFromFile id path answers)
  | .streamFromFile id path answers =>
    match σ.readers id with
    | some _ => none
    | none =>
      if σ.files.posix.names .file path = none then some σ
      else some (σ.createFromFile id path answers)
  | .construct id bytes isVector =>
    match σ.readers id with
    | some _ => none
    | none =>
      some (σ.put id (some (.ofMemory bytes (if isVector then .owningVector else .nonOwning))) none)
  | .moveConstruct id source =>
    match σ.readers id, σ.readers source with
    | none, some other => some ((σ.put source (some other.left) none).put id (some other)
        (σ.origin source))
    | _, _ => none
  | .moveAssign target source =>
    match σ.readers target, σ.readers source with
    | some this, some other =>
      -- `this != &other`
      if target = source then some σ
      else some (({ σ with files := giveBack σ.files this }.put source (some other.left) none).put
        target (some other) (σ.origin source))
    | _, _ => none
  | .destroy id =>
    match σ.readers id with
    | some r => some ({ σ with files := giveBack σ.files r }.put id none none)
    | none => none
  | .read id size =>
    match (σ.readers id).bind fun r => r.read σ.files.posix size with
    | some (_, r) => some { σ with readers := Function.update σ.readers id (some r) }
    | none => none
  | .skip id amount =>
    (σ.readers id).map fun r => { σ with
      readers := Function.update σ.readers id (some (r.skip amount)) }
  | .seek id pos =>
    (σ.readers id).map fun r => { σ with
      readers := Function.update σ.readers id (some (r.seek pos)) }

/-- Before anything is opened or mapped and before there is a reader. -/
def start (names : Space → String → Option ℕ) (size : ℕ → ℕ) (nextInode : ℕ) :
    FileReaders ι κ where
  files := Mappings.start names size nextInode
  callers _ := false
  readers _ := none
  origin _ := none

/-! ### What the readers are for -/

/-- The entry of `s_mapped_files` that a reader is to give back. -/
def entry (σ : FileReaders ι κ) (id : κ) : Option ℕ := (σ.readers id).bind FileReader.entry

/-- A reader of the first `size` bytes of a file with some content. -/
def overFile (content : ℕ → UInt8) (r : FileReader) : StreamReader :=
  ⟨(List.range r.dataSize).map content, r.cursor, r.dataSize⟩

/-- The bytes at some places. -/
def bytesAt (content : ℕ → ℕ → UInt8) (places : List Place) : List UInt8 :=
  places.map fun
    | .file inode offset => content inode offset
    | .memory byte => byte

/-- A read of `r` does what the read of a reader over the bytes of the file does, whatever these
are. -/
def ReadsFile (k : Posix) (r : FileReader) (inode : ℕ) : Prop :=
  ∀ content size, r.cursor + size < 18446744073709551616 →
    (r.read k size).map (fun out => (out.1.map (bytesAt content), overFile (content inode) out.2)) =
      (overFile (content inode) r).readBytes size

end FileReaders

end IACore
