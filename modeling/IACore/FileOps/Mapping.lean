import IACore.Machine
import Mathlib.Data.List.Basic
import Mathlib.Logic.Function.Basic

/-!
# Mapped files

`native_open_file`, the class `MemoryMappedRegion` and the table `s_mapped_files` of `map_file`,
`map_shared_memory` and `unmap_file`, over the descriptors and the mappings of one POSIX process.

A system call does what POSIX says, and what is up to the system (whether it fails, which
descriptor and which address it gives) is an answer that the call is given; an answer that the
system would not give counts as a failure.  Regions are objects of C++, which are constructed, moved
and destroyed in any order; `step` allows what the language allows, and a program closes only what
it has opened itself.
-/

namespace IACore

/-! ### The system -/

namespace FileOps

inductive FileAccess
  | read
  | write
  | readWrite
  deriving DecidableEq, Repr

inductive FileMode
  | openExisting
  | openAlways
  | createNew
  | createAlways
  | truncateExisting
  deriving DecidableEq, Repr

end FileOps

open FileOps

/-- The value of an `off_t` that is converted from a `u64` or `usize`. -/
def offT (n : UInt64) : ℤ :=
  if n.toNat < 9223372036854775808 then n.toNat else n.toNat - 18446744073709551616

/-- Whole pages. -/
def pageAlign (length : ℕ) : ℕ := (length + 4095) / 4096 * 4096

/-- A mapping: `length` bytes at `address` are those of a file from `offset` on. -/
structure Vma where
  address : ℕ
  length : ℕ
  inode : ℕ
  offset : ℕ
  deriving DecidableEq, Repr

/-- What is left of a mapping without the addresses from `first` up to `last`. -/
def Vma.without (v : Vma) (first last : ℕ) : List Vma :=
  (if v.address < first then [{ v with length := min v.length (first - v.address) }] else []) ++
    if last < v.address + v.length then
      [{ v with
        address := max last v.address
        length := v.address + v.length - max last v.address
        offset := v.offset + (max last v.address - v.address) }]
    else []

/-- An open file of the process. -/
structure OpenFile where
  fd : ℤ
  inode : ℕ
  access : FileAccess
  deriving DecidableEq, Repr

/-- Where a name is looked up: by `open` or by `shm_open`. -/
inductive Space
  | file
  | sharedMemory
  deriving DecidableEq, Repr

/-- The flags of `open`. -/
structure OpenFlags where
  access : FileAccess
  creat : Bool
  excl : Bool
  trunc : Bool
  deriving DecidableEq, Repr

/-- The names and the sizes of the files, and the descriptors and mappings of the process. -/
structure Posix where
  names : Space → String → Option ℕ
  size : ℕ → ℕ
  nextInode : ℕ
  descriptors : List OpenFile
  mappings : List Vma

/-- How the system answers, as far as that is up to it. -/
structure Answers where
  openFile : Except ℕ ℤ
  fstat : Bool
  ftruncate : Bool
  mmap : Except ℕ ℕ

namespace Posix

def find (k : Posix) (fd : ℤ) : Option OpenFile := k.descriptors.find? fun d => d.fd = fd

/-- The file that a call of `open` is about, which it may create or truncate. -/
def resolve (k : Posix) (space : Space) (name : String) (flags : OpenFlags) :
    Except ℕ (ℕ × Posix) :=
  match k.names space name with
  | some inode =>
    if flags.creat ∧ flags.excl then .error 17
    else .ok (inode,
      { k with size := if flags.trunc then Function.update k.size inode 0 else k.size })
  | none =>
    if flags.creat then
      .ok (k.nextInode, { k with
        names := Function.update k.names space
          (Function.update (k.names space) name (some k.nextInode))
        size := Function.update k.size k.nextInode 0
        nextInode := k.nextInode + 1 })
    else .error 2

/-- `open` and `shm_open`. -/
def openName (k : Posix) (space : Space) (name : String) (flags : OpenFlags)
    (answer : Except ℕ ℤ) : Except ℕ (ℤ × Posix) :=
  match answer with
  | .error errno => .error errno
  | .ok fd =>
    if fd < 0 ∨ (k.find fd).isSome then .error 24
    else
      match k.resolve space name flags with
      | .error errno => .error errno
      | .ok (inode, k) =>
        .ok (fd, { k with descriptors := ⟨fd, inode, flags.access⟩ :: k.descriptors })

def close (k : Posix) (fd : ℤ) : Posix :=
  { k with descriptors := k.descriptors.filter fun d => d.fd ≠ fd }

/-- `st_size` of `fstat`. -/
def fstat (k : Posix) (fd : ℤ) (answer : Bool) : Option ℕ :=
  match k.find fd with
  | some file => if answer then some (k.size file.inode) else none
  | none => none

def ftruncate (k : Posix) (fd length : ℤ) (answer : Bool) : Option Posix :=
  match k.find fd with
  | some file =>
    if answer ∧ 0 ≤ length ∧ file.access ≠ .read then
      some { k with size := Function.update k.size file.inode length.toNat }
    else none
  | none => none

/-- No mapping has one of the addresses. -/
def Free (k : Posix) (address length : ℕ) : Prop :=
  ∀ v ∈ k.mappings, address + length ≤ v.address ∨ v.address + v.length ≤ address

instance (k : Posix) (address length : ℕ) : Decidable (k.Free address length) :=
  inferInstanceAs (Decidable (∀ v ∈ k.mappings, _))

/-- `mmap`, either private and for reading or shared and for writing too. -/
def mmap (k : Posix) (size : ℕ) (shared : Bool) (fd offset : ℤ) (answer : Except ℕ ℕ) :
    Except ℕ (ℕ × Posix) :=
  match answer with
  | .error errno => .error errno
  | .ok address =>
    match k.find fd with
    | none => .error 9
    | some file =>
      if file.access = .write ∨ shared ∧ file.access ≠ .readWrite then .error 13
      else if size = 0 ∨ offset < 0 ∨ offset % 4096 ≠ 0 then .error 22
      else if address = 0 ∨ address % 4096 ≠ 0 ∨ 140737488355328 < address + size ∨
          ¬ k.Free address (pageAlign size) then .error 12
      else .ok (address, { k with
        mappings := ⟨address, pageAlign size, file.inode, offset.toNat⟩ :: k.mappings })

/-- `munmap`, of whole pages. -/
def munmap (k : Posix) (address size : ℕ) : Posix :=
  { k with mappings := k.mappings.flatMap fun v => v.without address (address + pageAlign size) }

def shmUnlink (k : Posix) (name : String) : Posix :=
  { k with
    names := Function.update k.names .sharedMemory
      (Function.update (k.names .sharedMemory) name none) }

end Posix

/-! ### Files -/

namespace FileOps

def invalidFileHandle : ℤ := -1

/-- The flags that `native_open_file` passes to `open`. -/
def openFlags (access : FileAccess) : FileMode → OpenFlags
  | .openExisting => ⟨access, false, false, false⟩
  | .openAlways => ⟨access, true, false, false⟩
  | .createNew => ⟨access, true, true, false⟩
  | .createAlways => ⟨access, true, false, true⟩
  | .truncateExisting => ⟨access, false, false, true⟩

/-- `native_open_file`. -/
def nativeOpenFile (path : String) (access : FileAccess) (mode : FileMode) (answers : Answers)
    (k : Posix) : Except String ℤ × Posix :=
  match k.openName .file path (openFlags access mode) answers.openFile with
  | .error errno => (.error ("Failed to open file '" ++ path ++ "': " ++ toString errno), k)
  | .ok (fd, k) => (.ok fd, k)

/-- `native_close_file`. -/
def nativeCloseFile (handle : ℤ) (k : Posix) : Posix :=
  if handle = invalidFileHandle then k else k.close handle

/-! ### Regions -/

/-- A region; without a mapping, `ptr` is null. -/
structure MemoryMappedRegion where
  ptr : ℕ
  size : ℕ
  deriving DecidableEq, Repr

namespace MemoryMappedRegion

/-- As the constructor leaves it. -/
def empty : MemoryMappedRegion := ⟨0, 0⟩

/-- `unmap`. -/
def unmap (region : MemoryMappedRegion) (k : Posix) : MemoryMappedRegion × Posix :=
  if region.ptr = 0 then (region, k) else (empty, k.munmap region.ptr region.size)

/-- What `map` does once the region is unmapped. -/
def mapEmpty (region : MemoryMappedRegion) (handle : ℤ) (offset size : UInt64) (answers : Answers)
    (k : Posix) : Except String Unit × MemoryMappedRegion × Posix :=
  if handle = invalidFileHandle then
    (.error "Invalid file handle provided to Map", region, k)
  else if size = 0 then (.error "Cannot map region of size 0", region, k)
  else
    match k.fstat handle answers.fstat with
    | none => (.error "Failed to fstat file", region, k)
    | some stSize =>
      let endOffset := offset + size
      match if stSize < endOffset.toNat then k.ftruncate handle (offT endOffset) answers.ftruncate
          else some k with
      | none => (.error "Failed to ftruncate (extend) file", region, k)
      | some k =>
        match k.mmap size.toNat true handle (offT offset) answers.mmap with
        | .error errno => (.error ("mmap failed: " ++ toString errno), region, k)
        | .ok (ptr, k) => (.ok (), ⟨ptr, size.toNat⟩, k)

/-- `map`. -/
def map (region : MemoryMappedRegion) (handle : ℤ) (offset size : UInt64) (answers : Answers)
    (k : Posix) : Except String Unit × MemoryMappedRegion × Posix :=
  let (region, k) := region.unmap k
  region.mapEmpty handle offset size answers k

end MemoryMappedRegion

end FileOps

/-! ### The process -/

open FileOps

/-- The system, the descriptors that `native_open_file` has given out, the regions that exist, and
`s_mapped_files`: by its address, each mapping's descriptor, address and size. -/
structure Mappings (ι : Type*) where
  posix : Posix
  handles : ℤ → Bool
  objects : ι → Option MemoryMappedRegion
  mappedFiles : ℕ → Option (ℤ × ℕ × ℕ)

namespace Mappings

variable {ι : Type*}

/-- `unmap_file`. -/
def unmapFile (σ : Mappings ι) (mappedPtr : ℕ) : Mappings ι :=
  match σ.mappedFiles mappedPtr with
  | none => σ
  | some (fd, address, size) =>
    let k := σ.posix.munmap address size
    { σ with
      posix := if fd = -1 then k else k.close fd
      mappedFiles := Function.update σ.mappedFiles mappedPtr none }

/-- A mapping is entered in the table. -/
def enter (σ : Mappings ι) (k : Posix) (fd : ℤ) (address size : ℕ) : Mappings ι :=
  { σ with
    posix := k
    mappedFiles := Function.update σ.mappedFiles address (some (fd, address, size)) }

/-- `map_file`; the address and the size. -/
def mapFile (σ : Mappings ι) (path : String) (answers : Answers) :
    Except String (ℕ × ℕ) × Mappings ι :=
  match σ.posix.openName .file path ⟨.read, false, false, false⟩ answers.openFile with
  | .error _ => (.error ("Failed to open " ++ path ++ " for memory mapping"), σ)
  | .ok (handle, k) =>
    match k.fstat handle answers.fstat with
    | none =>
      (.error ("Failed to get stats of " ++ path ++ " for memory mapping"),
        { σ with posix := k.close handle })
    | some size =>
      if size = 0 then
        (.error ("Failed to get size of " ++ path ++ " for memory mapping"),
          { σ with posix := k.close handle })
      else
        match k.mmap size false handle 0 answers.mmap with
        | .error _ =>
          (.error ("Failed to memory map " ++ path), { σ with posix := k.close handle })
        | .ok (address, k) => (.ok (address, size), σ.enter k handle address size)

/-- What `map_shared_memory` does once the object is open and, for its owner, has its size. -/
def mapOpened (σ : Mappings ι) (name : String) (size : UInt64) (fd : ℤ) (answers : Answers)
    (k : Posix) : Except String ℕ × Mappings ι :=
  match k.mmap size.toNat true fd 0 answers.mmap with
  | .error _ =>
    (.error ("Failed to mmap shared memory '" ++ name ++ "'"), { σ with posix := k.close fd })
  | .ok (address, k) => (.ok address, σ.enter k fd address size.toNat)

/-- `map_shared_memory`. -/
def mapSharedMemory (σ : Mappings ι) (name : String) (size : UInt64) (isOwner : Bool)
    (answers : Answers) : Except String ℕ × Mappings ι :=
  if isOwner then
    match σ.posix.openName .sharedMemory name ⟨.readWrite, true, false, true⟩ answers.openFile with
    | .error _ => (.error ("Failed to owner shared memory '" ++ name ++ "'"), σ)
    | .ok (fd, k) =>
      match k.ftruncate fd (offT size) answers.ftruncate with
      | none =>
        (.error ("Failed to truncate shared memory '" ++ name ++ "'"),
          { σ with posix := (k.close fd).shmUnlink name })
      | some k => σ.mapOpened name size fd answers k
  else
    match σ.posix.openName .sharedMemory name ⟨.readWrite, false, false, false⟩
        answers.openFile with
    | .error _ => (.error ("Failed to consumer shared memory '" ++ name ++ "'"), σ)
    | .ok (fd, k) => σ.mapOpened name size fd answers k

/-- `unlink_shared_memory`. -/
def unlinkSharedMemory (σ : Mappings ι) (name : String) : Mappings ι :=
  if name = "" then σ else { σ with posix := σ.posix.shmUnlink name }

inductive Event (ι : Type*)
  | open (path : String) (access : FileAccess) (mode : FileMode) (answers : Answers)
  | close (handle : ℤ)
  /-- The constructor. -/
  | construct (i : ι)
  /-- The move constructor. -/
  | moveConstruct (i j : ι)
  /-- The move assignment. -/
  | assign (i j : ι)
  /-- The destructor. -/
  | destroy (i : ι)
  | map (i : ι) (handle : ℤ) (offset size : UInt64) (answers : Answers)
  | unmap (i : ι)
  | mapFile (path : String) (answers : Answers)
  | mapSharedMemory (name : String) (size : UInt64) (isOwner : Bool) (answers : Answers)
  | unmapFile (mappedPtr : ℕ)
  | unlinkSharedMemory (name : String)

variable [DecidableEq ι]

/-- The region `i` becomes what `f` makes of it. -/
def setObject (σ : Mappings ι) (i : ι) (object : Option MemoryMappedRegion) (k : Posix) :
    Mappings ι :=
  { σ with posix := k, objects := Function.update σ.objects i object }

/-- The move assignment `i = std::move(j)`. -/
def moveAssign (σ : Mappings ι) (i j : ι) (this other : MemoryMappedRegion) : Mappings ι :=
  if i = j then σ
  else
    let (_, k) := this.unmap σ.posix
    (σ.setObject i (some other) k).setObject j (some .empty) k

/-- What an event does, where it may happen. -/
def step (σ : Mappings ι) : Event ι → Option (Mappings ι)
  | .open path access mode answers =>
    match nativeOpenFile path access mode answers σ.posix with
    | (.error _, k) => some { σ with posix := k }
    | (.ok fd, k) => some { σ with posix := k, handles := Function.update σ.handles fd true }
  | .close handle =>
    if handle = invalidFileHandle then
      some { σ with posix := nativeCloseFile handle σ.posix }
    else if σ.handles handle then
      some { σ with
        posix := nativeCloseFile handle σ.posix
        handles := Function.update σ.handles handle false }
    else none
  | .construct i =>
    match σ.objects i with
    | none => some (σ.setObject i (some .empty) σ.posix)
    | some _ => none
  | .moveConstruct i j =>
    match σ.objects i, σ.objects j with
    | none, some other =>
      some ((σ.setObject i (some .empty) σ.posix).moveAssign i j .empty other)
    | _, _ => none
  | .assign i j =>
    match σ.objects i, σ.objects j with
    | some this, some other => some (σ.moveAssign i j this other)
    | _, _ => none
  | .destroy i =>
    match σ.objects i with
    | some region => some (σ.setObject i none (region.unmap σ.posix).2)
    | none => none
  | .map i handle offset size answers =>
    match σ.objects i with
    | some region =>
      let (_, region, k) := region.map handle offset size answers σ.posix
      some (σ.setObject i (some region) k)
    | none => none
  | .unmap i =>
    match σ.objects i with
    | some region =>
      let (region, k) := region.unmap σ.posix
      some (σ.setObject i (some region) k)
    | none => none
  | .mapFile path answers => some (σ.mapFile path answers).2
  | .mapSharedMemory name size isOwner answers =>
    some (σ.mapSharedMemory name size isOwner answers).2
  | .unmapFile mappedPtr => some (σ.unmapFile mappedPtr)
  | .unlinkSharedMemory name => some (σ.unlinkSharedMemory name)

/-- Before anything is opened or mapped, whatever files there are. -/
def start (names : Space → String → Option ℕ) (size : ℕ → ℕ) (nextInode : ℕ) : Mappings ι where
  posix := ⟨names, size, nextInode, [], []⟩
  handles _ := false
  objects _ := none
  mappedFiles _ := none

end Mappings

end IACore
