import IACore.StreamWriter

/-!
# `FileOps::write_binary_file` and `FileOps::read_binary_file`

The C library opens a file in the mode that it is told, and what the mode means depends on the
platform: without `b` the C library of Windows translates line ends.  A `long` has 32 bits there.
-/

namespace IACore

/-! ### The C library -/

inductive Platform
  | linux
  | windows
  deriving DecidableEq, Repr

/-- `LONG_MAX`. -/
def Platform.longMax : Platform → ℕ
  | .linux => 9223372036854775807
  | .windows => 2147483647

/-- A mode of `fopen`. -/
inductive Mode
  | w
  | wx
  | rb
  deriving DecidableEq, Repr

namespace Mode

/-- The mode has a `b`. -/
def binary : Mode → Bool
  | .rb => true
  | _ => false

/-- The mode has an `x`: the file must not exist. -/
def exclusive : Mode → Bool
  | .wx => true
  | _ => false

end Mode

inductive Errno
  | eexist
  | other
  deriving DecidableEq, Repr

/-- The platform, and whether a path may not be opened in a mode, whatever files there are. -/
structure Stdio.System where
  platform : Platform
  refuses : String → Mode → Bool

namespace Stdio.System

/-- `fopen` for writing, which leaves an empty file. -/
def openWrite (system : System) (path : String) (mode : Mode) (disk : Disk) : Except Errno Disk :=
  if mode.exclusive ∧ (disk path).isSome then .error .eexist
  else if system.refuses path mode then .error .other
  else .ok (Function.update disk path (some []))

/-- `fopen` for reading; what there is to read. -/
def openRead (system : System) (path : String) (mode : Mode) (disk : Disk) :
    Option (List UInt8) :=
  if system.refuses path mode then none else disk path

/-- A text stream of Windows writes a carriage return before each line feed. -/
def lineEnds (contents : List UInt8) : List UInt8 :=
  contents.flatMap fun c => if c = 0x0A then [0x0D, 0x0A] else [c]

/-- What `fwrite` puts into a file that is open in `mode`. -/
def transfer (system : System) (mode : Mode) (contents : List UInt8) : List UInt8 :=
  if system.platform = .windows ∧ mode.binary = false then lineEnds contents else contents

/-- `ftell` at the end of a file of `length` bytes. -/
def ftell (system : System) (length : ℕ) : ℤ :=
  if length ≤ system.platform.longMax then length else -1

end Stdio.System

/-! ### Binary files -/

namespace FileOps

/-- `write_binary_file`. -/
def writeBinaryFile (system : Stdio.System) (path : String) (contents : List UInt8)
    (overwrite : Bool) (disk : Disk) : Except String ℕ × Disk :=
  let mode := if overwrite then Mode.w else Mode.wx
  match system.openWrite path mode disk with
  | .error errno =>
    if overwrite = false ∧ errno = .eexist then (.error ("File already exists: " ++ path), disk)
    else (.error ("Failed to write to file: " ++ path), disk)
  | .ok disk =>
    (.ok contents.length, Function.update disk path (some (system.transfer mode contents)))

/-- `read_binary_file`; the bytes of `result` that `fread` does not reach are zero. -/
def readBinaryFile (system : Stdio.System) (path : String) (disk : Disk) :
    Except String (List UInt8) :=
  match system.openRead path .rb disk with
  | none => .error ("Failed to open file: " ++ path)
  | some file =>
    let len := system.ftell file.length
    if len > 0 then
      let size := len.toNat
      let read := file.take size
      .ok (read ++ List.replicate (size - read.length) 0)
    else .ok []

/-- What is written can be read: the file may be opened, its size is a `long`, and on Windows it has
no line feed. -/
def Preserved (system : Stdio.System) (path : String) (contents : List UInt8) : Prop :=
  system.refuses path .rb = false ∧ contents.length ≤ system.platform.longMax ∧
    (system.platform = .windows → (0x0A : UInt8) ∉ contents)

end FileOps

end IACore
