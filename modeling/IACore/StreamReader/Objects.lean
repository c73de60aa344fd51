import IACore.StreamReader
import Mathlib.Logic.Function.Basic

/-!
# The objects of a program over `StreamReader`s

Beside its view of a block a reader has the vector that it may own, and the type of its storage.  A
program constructs readers, reads, and moves readers into others; a moved-from reader stays an
object of the program.  `unmap_file` is left out: no other reader has the block that it gives back.
-/

namespace IACore

namespace StreamReader

inductive StorageType
  | nonOwning
  | owningMmap
  | owningVector
  deriving DecidableEq, Repr

/-- A `StreamReader` with `m_owning_vector` and `m_storage_type`. -/
structure Object where
  reader : StreamReader
  owningVector : List UInt8
  storageType : StorageType
  deriving DecidableEq, Repr

namespace Object

/-- The constructor over a vector. -/
def ofVector (data : List UInt8) : Object := ⟨⟨data, 0, data.length⟩, data, .owningVector⟩

/-- The constructor over a span. -/
def ofSpan (data : List UInt8) : Object := ⟨.ofSpan data, [], .nonOwning⟩

/-- What a move makes of `other` in its target. -/
def taken (other : Object) : Object :=
  { other with reader := { other.reader with
      data := if other.storageType = .owningVector then other.owningVector
        else other.reader.data } }

/-- What a move leaves of `other`; `m_cursor` is not set. -/
def left (other : Object) : Object where
  reader := { other.reader with data := [], dataSize := 0 }
  owningVector := []
  storageType := .nonOwning

/-- The move constructor: the new object and what is left of `other`. -/
def moveConstruct (other : Object) : Object × Object := (other.taken, other.left)

/-- `operator=` from another object: what was in the target is given up. -/
def moveAssign (_this other : Object) : Object × Object := (other.taken, other.left)

/-- `create_from_file`, for a file with the contents `data`: the local reader is moved into the
result. -/
def createFromFile (data : List UInt8) : Object :=
  (moveConstruct { ofSpan data with storageType := .owningMmap }).1

end Object

/-! ### Programs -/

/-- What a reader is constructed from. -/
inductive Source
  | vector (data : List UInt8)
  | span (data : List UInt8)
  | file (data : List UInt8)
  deriving DecidableEq, Repr

namespace Source

def data : Source → List UInt8
  | .vector data => data
  | .span data => data
  | .file data => data

def construct : Source → Object
  | .vector data => .ofVector data
  | .span data => .ofSpan data
  | .file data => .createFromFile data

end Source

/-- An operation on one reader. -/
inductive Operation
  | readBuffer (size : ℕ)
  | readValue (size : ℕ)
  | skip (amount : ℕ)
  | seek (pos : ℕ)
  deriving DecidableEq, Repr

/-- What the operation makes of a reader, where its sum does not wrap. -/
def Operation.run (r : StreamReader) : Operation → Option StreamReader
  | .readBuffer size =>
    if r.cursor + size < 18446744073709551616 then (r.readBuffer size).map Prod.snd else none
  | .readValue size =>
    if r.cursor + size < 18446744073709551616 then (r.readValue size).map Prod.snd else none
  | .skip amount => if r.cursor + amount < 18446744073709551616 then some (r.skip amount) else none
  | .seek pos => if pos < 18446744073709551616 then some (r.seek pos) else none

namespace Objects

/-- The readers of the program. -/
abbrev State := ℕ → Option Object

inductive Event
  | construct (id : ℕ) (source : Source)
  | use (id : ℕ) (op : Operation)
  | moveConstruct (id source : ℕ)
  | moveAssign (target source : ℕ)
  deriving DecidableEq, Repr

def State.set (σ : State) (id : ℕ) (o : Object) : State := Function.update σ id (some o)

def step (σ : State) : Event → Option State
  | .construct id source =>
    if σ id = none ∧ source.data.length < 18446744073709551616 then
      some (σ.set id source.construct)
    else none
  | .use id op => do
    let o ← σ id
    let r ← op.run o.reader
    some (σ.set id { o with reader := r })
  | .moveConstruct id source => do
    let other ← σ source
    let (this, other) := other.moveConstruct
    if σ id = none then some ((σ.set source other).set id this) else none
  | .moveAssign target source => do
    let this ← σ target
    let other ← σ source
    let (this, other) := this.moveAssign other
    -- `this != &other`
    if target = source then some σ else some ((σ.set source other).set target this)

/-- No reader. -/
def start : State := fun _ => none

/-! ### Cursors -/

/-- Every reader has its cursor within its size, so that `remaining` is their difference. -/
def InBounds (σ : State) : Prop :=
  ∀ id o, σ id = some o → o.reader.cursor ≤ o.reader.dataSize ∧
    (o.reader.remaining : ℤ) = o.reader.dataSize - o.reader.cursor

/-- A move is from `source` to another object `target`. -/
def Event.Moves (source target : ℕ) : Event → Prop
  | .moveConstruct id source' => id = target ∧ source' = source ∧ target ≠ source
  | .moveAssign target' source' => target' = target ∧ source' = source ∧ target ≠ source
  | _ => False

/-- The target of a move has the data, the size and the cursor that the source had. -/
def MoveExact (σ : State) (event : Event) : Prop :=
  ∀ source target σ', event.Moves source target → step σ event = some σ' →
    (σ' target).map Object.reader = (σ source).map Object.reader

/-- What is moved from has its cursor at the start. -/
def FromStart (σ : State) (event : Event) : Prop :=
  ∀ source target o, event.Moves source target → σ source = some o → o.reader.cursor = 0

end Objects

end StreamReader

end IACore
