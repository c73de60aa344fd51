import IACore.RingBuffer.Fifo

/-!
# Views on one control block

A control block in memory that several views share: the view of its owner, which sets it up, and
views that are attached to it by either overload of `create`, over buffers of any size.
-/

namespace IACore

namespace Attach

/-- An overload of `create`; only one is told where the data is. -/
inductive Overload
  | buffer
  | controlBlock (data : ℕ)
  deriving DecidableEq, Repr

/-- The capacity of a view over `size` bytes. -/
def Overload.capacity (size : ℕ) : Overload → ℕ
  | .buffer => u32Sub (u32 size) ControlBlock.size
  | .controlBlock _ => u32 size

/-- The control block, the bytes by their address, and the views, oldest first. -/
structure State where
  control : ControlBlock
  memory : ℕ → UInt8
  views : List RingBufferView

inductive Event
  | attach (overload : Overload) (size : ℕ)
  | use (view : ℕ) (op : RingOp)

namespace State

/-- What the control block and a data pointer name. -/
def ring (σ : State) (data : ℕ) : RingMemory := ⟨σ.control, fun k => σ.memory (data + k)⟩

def setRing (σ : State) (data : ℕ) (mem : RingMemory) : State :=
  { σ with
    control := mem.control
    memory := fun a => if data ≤ a then mem.data (a - data) else σ.memory a }

/-- A view on the control block at the address `cb`. -/
def create (cb : ℕ) (overload : Overload) (size : ℕ) (isOwner : Bool) (σ : State) :
    Except String State :=
  match overload with
  | .buffer =>
    match RingBufferView.createIn cb size isOwner (σ.ring (cb + ControlBlock.size)) with
    | .ok (v, mem) => .ok { σ with control := mem.control, views := σ.views ++ [v] }
    | .error message => .error message
  | .controlBlock data =>
    match RingBufferView.create (some cb) data size isOwner (σ.ring data) with
    | .ok (v, mem) => .ok { σ with control := mem.control, views := σ.views ++ [v] }
    | .error message => .error message

/-- A view is attached, if that is accepted, or used by one of its two sides. -/
def step (cb : ℕ) (σ : State) : Event → Option State
  | .attach overload size =>
    match σ.create cb overload size false with
    | .ok σ => some σ
    | .error _ => some σ
  | .use view op => do
    let v ← σ.views[view]?
    let data ← v.dataPtr
    some (σ.setRing data (v.exec (σ.ring data) op).2)

end State

/-- The capacity in the control block is `capacity`, and so is that of every view. -/
def Agree (capacity : ℕ) (σ : State) : Prop :=
  σ.control.capacity = capacity ∧ ∀ v ∈ σ.views, v.capacity = capacity

/-- A view of another capacity is refused. -/
def OthersFail (cb capacity : ℕ) (σ : State) (event : Event) : Prop :=
  ∀ overload size, event = .attach overload size → overload.capacity size ≠ capacity →
    ∃ message, σ.create cb overload size false = .error message

/-- The overload that is told where the control block is gets an empty buffer or one of the owner's
capacity. -/
def SizeGiven (capacity : ℕ) (_σ : State) (event : Event) : Prop :=
  ∀ data size, event = .attach (.controlBlock data) size → size = 0 ∨ u32 size = capacity

end Attach

end IACore
