import Mathlib.Data.List.Basic
import Mathlib.Data.Nat.Notation
import Mathlib.Logic.Function.Basic

/-!
# The sessions of `IpcManager` under callbacks

`IpcManager::update` with what its loops touch of a session: the `mino` ring, the two sockets and
the shared memory, and the callbacks, which may call the manager again.  The destructor and what
`spawn_node`, `shutdown_node` and the sends do to the containers belong to it.

A step runs up to the next point where the code looks at a ring, a socket or the clock, and the
event says what it finds there and what a callback does.  The nodes fill their rings at any time.
During a run the id in a `ProcessHandle` stands for the process; its end is not followed here.
How often a session's resources were released is counted; nothing reads the counts.
-/

namespace IACore

namespace IpcSessions

/-- `IpcManager::NodeSession`, with the packets in its `mino` ring.  A socket is `true` while it is
not `INVALID_SOCKET`. -/
structure NodeSession where
  id : ℕ
  mino : List (UInt16 × List UInt8)
  listenerSocket : Bool
  dataSocket : Bool
  unmaps : ℕ
  unlinks : ℕ
  listenerCloses : ℕ
  dataCloses : ℕ
  deriving DecidableEq, Repr

namespace NodeSession

/-- As `spawn_node` hands it to the manager. -/
def spawned (id : ℕ) : NodeSession := ⟨id, [], true, false, 0, 0, 0, 0⟩

/-- `FileOps::unmap_file` and `FileOps::unlink_shared_memory`. -/
def releaseMemory (session : NodeSession) : NodeSession :=
  { session with unmaps := session.unmaps + 1, unlinks := session.unlinks + 1 }

/-- `SocketOps::close(session->listener_socket)`; closing no socket closes nothing. -/
def closeListener (session : NodeSession) : NodeSession :=
  { session with listenerCloses := session.listenerCloses + session.listenerSocket.toNat }

/-- `SocketOps::close(session->data_socket)`. -/
def closeData (session : NodeSession) : NodeSession :=
  { session with dataCloses := session.dataCloses + session.dataSocket.toNat }

/-- What a successful `accept` does to the session. -/
def accepted (session : NodeSession) : NodeSession :=
  { { session with dataSocket := true }.closeListener with listenerSocket := false }

end NodeSession

/-- Where the manager's thread is: in no call; in `update`, with `i` pending sessions left, with `i`
active sessions left, draining the ring in the slot `i` of `m_active_sessions` under the id it has
loaded, before the `recv` of that slot, or after a `recv` failed on the session `s`; or behind the
destructor. -/
inductive Control
  | idle
  | pendingLoop (i : ℕ)
  | activeLoop (i : ℕ)
  | draining (i nodeId : ℕ)
  | receiving (i nodeId : ℕ)
  | failed (i nodeId s : ℕ)
  | destroyed
  deriving DecidableEq, Repr

/-- A call of the public interface that is not `update`. -/
inductive Call
  | sendSignal (id : ℕ)
  | sendPacket (id : ℕ)
  | shutdownNode (id : ℕ)
  /-- With the id of the new process if it succeeds. -/
  | spawnNode (id : Option ℕ)
  deriving DecidableEq, Repr

inductive Event
  /-- A call from outside `update`. -/
  | call (c : Call)
  /-- The node of the session `s` puts a packet into its ring. -/
  | push (s : ℕ) (packet : UInt16 × List UInt8)
  /-- `update`, and for a pending session: it is too old, `accept` fails, `accept` succeeds. -/
  | update
  | timeout
  | acceptFails
  | accept
  | pendingDone
  /-- For an active session: its id is loaded; a packet is popped and given to `on_packet`, which
  makes `calls`; the ring is found empty; `recv` would block, receives a signal that is given to
  `on_signal`, or fails; the session is removed. -/
  | visit
  | onPacket (calls : List Call)
  | drained
  | recvNothing
  | onSignal (calls : List Call)
  | recvFails
  | remove
  | activeDone
  /-- `~IpcManager`. -/
  | destroy
  deriving DecidableEq, Repr

/-- Sessions are told apart by their addresses. -/
structure State where
  sessions : ℕ → NodeSession
  pendingSessions : List ℕ
  activeSessions : List ℕ
  activeSessionMap : ℕ → Option ℕ
  control : Control
  fresh : ℕ

/-- A manager without sessions. -/
def start : State := ⟨fun _ => .spawned 0, [], [], fun _ => none, .idle, 0⟩

namespace State

/-- Something happens to the session `s`. -/
def modify (σ : State) (s : ℕ) (f : NodeSession → NodeSession) : State :=
  { σ with sessions := Function.update σ.sessions s (f (σ.sessions s)) }

/-! ### Calls -/

/-- The look-up of a send; undefined if the entry's session is gone. -/
def send (σ : State) (id : ℕ) : Option State :=
  match σ.activeSessionMap id with
  | none => some σ
  | some node =>
    if node ∈ σ.activeSessions ∨ node ∈ σ.pendingSessions then some σ else none

/-- `shutdown_node`; undefined if the entry's session is gone. -/
def shutdownNode (σ : State) (id : ℕ) : Option State :=
  match σ.activeSessionMap id with
  | none => some σ
  | some node =>
    if node ∈ σ.activeSessions ∨ node ∈ σ.pendingSessions then
      some { σ.modify node fun session => session.releaseMemory.closeData with
        activeSessions := σ.activeSessions.filter fun s => s ≠ node
        activeSessionMap := Function.update σ.activeSessionMap id none }
    else none

/-- `spawn_node`; of one that fails nothing reaches the containers. -/
def spawnNode (σ : State) : Option ℕ → State
  | none => σ
  | some id =>
    { σ with
      sessions := Function.update σ.sessions σ.fresh (.spawned id)
      pendingSessions := σ.pendingSessions ++ [σ.fresh]
      fresh := σ.fresh + 1 }

def call (σ : State) : Call → Option State
  | .sendSignal id => σ.send id
  | .sendPacket id => σ.send id
  | .shutdownNode id => σ.shutdownNode id
  | .spawnNode id => some (σ.spawnNode id)

/-- What a callback does. -/
def callback (σ : State) (calls : List Call) : Option State := calls.foldlM call σ

/-! ### The pending sessions -/

def update (σ : State) : Option State :=
  if σ.control = .idle then
    some { σ with control := .pendingLoop σ.pendingSessions.length }
  else none

def timeout (σ : State) : Option State :=
  match σ.control with
  | .pendingLoop (i + 1) => do
    let s ← σ.pendingSessions[i]?
    some { σ.modify s fun session => session.releaseMemory.closeListener with
      pendingSessions := σ.pendingSessions.eraseIdx i
      control := .pendingLoop i }
  | _ => none

def acceptFails (σ : State) : Option State :=
  match σ.control with
  | .pendingLoop (i + 1) => some { σ with control := .pendingLoop i }
  | _ => none

def accept (σ : State) : Option State :=
  match σ.control with
  | .pendingLoop (i + 1) => do
    let s ← σ.pendingSessions[i]?
    some { σ.modify s NodeSession.accepted with
      activeSessions := σ.activeSessions ++ [s]
      pendingSessions := σ.pendingSessions.eraseIdx i
      activeSessionMap := Function.update σ.activeSessionMap (σ.sessions s).id (some s)
      control := .pendingLoop i }
  | _ => none

def pendingDone (σ : State) : Option State :=
  if σ.control = .pendingLoop 0 then
    some { σ with control := .activeLoop σ.activeSessions.length }
  else none

/-! ### The active sessions

`node` is a reference to the slot `i` of the vector, so each access goes to the session that stands
there by then. -/

def visit (σ : State) : Option State :=
  match σ.control with
  | .activeLoop (i + 1) => do
    let s ← σ.activeSessions[i]?
    some { σ with control := .draining i (σ.sessions s).id }
  | _ => none

/-- `node->mino.pop` yields a packet, and `on_packet(node_id, …)` is called. -/
def onPacket (σ : State) (calls : List Call) : Option State :=
  match σ.control with
  | .draining i _ => do
    let s ← σ.activeSessions[i]?
    match (σ.sessions s).mino with
    | [] => none
    | _ :: packets => (σ.modify s fun session => { session with mino := packets }).callback calls
  | _ => none

def drained (σ : State) : Option State :=
  match σ.control with
  | .draining i nodeId => do
    let s ← σ.activeSessions[i]?
    if (σ.sessions s).mino = [] then some { σ with control := .receiving i nodeId } else none
  | _ => none

def recvNothing (σ : State) : Option State :=
  match σ.control with
  | .receiving i _ => some { σ with control := .activeLoop i }
  | _ => none

/-- `on_signal(node_id, signal)` is called. -/
def onSignal (σ : State) (calls : List Call) : Option State :=
  match σ.control with
  | .receiving i _ => { σ with control := .activeLoop i }.callback calls
  | _ => none

def recvFails (σ : State) : Option State :=
  match σ.control with
  | .receiving i nodeId => do
    let s ← σ.activeSessions[i]?
    some { σ with control := .failed i nodeId s }
  | _ => none

/-- What follows a failed `recv`, on the slot `i`. -/
def remove (σ : State) : Option State :=
  match σ.control with
  | .failed i nodeId _ => do
    let s ← σ.activeSessions[i]?
    some { σ.modify s fun session => session.releaseMemory.closeData with
      activeSessions := σ.activeSessions.eraseIdx i
      activeSessionMap := Function.update σ.activeSessionMap nodeId none
      control := .activeLoop i }
  | _ => none

def activeDone (σ : State) : Option State :=
  if σ.control = .activeLoop 0 then some { σ with control := .idle } else none

/-! ### The destructor -/

/-- The body of its first loop. -/
def destroyActive (σ : State) (s : ℕ) : State :=
  σ.modify s fun session => session.releaseMemory.closeData

/-- The body of its second loop. -/
def destroyPending (σ : State) (s : ℕ) : State :=
  σ.modify s fun session => session.releaseMemory.closeListener

def destroy (σ : State) : Option State :=
  if σ.control = .idle then
    let σ := { σ.activeSessions.foldl destroyActive σ with activeSessions := [] }
    some { σ.pendingSessions.foldl destroyPending σ with
      pendingSessions := []
      control := .destroyed }
  else none

/-- A packet arrives in a ring, while there is a manager. -/
def push (σ : State) (s : ℕ) (packet : UInt16 × List UInt8) : Option State :=
  if σ.control = .destroyed then none
  else some (σ.modify s fun session => { session with mino := session.mino ++ [packet] })

/-- What an event does, if it may happen and is defined. -/
def step (σ : State) : Event → Option State
  | .call c => if σ.control = .idle then σ.call c else none
  | .push s packet => σ.push s packet
  | .update => σ.update
  | .timeout => σ.timeout
  | .acceptFails => σ.acceptFails
  | .accept => σ.accept
  | .pendingDone => σ.pendingDone
  | .visit => σ.visit
  | .onPacket calls => σ.onPacket calls
  | .drained => σ.drained
  | .recvNothing => σ.recvNothing
  | .onSignal calls => σ.onSignal calls
  | .recvFails => σ.recvFails
  | .remove => σ.remove
  | .activeDone => σ.activeDone
  | .destroy => σ.destroy

end State

/-! ### Callbacks and the slot -/

/-- The session that a call shuts down. -/
def State.shutsDown (σ : State) : Call → Option ℕ
  | .shutdownNode id => σ.activeSessionMap id
  | _ => none

/-- The active sessions that are left when none of `calls` shuts them down. -/
def State.left (σ : State) (calls : List Call) : List ℕ :=
  σ.activeSessions.filter fun s => calls.all fun c => σ.shutsDown c != some s

/-- The index that the loop uses next on `m_active_sessions` is in range; a packet that it pops next
is given to `on_packet` with the id of the session whose ring it is in; and a session that it
removes next is the one whose `recv` failed. -/
def SlotRight (σ : State) : Prop :=
  match σ.control with
  | .activeLoop (i + 1) => i < σ.activeSessions.length
  | .draining i nodeId => ∃ s, σ.activeSessions[i]? = some s ∧
      ((σ.sessions s).mino ≠ [] → (σ.sessions s).id = nodeId)
  | .receiving i _ => i < σ.activeSessions.length
  | .failed i _ s => σ.activeSessions[i]? = some s
  | _ => True

/-- `on_packet` leaves a session in the slot that is being drained, and one with nothing in its ring
unless it has the loaded id; `on_signal` leaves as many sessions as are still to be visited; and no
packet arrives in the ring of a session with another id while it stands in the slot. -/
def CallbackSafe (σ : State) : Event → Prop
  | .onPacket calls => ∀ i nodeId, σ.control = .draining i nodeId →
      ∃ s, (σ.left calls)[i]? = some s ∧ ((σ.sessions s).mino = [] ∨ (σ.sessions s).id = nodeId)
  | .onSignal calls => ∀ i nodeId, σ.control = .receiving i nodeId → i ≤ (σ.left calls).length
  | .push s _ => ∀ i nodeId, σ.control = .draining i nodeId →
      σ.activeSessions[i]? = some s → (σ.sessions s).id = nodeId
  | _ => True

/-- The session in the slot and those before it are not shut down by a callback for that slot. -/
def Behind (σ : State) : Event → Prop
  | .onPacket calls => ∀ i nodeId, σ.control = .draining i nodeId →
      ∀ s ∈ σ.activeSessions.take (i + 1), ∀ c ∈ calls, σ.shutsDown c ≠ some s
  | .onSignal calls => ∀ i nodeId, σ.control = .receiving i nodeId →
      ∀ s ∈ σ.activeSessions.take (i + 1), ∀ c ∈ calls, σ.shutsDown c ≠ some s
  | _ => True

/-! ### Ownership -/

namespace NodeSession

/-- Nothing of the session has been released. -/
def Unreleased (session : NodeSession) : Prop :=
  session.dataSocket = false ∧ session.listenerSocket = true ∧ session.unmaps = 0 ∧
    session.unlinks = 0 ∧ session.listenerCloses = 0 ∧ session.dataCloses = 0

/-- Nothing has been released but the listener socket, which an accepted session does not need. -/
def Accepted (session : NodeSession) : Prop :=
  session.dataSocket = true ∧ session.listenerSocket = false ∧ session.unmaps = 0 ∧
    session.unlinks = 0 ∧ session.listenerCloses = 1 ∧ session.dataCloses = 0

/-- Everything has been released once: the mapping, the shared memory, the listener socket and, if
one was accepted, the data socket. -/
def Released (session : NodeSession) : Prop :=
  session.unmaps = 1 ∧ session.unlinks = 1 ∧ session.listenerCloses = 1 ∧
    session.dataCloses = session.dataSocket.toNat

end NodeSession

/-- A session that stands `pending` times in `m_pending_sessions` and `active` times in
`m_active_sessions`: it is once in one of them and held, or in neither and released. -/
def Placed (pending active : ℕ) (session : NodeSession) : Prop :=
  (pending = 1 ∧ active = 0 ∧ session.Unreleased) ∨
  (pending = 0 ∧ active = 1 ∧ session.Accepted) ∨
  (pending = 0 ∧ active = 0 ∧ session.Released)

/-- Every session that was spawned is in its place. -/
def Conserved (σ : State) : Prop :=
  ∀ s < σ.fresh, Placed (σ.pendingSessions.count s) (σ.activeSessions.count s) (σ.sessions s)

/-- Calls of `spawn_node`, `update` with callbacks that make no calls, and the destructor. -/
def NonReentrant : Event → Prop
  | .call (.spawnNode _) => True
  | .call _ => False
  | .onPacket calls => calls = []
  | .onSignal calls => calls = []
  | _ => True

end IpcSessions

end IACore
