import IACore.ProcessOps.Handle
import Mathlib.Data.List.Basic
import Mathlib.Logic.Function.Basic

/-!
# `IpcManager`'s sessions

How `IpcManager` of `IACore/IPC.hpp` keeps its sessions: `spawn_node`, `update`, `shutdown_node` and
the look-ups of `send_signal` and `send_packet`, on the one thread that may call them, interleaved
with the watcher threads of `ProcessOps::spawn_process_async`, which write the `ProcessHandle`s.

One step is one access to a handle's atomics with what the thread does before its next one; `update`
therefore stops between the sessions that it visits.  What the sockets, the clock and the child
processes do is the event's choice.  Of a `NodeSession` only its `node_process` is kept; sockets,
mappings and ring views do not decide which sessions there are.  `terminate_process` only makes the
child's end come sooner, and that may come at any moment.
-/

namespace IACore

namespace IpcManager

/-- Where the manager's thread is: in no call; in `spawn_node`, asleep or about to load the id it
returns; in `update`, with `i` pending sessions left, after an `accept` of the pending session `i`,
with `i` active sessions left, or visiting the active session `i` under the id it has loaded. -/
inductive Control
  | idle
  | spawning (s : ℕ)
  | returning (s : ℕ)
  | pendingLoop (i : ℕ)
  | accepted (i : ℕ)
  | activeLoop (i : ℕ)
  | visiting (i nodeId : ℕ)
  deriving DecidableEq, Repr

/-- The sessions that exist, by address, with their `node_process`; the manager's containers; and
what `spawn_node` returned for each session, which no operation reads. -/
structure State where
  sessions : ℕ → Option ProcessHandle
  pendingSessions : List ℕ
  activeSessions : List ℕ
  activeSessionMap : ℕ → Option ℕ
  control : Control
  fresh : ℕ
  returned : ℕ → Option ℕ

inductive Event
  /-- The watcher of the session `s` forks. -/
  | fork (s : ℕ) (pid : Option ℕ)
  /-- It takes its next step. -/
  | watch (s : ℕ)
  /-- `spawn_node` up to its sleep, its `is_active` and its return. -/
  | spawnNode
  | checkActive
  | spawnReturn
  /-- `update`, and for a pending session: it is too old, `accept` fails, `accept` succeeds, and it
  becomes active. -/
  | update
  | timeout
  | acceptFails
  | accept
  | activate
  | pendingDone
  /-- For an active session: its id is loaded, and `recv` leaves it or finds it disconnected. -/
  | visit
  | keep
  | disconnect
  | activeDone
  | shutdownNode (pid : ℕ)
  | send (pid : ℕ)
  deriving DecidableEq, Repr

/-- A manager without sessions. -/
def start : State := ⟨fun _ => none, [], [], fun _ => none, .idle, 0, fun _ => none⟩

namespace State

/-- No child that has not been waited for has this process id. -/
def FreePid (σ : State) (pid : ℕ) : Prop :=
  pid ≠ 0 ∧ ∀ s < σ.fresh, (σ.sessions s).bind ProcessHandle.child ≠ some pid

instance (σ : State) (pid : ℕ) : Decidable (σ.FreePid pid) := inferInstanceAs (Decidable (_ ∧ _))

/-- The session `s` goes out of existence: the destructor of its handle joins the watcher. -/
def destroy (σ : State) (s : ℕ) : Option State := do
  let handle ← σ.sessions s
  -- `join` returns once the watcher is at its end, so the step is taken then.
  if handle.watcher = .finished then
    some { σ with sessions := Function.update σ.sessions s none }
  else none

def fork (σ : State) (s : ℕ) (pid : Option ℕ) : Option State := do
  let handle ← σ.sessions s
  if ∀ p ∈ pid, σ.FreePid p then
    let handle ← handle.fork pid
    some { σ with sessions := Function.update σ.sessions s (some handle) }
  else none

def watch (σ : State) (s : ℕ) : Option State := do
  let handle ← σ.sessions s
  let handle ← handle.watch
  some { σ with sessions := Function.update σ.sessions s (some handle) }

/-! ### `spawn_node` -/

def spawnNode (σ : State) : Option State :=
  if σ.control = .idle then
    some { σ with
      sessions := Function.update σ.sessions σ.fresh (some .spawned)
      fresh := σ.fresh + 1
      control := .spawning σ.fresh }
  else none

def checkActive (σ : State) : Option State :=
  match σ.control with
  | .spawning s => do
    let handle ← σ.sessions s
    if handle.isActive then some { σ with control := .returning s }
    else destroy { σ with control := .idle } s
  | _ => none

def spawnReturn (σ : State) : Option State :=
  match σ.control with
  | .returning s => do
    let handle ← σ.sessions s
    some { σ with
      pendingSessions := σ.pendingSessions ++ [s]
      returned := Function.update σ.returned s (some handle.id)
      control := .idle }
  | _ => none

/-! ### `update` -/

def update (σ : State) : Option State :=
  if σ.control = .idle then
    some { σ with control := .pendingLoop σ.pendingSessions.length }
  else none

def timeout (σ : State) : Option State :=
  match σ.control with
  | .pendingLoop (i + 1) => do
    let s ← σ.pendingSessions[i]?
    destroy { σ with
      pendingSessions := σ.pendingSessions.eraseIdx i
      control := .pendingLoop i } s
  | _ => none

def acceptFails (σ : State) : Option State :=
  match σ.control with
  | .pendingLoop (i + 1) => some { σ with control := .pendingLoop i }
  | _ => none

def accept (σ : State) : Option State :=
  match σ.control with
  | .pendingLoop (i + 1) => some { σ with control := .accepted i }
  | _ => none

/-- The id is loaded, the session moves over and is entered under that id. -/
def activate (σ : State) : Option State :=
  match σ.control with
  | .accepted i => do
    let s ← σ.pendingSessions[i]?
    let handle ← σ.sessions s
    some { σ with
      activeSessions := σ.activeSessions ++ [s]
      pendingSessions := σ.pendingSessions.eraseIdx i
      activeSessionMap := Function.update σ.activeSessionMap handle.id (some s)
      control := .pendingLoop i }
  | _ => none

def pendingDone (σ : State) : Option State :=
  if σ.control = .pendingLoop 0 then
    some { σ with control := .activeLoop σ.activeSessions.length }
  else none

def visit (σ : State) : Option State :=
  match σ.control with
  | .activeLoop (i + 1) => do
    let s ← σ.activeSessions[i]?
    let handle ← σ.sessions s
    some { σ with control := .visiting i handle.id }
  | _ => none

def keep (σ : State) : Option State :=
  match σ.control with
  | .visiting i _ => some { σ with control := .activeLoop i }
  | _ => none

/-- The session is erased, and from the map the id that was loaded. -/
def disconnect (σ : State) : Option State :=
  match σ.control with
  | .visiting i nodeId => do
    let s ← σ.activeSessions[i]?
    destroy { σ with
      activeSessions := σ.activeSessions.eraseIdx i
      activeSessionMap := Function.update σ.activeSessionMap nodeId none
      control := .activeLoop i } s
  | _ => none

def activeDone (σ : State) : Option State :=
  if σ.control = .activeLoop 0 then some { σ with control := .idle } else none

/-! ### Calls with a process id -/

/-- `shutdown_node`; undefined if the entry's session is gone. -/
def shutdownNode (σ : State) (pid : ℕ) : Option State :=
  if σ.control = .idle then
    match σ.activeSessionMap pid with
    | none => some σ
    | some node =>
      destroy { σ with
        activeSessions := σ.activeSessions.filter fun s => s ≠ node
        activeSessionMap := Function.update σ.activeSessionMap pid none } node
  else none

/-- The look-up of `send_signal` and `send_packet`; undefined if the entry's session is gone. -/
def send (σ : State) (pid : ℕ) : Option State :=
  if σ.control = .idle then
    match σ.activeSessionMap pid with
    | none => some σ
    | some node => (σ.sessions node).map fun _ => σ
  else none

/-- What an event does, if it may happen and is defined. -/
def step (σ : State) : Event → Option State
  | .fork s pid => σ.fork s pid
  | .watch s => σ.watch s
  | .spawnNode => σ.spawnNode
  | .checkActive => σ.checkActive
  | .spawnReturn => σ.spawnReturn
  | .update => σ.update
  | .timeout => σ.timeout
  | .acceptFails => σ.acceptFails
  | .accept => σ.accept
  | .activate => σ.activate
  | .pendingDone => σ.pendingDone
  | .visit => σ.visit
  | .keep => σ.keep
  | .disconnect => σ.disconnect
  | .activeDone => σ.activeDone
  | .shutdownNode pid => σ.shutdownNode pid
  | .send pid => σ.send pid

end State

/-- The map and the active sessions describe the same set: every entry points to an active session,
which exists, and every active session has one entry, under the id that `spawn_node` returned. -/
structure Coherent (σ : State) : Prop where
  owned : ∀ pid s, σ.activeSessionMap pid = some s →
    s ∈ σ.activeSessions ∧ (σ.sessions s).isSome
  entry : ∀ s ∈ σ.activeSessions, ∃ pid, σ.returned s = some pid ∧
    ∀ key, σ.activeSessionMap key = some s ↔ key = pid

/-- A session that becomes active has the id it was returned with, which no active session was
returned with; and a session found disconnected was visited under that id. -/
def KeyUnchanged (σ : State) : Event → Prop
  | .activate => ∀ i s handle, σ.control = .accepted i → σ.pendingSessions[i]? = some s →
      σ.sessions s = some handle → σ.returned s = some handle.id ∧
        ∀ t ∈ σ.activeSessions, σ.returned t ≠ some handle.id
  | .disconnect => ∀ i nodeId s, σ.control = .visiting i nodeId →
      σ.activeSessions[i]? = some s → σ.returned s = some nodeId
  | _ => True

end IpcManager

end IACore
