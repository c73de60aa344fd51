import IACore.IPC.Descriptor
import Mathlib.Logic.Function.Basic

/-!
# The endpoints of several managers on one host

`IpcManager::spawn_node` names the socket and the shared memory of a session by a number of its own
process, and the names are the host's.  Any number of processes take their steps in any order: the
increment of `s_id_gen`, `bind_unix_socket`, which unlinks the path first, `map_shared_memory` as
owner, which truncates what has the name, and the release of a session.

A session records beside its number which call of `spawn_node` of its process made it; no step reads
that.
-/

namespace IACore

namespace IpcEndpoints

/-- How far a session is: it has its number; its socket is bound; its memory is mapped; it has been
released, or `spawn_node` has failed. -/
inductive Stage
  | numbered
  | bound
  | mapped
  | gone
  deriving DecidableEq, Repr

structure Session where
  sid : UInt32
  call : ℕ
  stage : Stage
  deriving DecidableEq, Repr

/-- `s_id_gen` and the number of calls of `spawn_node` of each process; the sessions; and the
session that each socket path and each shared memory was last bound or truncated by. -/
structure State where
  idGen : ℕ → UInt32
  calls : ℕ → ℕ
  sessions : ℕ → Option Session
  fresh : ℕ
  sockets : Text → Option ℕ
  sharedMemory : Text → Option ℕ

inductive Event
  /-- The process `p` calls `spawn_node`. -/
  | spawnNode (p : ℕ)
  /-- `bind_unix_socket` for the session `s`, which may fail after its unlink. -/
  | bind (s : ℕ) (ok : Bool)
  /-- `map_shared_memory`, which may fail and unlink. -/
  | map (s : ℕ) (ok : Bool)
  /-- `spawn_node` fails elsewhere. -/
  | fail (s : ℕ)
  /-- The manager releases the session. -/
  | release (s : ℕ)
  /-- The node of the session finds itself disconnected and unlinks the shared memory. -/
  | nodeUnlink (s : ℕ)
  deriving DecidableEq, Repr

/-- No sessions. -/
def start : State where
  idGen _ := 0
  calls _ := 0
  sessions _ := none
  fresh := 0
  sockets _ := none
  sharedMemory _ := none

namespace State

/-- The session `s` comes to `stage`. -/
def setStage (σ : State) (s : ℕ) (session : Session) (stage : Stage) : State :=
  { σ with sessions := Function.update σ.sessions s (some { session with stage := stage }) }

def spawnNode (σ : State) (p : ℕ) : State where
  idGen := Function.update σ.idGen p (σ.idGen p + 1)
  calls := Function.update σ.calls p (σ.calls p + 1)
  sessions := Function.update σ.sessions σ.fresh (some ⟨σ.idGen p + 1, σ.calls p + 1, .numbered⟩)
  fresh := σ.fresh + 1
  sockets := σ.sockets
  sharedMemory := σ.sharedMemory

/-- What an event does, where it may happen. -/
def step (σ : State) : Event → Option State
  | .spawnNode p => some (σ.spawnNode p)
  | .bind s ok => do
    let session ← σ.sessions s
    if session.stage = .numbered then
      some { σ.setStage s session (if ok then .bound else .gone) with
        sockets := Function.update σ.sockets (IpcManager.sockPath session.sid)
          (if ok then some s else none) }
    else none
  | .map s ok => do
    let session ← σ.sessions s
    if session.stage = .bound then
      some { σ.setStage s session (if ok then .mapped else .gone) with
        sharedMemory := Function.update σ.sharedMemory (IpcManager.shmName session.sid)
          (if ok then some s else none) }
    else none
  | .fail s => do
    let session ← σ.sessions s
    if session.stage = .gone then none else some (σ.setStage s session .gone)
  | .release s => do
    let session ← σ.sessions s
    if session.stage = .mapped then
      some { σ.setStage s session .gone with
        sharedMemory := Function.update σ.sharedMemory (IpcManager.shmName session.sid) none }
    else none
  | .nodeUnlink s => do
    let session ← σ.sessions s
    some { σ with
      sharedMemory := Function.update σ.sharedMemory (IpcManager.shmName session.sid) none }

/-- The session `s` has been created and not yet released. -/
def Live (σ : State) (s : ℕ) (session : Session) : Prop :=
  σ.sessions s = some session ∧ session.stage ≠ .gone

end State

/-- Live sessions have different names, so that nobody has bound over the socket or truncated the
memory of a live one. -/
structure Separate (σ : State) : Prop where
  names : ∀ s t session session', σ.Live s session → σ.Live t session' → s ≠ t →
    IpcManager.sockPath session.sid ≠ IpcManager.sockPath session'.sid ∧
      IpcManager.shmName session.sid ≠ IpcManager.shmName session'.sid
  socket : ∀ s session, σ.Live s session → session.stage ≠ .numbered →
    σ.sockets (IpcManager.sockPath session.sid) = some s
  memory : ∀ s session, σ.Live s session → session.stage = .mapped →
    ∀ t, σ.sharedMemory (IpcManager.shmName session.sid) = some t → t = s

/-- A call of `spawn_node` is not, modulo `2 ^ 32`, the same call of its process as the one that
made a session that is still alive. -/
def NumberFree (σ : State) : Event → Prop
  | .spawnNode p => ∀ s session, σ.Live s session →
      session.call % 4294967296 ≠ (σ.calls p + 1) % 4294967296
  | _ => True

end IpcEndpoints

end IACore
