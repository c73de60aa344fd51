import IACore.ProcessOps.Arguments
import IACore.ProcessOps.LineBuffer

/-!
# `ProcessOps::spawn_process_posix`

Any number of calls of `spawn_process_posix` in one program, each on a thread of its own, over the
pipes and the processes of the system.  Every system call and every store to the atomic `id` is a
step, and so is everything that the processes started by the calls do with the pipes; the child's
own calls between `fork` and `execvp`, which only its descriptor table sees, are one step with the
`fork`.

`pipe` is called without `O_CLOEXEC`, so a child has open whatever its parent has: besides its own
pipe the ends of the pipes that other calls, or failed ones, have open at its `fork`.

`pipe`, `fork`, `read` and `waitpid` may fail.  A `read` that fails, as when a signal interrupts it,
ends the loop as the end of the output does; `status` is not initialised, so it may be anything
after a `waitpid` that fails.
-/

namespace IACore

namespace ProcessOps

/-- What `waitpid` says of a process: `WIFEXITED` with its `WEXITSTATUS`, or not. -/
inductive Status
  | exited (code : UInt8)
  | killed
  deriving DecidableEq, Repr

/-- The `WEXITSTATUS` of a process, or what `spawn_process_posix` returns without one. -/
def Status.code : Status → ℤ
  | .exited code => code.toNat
  | .killed => -1

/-- An end of a pipe, as a descriptor refers to it. -/
inductive PipeEnd
  | read (pipe : ℕ)
  | write (pipe : ℕ)
  deriving DecidableEq, Repr

/-- A pipe: the bytes written to it so far and how many of them have been read. -/
structure Pipe where
  written : Text
  taken : ℕ
  deriving DecidableEq, Repr

/-- A process that a call has started, or one that such a process has forked. -/
structure Process where
  /-- The number of the call. -/
  call : ℕ
  /-- What `execvp` was given. -/
  argv : List Text
  /-- The end of a pipe behind each of its descriptors that has one. -/
  ends : List PipeEnd
  status : Option Status
  deriving DecidableEq, Repr

/-- The process id of process `n`; the system does not use one again here. -/
def pid (n : ℕ) : ℕ := n + 1

/-! ### The system -/

/-- The pipes, the descriptors of the program and the processes that it has started. -/
structure Kernel where
  pipes : List Pipe
  ends : List PipeEnd
  processes : List Process
  deriving DecidableEq, Repr

namespace Kernel

/-- The descriptors of a child that has been forked with `ends` open, after its
`close(pipefd[0])`, `dup2` to the standard output and the standard error and `close(pipefd[1])`. -/
def childEnds (ends : List PipeEnd) (pipefd : ℕ) : List PipeEnd :=
  .write pipefd :: .write pipefd :: (ends.erase (.read pipefd)).erase (.write pipefd)

/-- `pipe`. -/
def pipe (κ : Kernel) : Kernel :=
  { κ with
    pipes := κ.pipes ++ [⟨[], 0⟩]
    ends := .read κ.pipes.length :: .write κ.pipes.length :: κ.ends }

/-- `fork` and what the child does up to its `execvp`. -/
def fork (κ : Kernel) (call pipefd : ℕ) (argv : List Text) : Kernel :=
  { κ with processes := κ.processes ++ [⟨call, argv, childEnds κ.ends pipefd, none⟩] }

/-- `close` by the program. -/
def close (κ : Kernel) (fd : PipeEnd) : Kernel := { κ with ends := κ.ends.erase fd }

/-- A descriptor for an end of a pipe is open somewhere. -/
def IsOpen (κ : Kernel) (fd : PipeEnd) : Prop :=
  fd ∈ κ.ends ∨ ∃ process ∈ κ.processes, fd ∈ process.ends

instance (κ : Kernel) (fd : PipeEnd) : Decidable (κ.IsOpen fd) :=
  inferInstanceAs (Decidable (_ ∨ _))

/-- Somebody can write to the pipe. -/
def HasWriter (κ : Kernel) (pipe : ℕ) : Prop := κ.IsOpen (.write pipe)

instance (κ : Kernel) (pipe : ℕ) : Decidable (κ.HasWriter pipe) :=
  inferInstanceAs (Decidable (κ.IsOpen (.write pipe)))

/-- `read` of at most 4096 bytes, where it does not fail: `count` bytes, or none at the end of a
pipe that nobody can write to; it blocks while there is nothing to read and somebody can. -/
def read (κ : Kernel) (pipefd count : ℕ) : Option (Text × Kernel) := do
  let pipe ← κ.pipes[pipefd]?
  if count = 0 then
    if pipe.taken = pipe.written.length ∧ ¬ κ.HasWriter pipefd then some ([], κ) else none
  else if count ≤ 4096 ∧ pipe.taken + count ≤ pipe.written.length then
    some (substr pipe.written pipe.taken count,
      { κ with pipes := κ.pipes.set pipefd { pipe with taken := pipe.taken + count } })
  else none

/-- `waitpid` for process `n`, where it does not fail; it blocks until the process has ended. -/
def waitpid (κ : Kernel) (n : ℕ) : Option Status := κ.processes[n]? >>= Process.status

/-- What a process may do. -/
inductive Deed
  /-- It writes to a pipe that can still be read. -/
  | write (pipe : ℕ) (data : Text)
  | close (fd : PipeEnd)
  | fork
  | exit (status : Status)
  deriving DecidableEq, Repr

/-- Process `n`, if it has not ended. -/
def running (κ : Kernel) (n : ℕ) : Option Process := do
  let process ← κ.processes[n]?
  if process.status = none then some process else none

/-- Process `n` does something, if it has not ended; to write it takes a descriptor. -/
def deed (κ : Kernel) (n : ℕ) : Deed → Option Kernel
  | .write pipe data => do
    let process ← κ.running n
    let p ← κ.pipes[pipe]?
    if .write pipe ∈ process.ends ∧ κ.IsOpen (.read pipe) then
      some { κ with pipes := κ.pipes.set pipe { p with written := p.written ++ data } }
    else none
  | .close fd => do
    let process ← κ.running n
    some { κ with processes := κ.processes.set n { process with ends := process.ends.erase fd } }
  | .fork => do
    let process ← κ.running n
    some { κ with processes := κ.processes ++ [process] }
  | .exit status => do
    let process ← κ.running n
    some { κ with
      processes := κ.processes.set n { process with ends := [], status := some status } }

end Kernel

/-! ### The calls -/

/-- Where a call is: before which of its system calls or stores, or how it has returned. -/
inductive Stage
  | pipe
  | fork (pipefd : ℕ)
  | store (pipefd child : ℕ)
  | closeWrite (pipefd child : ℕ)
  | read (pipefd child : ℕ)
  | closeRead (pipefd child : ℕ)
  | waitpid (pipefd child : ℕ)
  | clear (pipefd child : ℕ) (status : Status)
  | returned (pipefd child : ℕ) (status : Status)
  | noPipe
  | noFork (pipefd : ℕ)
  deriving DecidableEq, Repr

namespace Stage

/-- What `spawn_process_posix` returns. -/
def result : Stage → Option (Except String ℤ)
  | .returned _ _ status => some (.ok status.code)
  | .noPipe => some (.error "Failed to create pipe")
  | .noFork _ => some (.error "Failed to fork process")
  | _ => none

/-- The call has made pipe `p` and has not read it to the end. -/
def awaits (p : ℕ) : Stage → Prop
  | .fork q | .store q _ | .closeWrite q _ | .read q _ => q = p
  | _ => False

/-- The call has the end for writing open and will close it. -/
def exposed : Stage → Bool
  | .fork _ | .store _ _ | .closeWrite _ _ => true
  | _ => false

end Stage

/-- A call of `spawn_process_posix` and the atomic that it was given. -/
structure SpawnCall where
  command : Text
  args : Text
  id : ℕ
  lineBuf : LineBuffer
  stage : Stage
  deriving DecidableEq, Repr

namespace SpawnCall

/-- A call that is made. -/
def make (command args : Text) : SpawnCall := ⟨command, args, 0, .construct, .pipe⟩

/-- The next system call or store of a call, with what is up to the system: whether it succeeds and
how many bytes `read` returns. -/
inductive Action
  | pipe (ok : Bool)
  | fork (ok : Bool)
  | read (count : ℕ)
  /-- `read` returns `-1`. -/
  | readFails
  /-- `waitpid` returns `-1`, and `status` is what was there before. -/
  | waitpidFails (status : Status)
  | advance
  deriving DecidableEq, Repr

/-- The next step of call `i`. -/
def step (κ : Kernel) (i : ℕ) (call : SpawnCall) : Action → Option (Kernel × SpawnCall)
  | .pipe ok =>
    match call.stage with
    | .pipe =>
      if ok then some (κ.pipe, { call with stage := .fork κ.pipes.length })
      else some (κ, { call with stage := .noPipe })
    | _ => none
  | .fork ok =>
    match call.stage with
    | .fork pipefd =>
      if ok then
        some (κ.fork i pipefd (argv call.command call.args),
          { call with stage := .store pipefd κ.processes.length })
      else some (κ, { call with stage := .noFork pipefd })
    | _ => none
  | .read count =>
    match call.stage with
    | .read pipefd child => do
      let (data, κ') ← κ.read pipefd count
      if count = 0 then
        some (κ', { call with lineBuf := call.lineBuf.flush, stage := .closeRead pipefd child })
      else some (κ', { call with lineBuf := call.lineBuf.append data })
    | _ => none
  | .readFails =>
    match call.stage with
    | .read pipefd child =>
      some (κ, { call with lineBuf := call.lineBuf.flush, stage := .closeRead pipefd child })
    | _ => none
  | .waitpidFails status =>
    match call.stage with
    | .waitpid pipefd child => some (κ, { call with stage := .clear pipefd child status })
    | _ => none
  | .advance =>
    match call.stage with
    | .store pipefd child =>
      some (κ, { call with id := pid child, stage := .closeWrite pipefd child })
    | .closeWrite pipefd child =>
      some (κ.close (.write pipefd), { call with stage := .read pipefd child })
    | .closeRead pipefd child =>
      some (κ.close (.read pipefd), { call with stage := .waitpid pipefd child })
    | .waitpid pipefd child => do
      let status ← κ.waitpid child
      some (κ, { call with stage := .clear pipefd child status })
    | .clear pipefd child status =>
      some (κ, { call with id := 0, stage := .returned pipefd child status })
    | _ => none

end SpawnCall

/-! ### Runs -/

/-- The system and the calls made so far. -/
structure Spawns where
  kernel : Kernel
  calls : List SpawnCall
  deriving DecidableEq, Repr

namespace Spawns

inductive Event
  /-- A call is made. -/
  | call (command args : Text)
  /-- The next step of call `i`. -/
  | act (i : ℕ) (action : SpawnCall.Action)
  /-- Process `n` does something. -/
  | deed (n : ℕ) (deed : Kernel.Deed)
  deriving DecidableEq, Repr

/-- Before the first call. -/
def start : Spawns := ⟨⟨[], [], []⟩, []⟩

def step (σ : Spawns) : Event → Option Spawns
  | .call command args => some { σ with calls := σ.calls ++ [.make command args] }
  | .act i action => do
    let call ← σ.calls[i]?
    let (κ, call') ← call.step σ.kernel i action
    some ⟨κ, σ.calls.set i call'⟩
  | .deed n deed => do
    let κ ← σ.kernel.deed n deed
    some { σ with kernel := κ }

/-- A process that could write to the pipe of a call that still waits for output is the child of
this call or comes from it. -/
def Private (σ : Spawns) : Prop :=
  ∀ process ∈ σ.kernel.processes, ∀ p, .write p ∈ process.ends →
    ∀ (i : ℕ) (call : SpawnCall), σ.calls[i]? = some call → call.stage.awaits p →
      process.call = i

/-- No call forks while another one is between its `pipe` and its `close(pipefd[1])`. -/
def Apart (σ : Spawns) : Event → Prop
  | .act i (.fork true) =>
    ∀ (j : ℕ) (call : SpawnCall), σ.calls[j]? = some call → call.stage.exposed = true → j = i
  | _ => True

end Spawns

end ProcessOps

end IACore
