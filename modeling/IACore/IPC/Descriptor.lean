import IACore.Text

/-!
# `IpcConnectionDescriptor`

What `IpcManager::spawn_node` passes to its child on the command line, and how the child reads it.
The texts are those of the POSIX build.
-/

namespace IACore

structure IpcConnectionDescriptor where
  socketPath : Text
  sharedMemPath : Text
  sharedMemSize : UInt32
  deriving DecidableEq, Repr

namespace IpcConnectionDescriptor

/-- The separator of the fields. -/
def bar : UInt8 := '|'.toUInt8

def serialize (desc : IpcConnectionDescriptor) : Text :=
  desc.socketPath ++ [bar] ++ desc.sharedMemPath ++ [bar] ++ formatU32 desc.sharedMemSize ++ [bar]

inductive ParseState
  | socketPath
  | sharedMemPath
  | sharedMemSize
  deriving DecidableEq, Repr

/-- The loop of `deserialize` from the index `i` on, with its variables `result`, `state` and
`t`. -/
def deserializeFrom (data : Text) (result : IpcConnectionDescriptor) (state : ParseState)
    (t i : ℕ) : Option IpcConnectionDescriptor :=
  if h : i < data.length then
    if data[i] ≠ bar then deserializeFrom data result state t (i + 1)
    else
      match state with
      | .socketPath =>
        deserializeFrom data { result with socketPath := substr data t (i - t) } .sharedMemPath
          (i + 1) (i + 1)
      | .sharedMemPath =>
        deserializeFrom data { result with sharedMemPath := substr data t (i - t) } .sharedMemSize
          (i + 1) (i + 1)
      | .sharedMemSize =>
        match fromChars (substr data t (i - t)) with
        | some n => some { result with sharedMemSize := n }
        | none => none
  else none
termination_by data.length - i

def deserialize (data : Text) : Option IpcConnectionDescriptor :=
  deserializeFrom data ⟨[], [], 0⟩ .socketPath 0 0

end IpcConnectionDescriptor

namespace IpcManager

/-- `sock_path` of the session `sid`. -/
def sockPath (sid : UInt32) : Text := text "/tmp/ia_sess_" ++ formatU32 sid ++ text ".sock"

/-- `shm_name` of the session `sid`. -/
def shmName (sid : UInt32) : Text := text "ia_shm_" ++ formatU32 sid

/-- `desc` of the session `sid`. -/
def sessionDescriptor (sid sharedMemorySize : UInt32) : IpcConnectionDescriptor where
  socketPath := sockPath sid
  sharedMemPath := shmName sid
  sharedMemSize := sharedMemorySize

/-- `args`: the descriptor in double quotes. -/
def nodeArgs (desc : IpcConnectionDescriptor) : Text :=
  ['"'.toUInt8] ++ desc.serialize ++ ['"'.toUInt8]

end IpcManager

end IACore
