import IACore.Text

/-!
# `Environment`

The environment of a POSIX process, a list of C strings `name=value`, with the functions of the C
library and those of the class on it.  A process may be started with any list, also with one that
names a variable twice or has strings without a name.  The branches for Windows, where `find` does
not find a variable with an empty value, are left out.
-/

namespace IACore

/-- `environ`. -/
abbrev Environ := List Text

namespace Environ

/-- What is left of a string that starts with `name` and an equals sign. -/
def valueOf (name entry : Text) : Option Text :=
  if name ++ ['='.toUInt8] <+: entry then some (entry.drop (name.length + 1)) else none

/-- The C library sets no other name than these. -/
def IsName (name : Text) : Prop := name ≠ [] ∧ '='.toUInt8 ∉ name

instance (name : Text) : Decidable (IsName name) := inferInstanceAs (Decidable (_ ∧ _))

/-- `getenv`. -/
def getenv (env : Environ) (name : Text) : Option Text :=
  if name = [] then none else env.findSome? (valueOf name)

/-- The environment in which the first string for `name`, or a new one at the end, has `value`. -/
def put (name value : Text) : Environ → Environ
  | [] => [name ++ ['='.toUInt8] ++ value]
  | entry :: env =>
    if (valueOf name entry).isSome then (name ++ ['='.toUInt8] ++ value) :: env
    else entry :: put name value env

/-- `setenv(name, value, 1)`, which may also find no memory. -/
def setenv (env : Environ) (name value : Text) (memory : Bool) : Option Environ :=
  if IsName name ∧ memory then some (put name value env) else none

/-- `unsetenv`. -/
def unsetenv (env : Environ) (name : Text) : Option Environ :=
  if IsName name then some (env.filter fun entry => (valueOf name entry).isNone) else none

end Environ

namespace Environment

def find (env : Environ) (name : Text) : Option Text := env.getenv (cString name)

def get (env : Environ) (name defaultValue : Text) : Text := (find env name).getD defaultValue

def exists' (env : Environ) (name : Text) : Bool := (find env name).isSome

/-- `set`, with the environment afterwards. -/
def set (env : Environ) (name value : Text) (memory : Bool) : Except Text Unit × Environ :=
  if name = [] then (.error (text "Environment variable name cannot be empty"), env)
  else match env.setenv (cString name) (cString value) memory with
    | none => (.error (text "Failed to set environment variable: " ++ name), env)
    | some env => (.ok (), env)

/-- `unset`, with the environment afterwards. -/
def unset (env : Environ) (name : Text) : Except Text Unit × Environ :=
  if name = [] then (.error (text "Environment variable name cannot be empty"), env)
  else match env.unsetenv (cString name) with
    | none => (.error (text "Failed to unset environment variable: " ++ name), env)
    | some env => (.ok (), env)

/-! ### Runs -/

inductive Op
  | set (name value : Text) (memory : Bool)
  | unset (name : Text)
  deriving DecidableEq, Repr

/-- One call. -/
def Op.run (env : Environ) : Op → Except Text Unit × Environ
  | .set name value memory => Environment.set env name value memory
  | .unset name => Environment.unset env name

/-- The environment after some calls. -/
def runAll (env : Environ) (ops : List Op) : Environ := ops.foldl (fun env op => (op.run env).2) env

/-- What an environment is for: each name has a value or none. -/
abbrev Variables := Text → Option Text

/-- What a call means for the variables. -/
def Op.meaning (vars : Variables) : Op → Variables
  | .set name value memory =>
    if Environ.IsName (cString name) ∧ memory then
      Function.update vars (cString name) (some (cString value))
    else vars
  | .unset name =>
    if Environ.IsName (cString name) then Function.update vars (cString name) none
    else vars

end Environment

end IACore
