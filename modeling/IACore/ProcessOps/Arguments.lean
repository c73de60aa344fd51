import IACore.Text

/-!
# The argument loop of `ProcessOps::spawn_process_posix`

The child takes its argument vector from one text: spaces outside double quotes separate, quotes
toggle, and a backslash takes the next character as it is.
-/

namespace IACore

namespace ProcessOps

/-- The variables of the loop. -/
structure ArgumentLoop where
  argStorage : List Text
  currentToken : Text
  inQuotes : Bool
  isEscaped : Bool
  deriving DecidableEq, Repr

namespace ArgumentLoop

def start : ArgumentLoop := ⟨[], [], false, false⟩

/-- One turn of the loop. -/
def turn (σ : ArgumentLoop) (c : UInt8) : ArgumentLoop :=
  if σ.isEscaped then
    { σ with currentToken := σ.currentToken ++ [c], isEscaped := false }
  else if c = '\\'.toUInt8 then
    { σ with isEscaped := true }
  else if c = '"'.toUInt8 then
    { σ with inQuotes := !σ.inQuotes }
  else if c = ' '.toUInt8 ∧ σ.inQuotes = false then
    if σ.currentToken ≠ [] then
      { σ with argStorage := σ.argStorage ++ [σ.currentToken], currentToken := [] }
    else σ
  else
    { σ with currentToken := σ.currentToken ++ [c] }

end ArgumentLoop

/-- `arg_storage` after the loop and the push that follows it. -/
def argStorage (args : Text) : List Text :=
  let σ := args.foldl ArgumentLoop.turn ArgumentLoop.start
  if σ.currentToken ≠ [] then σ.argStorage ++ [σ.currentToken] else σ.argStorage

/-- The `argv` that the child passes to `execvp`, as C strings. -/
def argv (command args : Text) : List Text := (command :: argStorage args).map cString

/-! ### Quoting -/

/-- A character as it is written between double quotes. -/
def escape (c : UInt8) : Text :=
  if c = '\\'.toUInt8 ∨ c = '"'.toUInt8 then ['\\'.toUInt8, c] else [c]

/-- An argument as a double-quoted string. -/
def quote (arg : Text) : Text := ['"'.toUInt8] ++ arg.flatMap escape ++ ['"'.toUInt8]

/-- Arguments as one text, joined with single spaces. -/
def quoteAll : List Text → Text
  | [] => []
  | [arg] => quote arg
  | arg :: args => quote arg ++ [' '.toUInt8] ++ quoteAll args

end ProcessOps

end IACore
