import IACore.Text

/-!
# `LineBuffer`

The buffer that cuts the output of a child process into lines.  What the callback is given is kept
as the list of its calls.
-/

namespace IACore

structure LineBuffer where
  accumulator : Text
  /-- The lines that `m_callback` was called with, in order. -/
  lines : List Text
  deriving DecidableEq, Repr

namespace LineBuffer

/-- `LineBuffer{"", callback}`. -/
def construct : LineBuffer := ⟨[], []⟩

/-- What `append` does at a line end at `i`, when the line starts at `start` in `data` or before
it. -/
def endLine (σ : LineBuffer) (data : Text) (start i : ℕ) : LineBuffer :=
  if σ.accumulator ≠ [] then
    let accumulator := σ.accumulator ++ substr data start (i - start)
    if accumulator ≠ [] then ⟨[], σ.lines ++ [accumulator]⟩ else ⟨[], σ.lines⟩
  else if start < i then { σ with lines := σ.lines ++ [substr data start (i - start)] }
  else σ

/-- The loop of `append` from the index `i` on, and what follows it. -/
def appendFrom (σ : LineBuffer) (data : Text) (start i : ℕ) : LineBuffer :=
  if h : i < data.length then
    if data[i] = '\n'.toUInt8 ∨ data[i] = '\r'.toUInt8 then
      -- the `i++` over the second half of a CR LF within the same chunk
      let i' := if data[i] = '\r'.toUInt8 ∧ data[i + 1]? = some '\n'.toUInt8 then i + 1 else i
      appendFrom (σ.endLine data start i) data (i' + 1) (i' + 1)
    else appendFrom σ data start (i + 1)
  else if start < data.length then
    { σ with accumulator := σ.accumulator ++ substr data start (data.length - start) }
  else σ
termination_by data.length - i
decreasing_by
  · split <;> omega
  · omega

def append (σ : LineBuffer) (data : Text) : LineBuffer := σ.appendFrom data 0 0

def flush (σ : LineBuffer) : LineBuffer :=
  if σ.accumulator ≠ [] then ⟨[], σ.lines ++ [σ.accumulator]⟩ else σ

/-- The read loop of `spawn_process_posix` over what the calls of `read` return: one `append` for
each and a `flush` at the end. -/
def readAll (chunks : List Text) : LineBuffer := (chunks.foldl append construct).flush

end LineBuffer

end IACore
