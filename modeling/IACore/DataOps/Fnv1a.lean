import IACore.Text

/-!
# `DataOps::hash_fnv1a`

The two overloads, over a string and over a span.
-/

namespace IACore

namespace DataOps

def fnv1a32Prime : BitVec 32 := 0x01000193

def fnv1a32Offset : BitVec 32 := 0x811c9dc5

/-- The body of both loops. -/
def fnv1aStep (hash : BitVec 32) (byte : UInt8) : BitVec 32 :=
  (hash ^^^ byte.toBitVec.setWidth 32) * fnv1a32Prime

/-- `DataOps::hash_fnv1a` of a `String`. -/
def hashFnv1aString (string : Text) : BitVec 32 := string.foldl fnv1aStep fnv1a32Offset

/-- `for (i = 0; i < data.size(); ++i)`, from some `i` on. -/
def fnv1aLoop (data : List UInt8) (hash : BitVec 32) (i : ℕ) : BitVec 32 :=
  if h : i < data.length then fnv1aLoop data (fnv1aStep hash data[i]) (i + 1) else hash
termination_by data.length - i

/-- `DataOps::hash_fnv1a` of a span. -/
def hashFnv1a (data : List UInt8) : BitVec 32 := fnv1aLoop data fnv1a32Offset 0

end DataOps

end IACore
