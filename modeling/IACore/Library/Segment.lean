import Mathlib.Data.Nat.Notation
import Mathlib.Tactic.Common

/-!
# Segments of a memory

A memory is a function `mem : ℕ → α`.  `read mem o` is the part of it from `o` on, by the distance
from `o`, and `write mem o segment` puts such a part back.  Whoever works on a segment may change
every cell from `o` on; if it keeps to the first `n` of them (`SameFrom`), then all other cells are
left alone (`write_of_not_mem`).
-/

namespace Segment

variable {α : Type*}

def read (mem : ℕ → α) (o : ℕ) : ℕ → α := fun i => mem (o + i)

def write (mem : ℕ → α) (o : ℕ) (segment : ℕ → α) : ℕ → α :=
  fun k => if o ≤ k then segment (k - o) else mem k

/-- The two segments agree from the cell `n` on. -/
def SameFrom (n : ℕ) (segment segment' : ℕ → α) : Prop := ∀ i, n ≤ i → segment' i = segment i

variable {mem : ℕ → α} {o o' n k : ℕ} {segment : ℕ → α}

@[simp] theorem read_write (mem : ℕ → α) (o : ℕ) (segment : ℕ → α) :
    read (write mem o segment) o = segment := by
  funext i
  rw [read, write, if_pos (Nat.le_add_right o i), Nat.add_sub_cancel_left]

/-- A cell outside the first `n` of the segment at `o`. -/
theorem write_of_not_mem (h : SameFrom n (read mem o) segment) (hk : k < o ∨ o + n ≤ k) :
    write mem o segment k = mem k := by
  rcases hk with hlt | hle
  · exact if_neg (by omega)
  · rw [write, if_pos (by omega), h _ (by omega), read]
    congr 1
    omega

end Segment
