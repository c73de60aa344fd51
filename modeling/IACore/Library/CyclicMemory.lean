import Mathlib.Data.List.Basic
import Mathlib.Data.List.Induction
import Mathlib.Data.Nat.ModEq
import Mathlib.Logic.Function.Basic

/-!
# Cyclic windows of a memory

A memory is a function `mem : ℕ → α`; a *window* of it is a list of cells starting at an offset `o`
and running upwards modulo a size `c`, which need not be a power of two.  `Holds mem c o xs` says
that the window at `o` shows `xs`; `window mem c o n` reads `n` cells; `fill mem c o xs` writes
`xs`.

Offsets are not reduced: `o` and `o % c` name the same window (`holds_mod`), so a producer and a
consumer can be followed by counters that only grow.  The two facts everything rests on are that
distinct counters closer than `c` name distinct cells (`mod_ne_mod_of_lt`), and that writing
outside a window leaves it alone (`Holds.update`, `Holds.fill`).
-/

namespace CyclicMemory

variable {α : Type*}

/-- Two counters less than one turn apart name different cells. -/
theorem mod_ne_mod_of_lt {a b c : ℕ} (hab : a < b) (hbc : b < a + c) : a % c ≠ b % c := by
  intro h
  have h0 : (b - a) % c = 0 := Nat.sub_mod_eq_zero_of_mod_eq h.symm
  rw [Nat.mod_eq_of_lt (by omega)] at h0
  omega

/-- A reduced offset moved by less than a turn wraps at most once. -/
theorem add_mod_eq_or {c r d : ℕ} (hr : r < c) (hd : d < c) :
    (r + d) % c = r + d ∨ (r + d) % c + c = r + d := by
  by_cases hlt : r + d < c
  · exact Or.inl (Nat.mod_eq_of_lt hlt)
  · right
    rw [Nat.mod_eq_sub_mod (by omega), Nat.mod_eq_of_lt (by omega)]
    omega

/-- The distance between two counters less than a turn apart, from their reduced values. -/
theorem add_mod_sub_mod {c d : ℕ} (r : ℕ) (hd : d < c) :
    ((r + d) % c + c - r % c) % c = d := by
  have hr : r % c < c := Nat.mod_lt _ (by omega)
  rw [← Nat.mod_add_mod]
  rcases add_mod_eq_or hr hd with h | h
  · rw [h, show r % c + d + c - r % c = d + c by omega, Nat.add_mod_right, Nat.mod_eq_of_lt hd]
  · rw [h, Nat.add_sub_cancel_left, Nat.mod_eq_of_lt hd]

/-- The window of `mem` at `o` shows `xs`. -/
def Holds (mem : ℕ → α) (c o : ℕ) (xs : List α) : Prop :=
  ∀ (i : ℕ) (x : α), xs[i]? = some x → mem ((o + i) % c) = x

/-- The `n` cells of the window of `mem` at `o`. -/
def window (mem : ℕ → α) (c o n : ℕ) : List α :=
  (List.range n).map fun i => mem ((o + i) % c)

/-- Write `xs` into the window at `o`, one cell after the other. -/
def fill (mem : ℕ → α) (c o : ℕ) : List α → ℕ → α
  | [] => mem
  | x :: xs => fill (Function.update mem (o % c) x) c (o + 1) xs

/-! ### Reading -/

@[simp] theorem window_length (mem : ℕ → α) (c o n : ℕ) : (window mem c o n).length = n := by
  simp [window]

theorem window_mod (mem : ℕ → α) (c o n : ℕ) : window mem c (o % c) n = window mem c o n := by
  simp [window]

/-- Reading splits where its length splits. -/
theorem window_add (mem : ℕ → α) (c o n m : ℕ) :
    window mem c o (n + m) = window mem c o n ++ window mem c (o + n) m := by
  rw [window, List.range_add, List.map_append, List.map_map]
  congr 1
  apply List.map_congr_left
  intro i _
  simp [Nat.add_assoc]

@[simp] theorem holds_nil (mem : ℕ → α) (c o : ℕ) : Holds mem c o [] := by
  intro i x h
  simp at h

theorem holds_mod {mem : ℕ → α} {c o : ℕ} {xs : List α} :
    Holds mem c (o % c) xs ↔ Holds mem c o xs := by
  simp [Holds]

theorem holds_append {mem : ℕ → α} {c o : ℕ} {xs ys : List α} :
    Holds mem c o (xs ++ ys) ↔ Holds mem c o xs ∧ Holds mem c (o + xs.length) ys := by
  constructor
  · intro h
    refine ⟨fun i x hx => h i x ?_, fun i y hy => ?_⟩
    · have hi : i < xs.length := (List.getElem?_eq_some_iff.mp hx).1
      rw [List.getElem?_append_left hi, hx]
    · rw [Nat.add_assoc]
      apply h
      rw [List.getElem?_append_right (by omega), Nat.add_sub_cancel_left, hy]
  · rintro ⟨hxs, hys⟩ i x hx
    by_cases hi : i < xs.length
    · rw [List.getElem?_append_left hi] at hx
      exact hxs i x hx
    · rw [List.getElem?_append_right (by omega)] at hx
      have := hys _ x hx
      rwa [Nat.add_assoc, Nat.add_sub_cancel' (by omega)] at this

/-- What a window shows is what reading it returns. -/
theorem Holds.window_eq {mem : ℕ → α} {c o : ℕ} {xs : List α} (h : Holds mem c o xs) :
    window mem c o xs.length = xs := by
  apply List.ext_getElem?
  intro i
  by_cases hi : i < xs.length
  · rw [window, List.getElem?_map, List.getElem?_range hi, Option.map_some,
      List.getElem?_eq_getElem hi]
    exact congrArg some (h i _ (List.getElem?_eq_getElem hi))
  · rw [List.getElem?_eq_none (by simp; omega), List.getElem?_eq_none (by omega)]

/-! ### Writing -/

/-- Writing a cell outside a window leaves the window alone.  `p` is the counter of the cell: it
lies past the window's end and less than one turn past its start. -/
theorem Holds.update {mem : ℕ → α} {c o p : ℕ} {xs : List α} (h : Holds mem c o xs)
    (hp : o + xs.length ≤ p) (hpc : p < o + c) (v : α) :
    Holds (Function.update mem (p % c) v) c o xs := by
  intro i x hx
  have hi : i < xs.length := (List.getElem?_eq_some_iff.mp hx).1
  rw [Function.update_of_ne (mod_ne_mod_of_lt (by omega) (by omega))]
  exact h i x hx

/-- Writing the cell just past a window extends it. -/
theorem Holds.update_snoc {mem : ℕ → α} {c o : ℕ} {xs : List α} (h : Holds mem c o xs)
    (hc : xs.length < c) (v : α) :
    Holds (Function.update mem ((o + xs.length) % c) v) c o (xs ++ [v]) := by
  rw [holds_append]
  refine ⟨h.update le_rfl (by omega) v, ?_⟩
  intro i x hx
  obtain ⟨rfl, rfl⟩ : i = 0 ∧ v = x := by
    cases i with
    | zero => simpa using hx
    | succ i => simp at hx
  rw [Nat.add_zero, Function.update_self]

/-- `fill` splits where its list splits. -/
theorem fill_append (mem : ℕ → α) (c o : ℕ) (xs ys : List α) :
    fill mem c o (xs ++ ys) = fill (fill mem c o xs) c (o + xs.length) ys := by
  induction xs generalizing mem o with
  | nil => rfl
  | cons x xs ih =>
    rw [List.cons_append, fill, ih, fill, List.length_cons, Nat.add_assoc, Nat.add_comm 1]

theorem fill_mod (mem : ℕ → α) (c o : ℕ) (xs : List α) :
    fill mem c (o % c) xs = fill mem c o xs := by
  induction xs generalizing mem o with
  | nil => rfl
  | cons x xs ih =>
    rw [fill, fill, Nat.mod_mod, ← ih _ (o % c + 1), ← ih _ (o + 1), Nat.mod_add_mod]

/-- A `fill` changes no cell but those of its window. -/
theorem fill_of_ne {mem : ℕ → α} {c o k : ℕ} {xs : List α}
    (hk : ∀ i < xs.length, k ≠ (o + i) % c) : fill mem c o xs k = mem k := by
  induction xs generalizing mem o with
  | nil => rfl
  | cons x xs ih =>
    have hrest : ∀ i < xs.length, k ≠ (o + 1 + i) % c := by
      intro i hi
      rw [Nat.add_assoc, Nat.add_comm 1]
      exact hk (i + 1) (Nat.succ_lt_succ hi)
    have hne : k ≠ o % c := hk 0 (Nat.succ_pos _)
    rw [fill, ih hrest, Function.update_of_ne hne]

/-- A `fill` past the end of a window, and within one turn of its start, leaves it alone. -/
theorem Holds.fill {mem : ℕ → α} {c o p : ℕ} {xs ys : List α} (h : Holds mem c o xs)
    (hp : o + xs.length ≤ p) (hpc : p + ys.length ≤ o + c) :
    Holds (fill mem c p ys) c o xs := by
  induction ys generalizing mem p with
  | nil => exact h
  | cons y ys ih =>
    rw [List.length_cons] at hpc
    exact ih (h.update hp (by omega) y) (by omega) (by omega)

/-- After a `fill` that does not lap itself, the window shows what was written. -/
theorem holds_fill (mem : ℕ → α) (c o : ℕ) {xs : List α} (hc : xs.length ≤ c) :
    Holds (fill mem c o xs) c o xs := by
  induction xs using List.reverseRecOn with
  | nil => exact holds_nil _ _ _
  | append_singleton xs x ih =>
    rw [List.length_append, List.length_singleton] at hc
    rw [fill_append]
    exact (ih (by omega)).update_snoc (by omega) x

/-- A `fill` behind a window extends it. -/
theorem Holds.append_fill {mem : ℕ → α} {c o : ℕ} {xs ys : List α} (h : Holds mem c o xs)
    (hc : xs.length + ys.length ≤ c) :
    Holds (CyclicMemory.fill mem c (o + xs.length) ys) c o (xs ++ ys) := by
  rw [holds_append]
  exact ⟨h.fill le_rfl (by omega), holds_fill _ _ _ (by omega)⟩

end CyclicMemory
