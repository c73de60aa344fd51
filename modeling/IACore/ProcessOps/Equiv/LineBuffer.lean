import IACore.Library.Runs
import IACore.ProcessOps.LineBuffer

/-!
# The lines of a process do not depend on how its output is read

`append` keeps an index to the start of the line and emits through two branches, but seen byte by
byte it is the collector of the runs between line ends (`appendFrom_collected`): what stands
between `start` and `i` is pending after the accumulator, and stepping over the LF of a CR LF skips
a line end that would emit nothing.
-/

namespace IACore

namespace LineBuffer

open Runs

/-- A byte that ends a line. -/
def isLineEnd (c : UInt8) : Bool := c = '\n'.toUInt8 || c = '\r'.toUInt8

/-- The buffer as a collector. -/
def collected (σ : LineBuffer) : Collector UInt8 := ⟨σ.accumulator, σ.lines⟩

/-- The collector inside the loop: the line so far is the accumulator and the bytes since
`start`. -/
def collectedAt (σ : LineBuffer) (data : Text) (start i : ℕ) : Collector UInt8 :=
  ⟨σ.accumulator ++ substr data start (i - start), σ.lines⟩

/-- Both branches of a line end emit the line so far. -/
theorem collected_endLine (σ : LineBuffer) {data : Text} {start i : ℕ} (hi : i < data.length) :
    (σ.endLine data start i).collected = (σ.collectedAt data start i).emit := by
  have hsub : substr data start (i - start) = [] ↔ ¬ start < i := by
    rw [substr, List.take_eq_nil_iff, List.drop_eq_nil_iff]
    omega
  by_cases hacc : σ.accumulator = []
  · by_cases hlt : start < i
    · have hne : substr data start (i - start) ≠ [] := fun h => hsub.mp h hlt
      simp [endLine, collected, collectedAt, Collector.emit, hacc, hlt, hne]
    · simp [endLine, collected, collectedAt, Collector.emit, hacc, hlt, hsub.mpr hlt]
  · simp [endLine, collected, collectedAt, Collector.emit, hacc]

/-- At the start of a line the accumulator is the line so far. -/
theorem collectedAt_self (σ : LineBuffer) (data : Text) (i : ℕ) :
    σ.collectedAt data i i = σ.collected := by
  simp [collectedAt, collected, substr]

/-- A byte that does not end the line extends the line so far. -/
theorem collectedAt_succ (σ : LineBuffer) {data : Text} {start i : ℕ} (hstart : start ≤ i)
    (hi : i < data.length) (hend : isLineEnd data[i] = false) :
    (σ.collectedAt data start i).push isLineEnd data[i] = σ.collectedAt data start (i + 1) := by
  have hlast : (data.drop start)[i - start]? = some data[i] := by
    rw [List.getElem?_drop, Nat.add_sub_cancel' hstart, List.getElem?_eq_getElem hi]
  have hsub : substr data start (i + 1 - start) = substr data start (i - start) ++ [data[i]] := by
    rw [substr, substr, Nat.sub_add_comm hstart, List.take_add_one, hlast]
    rfl
  simp [collectedAt, Collector.push, hend, hsub]

/-- The loop reads the rest of the chunk into the collector. -/
theorem appendFrom_collected (σ : LineBuffer) (data : Text) {start i : ℕ} (hstart : start ≤ i) :
    (σ.appendFrom data start i).collected
      = (data.drop i).foldl (Collector.push isLineEnd) (σ.collectedAt data start i) := by
  fun_induction appendFrom σ data start i with
  | case1 σ start i h hend i' ih =>
    have hpush : (σ.collectedAt data start i).push isLineEnd data[i]
        = (σ.endLine data start i).collected := by
      rw [collected_endLine σ h, Collector.push, if_pos (by simpa [isLineEnd] using hend)]
    rw [ih (Nat.le_refl _), collectedAt_self, List.drop_eq_getElem_cons h, List.foldl_cons, hpush]
    by_cases hcrlf : data[i] = '\r'.toUInt8 ∧ data[i + 1]? = some '\n'.toUInt8
    · -- the LF that is stepped over would end an empty line
      obtain ⟨hlt, hlf⟩ := List.getElem?_eq_some_iff.mp hcrlf.2
      have hi' : i' = i + 1 := if_pos hcrlf
      have hskip : (σ.endLine data start i).collected.push isLineEnd data[i + 1]
          = (σ.endLine data start i).collected := by
        rw [collected_endLine σ h, Collector.push, if_pos (by simp [isLineEnd, hlf]),
          Collector.emit_emit]
      rw [hi', List.drop_eq_getElem_cons hlt, List.foldl_cons, hskip]
    · have hi' : i' = i := if_neg hcrlf
      rw [hi']
  | case2 σ start i h hend ih =>
    have hend' : isLineEnd data[i] = false := by simpa [isLineEnd] using hend
    rw [ih (by omega), List.drop_eq_getElem_cons h, List.foldl_cons,
      collectedAt_succ σ hstart h hend']
  | case3 σ start i h hlt =>
    have hall : substr data start (i - start) = substr data start (data.length - start) := by
      rw [substr, substr, List.take_of_length_le (by rw [List.length_drop]; omega),
        List.take_of_length_le (by rw [List.length_drop])]
    rw [List.drop_eq_nil_of_le (by omega), List.foldl_nil, collectedAt, hall]
    rfl
  | case4 σ start i h hlt =>
    have hnone : substr data start (i - start) = [] := by
      rw [substr, List.drop_eq_nil_of_le (by omega), List.take_nil]
    rw [List.drop_eq_nil_of_le (by omega), List.foldl_nil, collectedAt, hnone, List.append_nil]
    rfl

theorem append_collected (σ : LineBuffer) (data : Text) :
    (σ.append data).collected = data.foldl (Collector.push isLineEnd) σ.collected := by
  rw [append, appendFrom_collected σ data (Nat.le_refl 0), collectedAt_self, List.drop_zero]

theorem flush_collected (σ : LineBuffer) : σ.flush.collected = σ.collected.emit := by
  by_cases hacc : σ.accumulator = []
  · simp [flush, collected, Collector.emit, hacc]
  · simp [flush, collected, Collector.emit, hacc]

/-- Chunk by chunk the buffer is the collector of the whole. -/
theorem foldl_append_collected (chunks : List Text) (σ : LineBuffer) :
    (chunks.foldl append σ).collected
      = chunks.flatten.foldl (Collector.push isLineEnd) σ.collected := by
  rw [← Collector.foldl_push_flatten]
  induction chunks generalizing σ with
  | nil => rfl
  | cons data chunks ih => rw [List.foldl_cons, List.foldl_cons, ih, append_collected]

theorem readAll_lines (chunks : List Text) :
    (readAll chunks).lines = runs isLineEnd chunks.flatten := by
  have h := Collector.finish_push isLineEnd chunks.flatten
  rw [readAll, show ∀ σ : LineBuffer, σ.lines = σ.collected.emitted from fun _ => rfl,
    flush_collected, foldl_append_collected]
  exact h

/-- However the output of a process is cut into chunks, the callback is called with the same lines
as for the whole output at once: its non-empty maximal runs of bytes other than LF and CR, in
order. -/
theorem lines_of_chunks (chunks : List Text) :
    (readAll chunks).lines = (readAll [chunks.flatten]).lines ∧
    (readAll [chunks.flatten]).lines = runs isLineEnd chunks.flatten := by
  have hwhole : (readAll [chunks.flatten]).lines = runs isLineEnd chunks.flatten := by
    rw [readAll_lines, List.flatten_singleton]
  exact ⟨(readAll_lines chunks).trans hwhole.symm, hwhole⟩

/-- A cut between CR and LF, an empty chunk and a line over three chunks. -/
example : (readAll [text "a\r", text "\nbc", [], text "d", text "e\n\n"]).lines
    = [text "a", text "bcde"] := by
  simp only [readAll_lines]
  decide

end LineBuffer

end IACore
