import IACore.StreamReader
import IACore.StreamWriter.Equiv.Contents

/-!
# The reader undoes the writer

A vector-backed writer shows what was written, however often it grows; a reader hands it out again
piece by piece (`readAll_flatMap`).  At the end every further read fails whose size does not make
the sum of cursor and size wrap; one that does passes the check and copies past the end
(`undone_iff`, `wrapped_read_passes`).
-/

namespace IACore

namespace StreamWriter.VectorBacked

variable {w : StreamWriter} {bytes : List UInt8}

/-- A write is defined and succeeds as long as the new cursor fits in a `usize`. -/
theorem writeBytes_defined (h : w.VectorBacked)
    (hlt : w.cursor + bytes.length < 18446744073709551616) :
    ∃ w', w.writeBytes bytes = some (.ok (), w') := by
  obtain ⟨u, hreserve, hu, -, hcursor, -⟩ := h.reserve bytes.length
  have hroom : u.cursor + bytes.length ≤ u.capacity := by
    unfold StreamWriter.reserve at hreserve
    rw [usize_of_lt hlt] at hreserve
    split_ifs at hreserve with hgrow howning
    · obtain rfl := Except.ok.inj hreserve
      simp only [resize_length]
      split_ifs <;> omega
    · obtain rfl := Except.ok.inj hreserve
      omega
  have hmemory : u.cursor + bytes.length ≤ u.memory.length := by
    rw [hu.memory_eq, ← hu.capacity]
    exact hroom
  rw [StreamWriter.writeBytes, hreserve]
  simp only [StreamWriter.store, if_pos hmemory, hu.buffer, Option.map_some]
  exact ⟨_, rfl⟩

end StreamWriter.VectorBacked

namespace StreamReader

variable {r : StreamReader} {size : ℕ}

/-- What is left is handed out piece by piece. -/
theorem readBytes_next (hsize : r.dataSize = r.data.length)
    (hle : r.cursor + size ≤ r.data.length) (hlt : r.data.length < 9223372036854775808) :
    r.readBytes size = some (.ok ((r.data.drop r.cursor).take size),
      { r with cursor := r.cursor + size }) := by
  have hmod : usize (r.cursor + size) = r.cursor + size := usize_of_lt (by omega)
  rw [readBytes, hmod, if_neg (by omega), if_pos hle]

/-- At the end a read fails, unless its size makes the sum wrap; then it is undefined. -/
theorem readBytes_end (hcursor : r.cursor = r.dataSize) (hsize : r.dataSize = r.data.length)
    (hlt : r.data.length < 9223372036854775808) (hpos : 1 ≤ size)
    (hmax : size < 18446744073709551616) :
    r.readBytes size = if r.cursor + size < 18446744073709551616
      then some (.error "Unexpected EOF while reading", r) else none := by
  split_ifs with hwrap
  · rw [readBytes, usize_of_lt hwrap, if_pos (by omega)]
  · have hmod : usize (r.cursor + size) = r.cursor + size - 18446744073709551616 := by
      unfold usize
      omega
    rw [readBytes, hmod, if_neg (by omega), if_neg (by omega)]

end StreamReader

namespace Roundtrip

/-! ### Writing -/

theorem Write.run_eq (write : Write) (w : StreamWriter) :
    write.run w = w.writeBytes write.written := by
  cases write <;> rfl

theorem Read.run_eq (read : Read) (r : StreamReader) : read.run r = r.readBytes read.size := by
  cases read <;> rfl

theorem total_cons (write : Write) (writes : List Write) :
    total (write :: writes) = write.written ++ total writes := List.flatMap_cons

theorem writeAll_defined {w : StreamWriter} (h : w.VectorBacked) (writes : List Write)
    (hlt : w.cursor + (total writes).length < 18446744073709551616) :
    ∃ w', writeAll w writes = some w' ∧ w'.VectorBacked ∧
      w'.contents = w.contents ++ total writes := by
  induction writes generalizing w with
  | nil => exact ⟨w, rfl, h, by simp [total]⟩
  | cons write writes ih =>
    rw [total_cons, List.length_append] at hlt
    have hfits : w.cursor + write.written.length < 18446744073709551616 := by omega
    obtain ⟨w₁, hwrite⟩ := h.writeBytes_defined hfits
    obtain ⟨-, h₁, hcontents, -⟩ := h.writeBytes hwrite
    have hcursor : w₁.cursor = w.cursor + write.written.length := by
      rw [← h₁.contents_length, hcontents, List.length_append, h.contents_length]
    obtain ⟨w', hrest, h', hcontents'⟩ := ih h₁ (by omega)
    refine ⟨w', ?_, h', ?_⟩
    · rw [writeAll, Write.run_eq, hwrite]
      exact hrest
    · rw [hcontents', hcontents, total_cons, List.append_assoc]

/-! ### Reading -/

/-- Reads of the sizes of the writes give back what was written. -/
theorem readAll_total {r : StreamReader} (hsize : r.dataSize = r.data.length)
    (hlt : r.data.length < 9223372036854775808) {writes : List Write} {reads : List Read}
    (hsizes : reads.map Read.size = writes.map fun write => write.written.length)
    (hrest : r.data.drop r.cursor = total writes) (hcursor : r.cursor ≤ r.data.length) :
    readAll r reads = some (writes.map fun write => .ok write.written,
      { r with cursor := r.data.length }) := by
  induction writes generalizing r reads with
  | nil =>
    obtain rfl : reads = [] := by simpa using hsizes
    have hend : r.cursor = r.data.length := by
      have := congrArg List.length hrest
      rw [List.length_drop] at this
      simp only [total, List.flatMap_nil, List.length_nil] at this
      omega
    rw [readAll, List.map_nil, ← hend]
  | cons write writes ih =>
    cases reads with
    | nil => simp at hsizes
    | cons read reads =>
      simp only [List.map_cons, List.cons.injEq] at hsizes
      obtain ⟨hread, hsizes⟩ := hsizes
      rw [total_cons] at hrest
      have hlength := congrArg List.length hrest
      rw [List.length_drop, List.length_append] at hlength
      have hle : r.cursor + read.size ≤ r.data.length := by omega
      have hnext := StreamReader.readBytes_next hsize hle hlt
      have hpiece : (r.data.drop r.cursor).take read.size = write.written := by
        rw [hrest, hread, List.take_left]
      have hdrop : r.data.drop (r.cursor + read.size) = total writes := by
        rw [← List.drop_drop, hrest, hread, List.drop_left]
      have htail := ih (r := { r with cursor := r.cursor + read.size }) hsize hlt hsizes hdrop
        (by dsimp only; omega)
      rw [readAll, Read.run_eq, hnext, hpiece, List.map_cons]
      simp only [Option.bind_eq_bind, Option.bind_some, htail]

/-- At the end all further reads fail exactly if none of them wraps. -/
theorem readAll_end_iff {r : StreamReader} (hcursor : r.cursor = r.dataSize)
    (hsize : r.dataSize = r.data.length) (hlt : r.data.length < 9223372036854775808)
    {further : List Read}
    (hfurther : ∀ read ∈ further, 1 ≤ read.size ∧ read.size < 18446744073709551616) :
    (∃ results r', readAll r further = some (results, r') ∧
      ∀ result ∈ results, ∃ message, result = .error message) ↔
    ∀ read ∈ further, r.cursor + read.size < 18446744073709551616 := by
  induction further with
  | nil => simp [readAll]
  | cons read further ih =>
    obtain ⟨hpos, hmax⟩ := hfurther read List.mem_cons_self
    have ih := ih fun read hread => hfurther read (List.mem_cons_of_mem _ hread)
    have hend := StreamReader.readBytes_end hcursor hsize hlt hpos hmax
    rw [readAll, Read.run_eq, hend, List.forall_mem_cons]
    split_ifs with hwrap
    · simp only [Option.bind_eq_bind, Option.bind_some, hwrap, true_and]
      rw [← ih]
      constructor
      · rintro ⟨results, r', hreads, hfail⟩
        obtain ⟨⟨rest, r''⟩, hrest, hcons⟩ := Option.bind_eq_some_iff.mp hreads
        obtain ⟨rfl, rfl⟩ := Prod.mk.inj (Option.some.inj hcons)
        refine ⟨rest, r'', hrest, ?_⟩
        intro result hresult
        exact hfail result (List.mem_cons_of_mem _ hresult)
      · rintro ⟨results, r', hreads, hfail⟩
        refine ⟨.error "Unexpected EOF while reading" :: results, r', ?_, ?_⟩
        · rw [hreads]
          rfl
        · intro result hresult
          rcases List.mem_cons.mp hresult with rfl | hresult
          · exact ⟨_, rfl⟩
          · exact hfail result hresult
    · simp [hwrap]

/-! ### Round trips -/

section Runs

variable {writes : List Write} {reads further : List Read}

/-- What the reader finds and where it ends, over what the writer shows. -/
theorem roundtrip (htotal : (total writes).length < 9223372036854775808)
    (hsizes : reads.map Read.size = writes.map fun write => write.written.length) :
    ∃ w, writeAll .construct writes = some w ∧ w.VectorBacked ∧
      readAll (.ofSpan w.contents) reads = some (writes.map fun write => .ok write.written,
        ⟨total writes, (total writes).length, (total writes).length⟩) := by
  have hcursor : StreamWriter.construct.cursor = 0 := rfl
  have hempty : StreamWriter.construct.contents = [] := rfl
  obtain ⟨w, hw, hbacked, hcontents⟩ := writeAll_defined
    StreamWriter.construct_vectorBacked writes (by omega)
  rw [hempty, List.nil_append] at hcontents
  refine ⟨w, hw, hbacked, ?_⟩
  rw [hcontents]
  exact readAll_total (r := .ofSpan (total writes)) rfl htotal hsizes rfl (Nat.zero_le _)

theorem Undone.no_wrap (htotal : (total writes).length < 9223372036854775808)
    (hsizes : reads.map Read.size = writes.map fun write => write.written.length)
    (hfurther : ∀ read ∈ further, 1 ≤ read.size ∧ read.size < 18446744073709551616)
    (h : Undone writes reads further) :
    ∀ read ∈ further, (total writes).length + read.size < 18446744073709551616 := by
  obtain ⟨w, hw, -, hreads⟩ := roundtrip htotal hsizes
  obtain ⟨-, w', hw', r, hr, -, -, hfails⟩ := h
  obtain rfl := Option.some.inj (hw.symm.trans hw')
  obtain ⟨-, rfl⟩ := Prod.mk.inj (Option.some.inj (hreads.symm.trans hr))
  exact (readAll_end_iff rfl rfl htotal hfurther).mp hfails

theorem undone_of_no_wrap (htotal : (total writes).length < 9223372036854775808)
    (hsizes : reads.map Read.size = writes.map fun write => write.written.length)
    (hfurther : ∀ read ∈ further, 1 ≤ read.size ∧ read.size < 18446744073709551616)
    (hsafe : ∀ read ∈ further, (total writes).length + read.size < 18446744073709551616) :
    Undone writes reads further := by
  obtain ⟨w, hw, -, hreads⟩ := roundtrip htotal hsizes
  refine ⟨?_, w, hw, _, hreads, ?_, ?_, (readAll_end_iff rfl rfl htotal hfurther).mpr hsafe⟩
  · rintro before ⟨after, rfl⟩
    have hsplit : total (before ++ after) = total before ++ total after := List.flatMap_append
    rw [hsplit, List.length_append] at htotal
    have hcursor : StreamWriter.construct.cursor = 0 := rfl
    obtain ⟨w, hw, hbacked, -⟩ := writeAll_defined StreamWriter.construct_vectorBacked before
      (by omega)
    exact ⟨w, hw, hbacked.cursor_le⟩
  · simp [StreamReader.isEof]
  · rw [StreamReader.remaining, usizeSub_of_le (Nat.le_refl _) (by dsimp only; omega),
      Nat.sub_self]

/-- **The reader undoes the writer**, with every further read failing, exactly if no further size
makes the sum of cursor and size wrap. -/
theorem undone_iff (htotal : (total writes).length < 9223372036854775808)
    (hsizes : reads.map Read.size = writes.map fun write => write.written.length)
    (hfurther : ∀ read ∈ further, 1 ≤ read.size ∧ read.size < 18446744073709551616) :
    Undone writes reads further ↔
      ∀ read ∈ further, (total writes).length + read.size < 18446744073709551616 :=
  ⟨fun h => h.no_wrap htotal hsizes hfurther, undone_of_no_wrap htotal hsizes hfurther⟩

/-- A byte, a buffer and a value, and two reads too many. -/
theorem undone_three :
    Undone [.fill 7 2, .buffer [1, 2, 3], .value [4, 0, 0, 0]] [.value 2, .buffer 3, .value 4]
      [.buffer 1, .value 8] := by
  rw [undone_iff (by decide) (by decide) (by decide)]
  decide

/-- One byte is written and read, and then `2 ^ 64 - 1` bytes are asked for. -/
theorem wrapped_read_passes :
    ¬ Undone [.buffer [1]] [.buffer 1] [.buffer 18446744073709551615] := by
  intro h
  have hsafe := h.no_wrap (by decide) rfl (by decide)
  exact absurd (hsafe _ List.mem_cons_self) (by decide)

end Runs

end Roundtrip

end IACore
