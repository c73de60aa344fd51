import IACore.StreamWriter

/-!
# What a vector-backed writer holds

A write is refused or stores its bytes at the cursor (`writeBytes_eq_some`, `store_eq_some`).
`StreamWriter.VectorBacked` is the state of a writer that owns its memory, in file mode or not.
Every defined `write` keeps it and appends to `contents` exactly the bytes written
(`VectorBacked.writeBytes`); growing the vector changes nothing that can be seen
(`VectorBacked.reserve`), and a move hands the writer over as it is
(`VectorBacked.moveConstruct_fst`).
-/

namespace IACore

namespace StreamWriter

variable {w w' room : StreamWriter} {bytes : List UInt8} {result : Except String Unit}

/-! ### One write -/

/-- A store replaces bytes of the memory that `m_buffer` points to. -/
theorem store_eq_some (hstore : w.store bytes = some w') :
    w.cursor + bytes.length ≤ w.memory.length ∧
      (w.buffer = .null ∧ w' = w ∨
        w.buffer = .vector ∧ w' = { w with
          owningVector := w.owningVector.take w.cursor ++ bytes ++
            w.owningVector.drop (w.cursor + bytes.length) } ∨
        ∃ memory, w.buffer = .span memory ∧ w' = { w with
          buffer := .span (memory.take w.cursor ++ bytes ++
            memory.drop (w.cursor + bytes.length)) }) := by
  obtain ⟨hfits, hstore⟩ := Option.ite_none_right_eq_some.mp hstore
  refine ⟨hfits, ?_⟩
  cases hbuffer : w.buffer with
  | null =>
    simp only [hbuffer, Option.some.injEq] at hstore
    exact .inl ⟨rfl, hstore.symm⟩
  | vector =>
    simp only [hbuffer, StreamWriter.memory, Option.some.injEq] at hstore
    exact .inr (.inl ⟨rfl, hstore.symm⟩)
  | span memory =>
    simp only [hbuffer, StreamWriter.memory, Option.some.injEq] at hstore
    exact .inr (.inr ⟨memory, rfl, hstore.symm⟩)

/-- Where there is room the writer is left as it is, else it goes on in its own vector. -/
theorem reserve_eq_ok {count : ℕ} (hreserve : w.reserve count = .ok room) :
    room.storageType = w.storageType ∧
      (usize (w.cursor + count) ≤ w.capacity ∧ room = w ∨
        w.capacity < usize (w.cursor + count) ∧ room.buffer = .vector) := by
  unfold reserve at hreserve
  split_ifs at hreserve with hexcess htype
  · obtain rfl := Except.ok.inj hreserve
    exact ⟨rfl, .inr ⟨hexcess, rfl⟩⟩
  · obtain rfl := Except.ok.inj hreserve
    exact ⟨rfl, .inl ⟨Nat.le_of_not_lt hexcess, rfl⟩⟩

/-- A write is refused, or its bytes are stored where there is room now. -/
theorem writeBytes_eq_some (hwrite : w.writeBytes bytes = some (result, w')) :
    (∃ message, w.reserve bytes.length = .error message ∧ result = .error message ∧ w' = w) ∨
      ∃ room stored, w.reserve bytes.length = .ok room ∧ room.store bytes = some stored ∧
        result = .ok () ∧ w' = { stored with cursor := usize (stored.cursor + bytes.length) } := by
  unfold writeBytes at hwrite
  cases hreserve : w.reserve bytes.length with
  | error message =>
    rw [hreserve] at hwrite
    obtain ⟨rfl, rfl⟩ := Prod.mk.inj (Option.some.inj hwrite)
    exact .inl ⟨message, rfl, rfl, rfl⟩
  | ok room =>
    rw [hreserve] at hwrite
    obtain ⟨stored, hstore, heq⟩ := Option.map_eq_some_iff.mp hwrite
    obtain ⟨rfl, rfl⟩ := Prod.mk.inj heq
    exact .inr ⟨room, stored, rfl, hstore, rfl, rfl⟩

theorem writeBytes_storageType (hwrite : w.writeBytes bytes = some (result, w')) :
    w'.storageType = w.storageType := by
  rcases writeBytes_eq_some hwrite with
    ⟨message, -, -, rfl⟩ | ⟨room, stored, hreserve, hstore, -, rfl⟩
  · rfl
  · show stored.storageType = w.storageType
    rw [← (reserve_eq_ok hreserve).1]
    rcases (store_eq_some hstore).2 with ⟨-, rfl⟩ | ⟨-, rfl⟩ | ⟨memory, -, rfl⟩
    · rfl
    · rfl
    · rfl

/-! ### Vector-backed writers -/

/-- The writer's memory is its own vector, of a size that a `usize` holds. -/
structure VectorBacked (w : StreamWriter) : Prop where
  buffer : w.buffer = .vector
  capacity : w.capacity = w.owningVector.length
  cursor_le : w.cursor ≤ w.capacity
  capacity_lt : w.capacity < 18446744073709551616
  owning : w.storageType ≠ .nonOwning

theorem construct_vectorBacked : construct.VectorBacked where
  buffer := rfl
  capacity := by simp [construct]
  cursor_le := by simp [construct]
  capacity_lt := by simp [construct]
  owning := by simp [construct]

namespace VectorBacked

theorem memory_eq (h : w.VectorBacked) : w.memory = w.owningVector := by
  simp [memory, h.buffer]

theorem contents_eq (h : w.VectorBacked) : w.contents = w.owningVector.take w.cursor := by
  rw [contents, h.memory_eq]

/-- The storage type and the path do not matter to the vector. -/
theorem retype (h : w.VectorBacked) (path : String) {type : StorageType}
    (htype : type ≠ .nonOwning) :
    VectorBacked { w with filePath := path, storageType := type } :=
  ⟨h.buffer, h.capacity, h.cursor_le, h.capacity_lt, htype⟩

theorem contents_length (h : w.VectorBacked) : w.contents.length = w.cursor := by
  rw [h.contents_eq, List.length_take]
  have := h.cursor_le
  have := h.capacity
  omega

/-- Moving hands the writer over unchanged. -/
theorem moveConstruct_fst (h : w.VectorBacked) : w.moveConstruct.1 = w := by
  have hbuffer := h.buffer
  obtain ⟨buffer, cursor, capacity, filePath, owningVector, storageType⟩ := w
  obtain rfl : buffer = .vector := hbuffer
  simp [moveConstruct]

/-- Making room succeeds and shows the same contents. -/
theorem reserve (h : w.VectorBacked) (count : ℕ) :
    ∃ w', w.reserve count = .ok w' ∧ w'.VectorBacked ∧ w'.contents = w.contents ∧
      w'.cursor = w.cursor ∧ w'.filePath = w.filePath ∧ w'.storageType = w.storageType := by
  unfold StreamWriter.reserve
  split_ifs with hgrow howning
  · exact (h.owning howning).elim
  · refine ⟨_, rfl, ?_, ?_, rfl, rfl, rfl⟩
    all_goals
      generalize hn : (if usize (w.capacity * 2) > usize (w.cursor + count)
        then usize (w.capacity * 2) else usize (w.cursor + count)) = n
      have hcap := h.capacity
      have hcur := h.cursor_le
      have hle : w.capacity < n := by
        split_ifs at hn <;> omega
    · have hlt : n < 18446744073709551616 := by
        unfold usize at hn
        split_ifs at hn <;> omega
      exact ⟨rfl, rfl, by simp only [resize_length]; omega, by simpa using hlt, h.owning⟩
    · simp only [contents, h.memory_eq]
      exact resize_take (by omega) (by omega)
  · exact ⟨w, rfl, h, rfl, rfl, rfl, rfl⟩

/-- A defined store stays inside the vector. -/
theorem store (h : w.VectorBacked) (hstore : w.store bytes = some w') :
    w.cursor + bytes.length ≤ w.capacity ∧
      w' = { w with owningVector :=
        w.contents ++ bytes ++ w.owningVector.drop (w.cursor + bytes.length) } := by
  obtain ⟨hle, hcases⟩ := store_eq_some hstore
  rw [h.memory_eq, ← h.capacity] at hle
  refine ⟨hle, ?_⟩
  rcases hcases with ⟨hnull, -⟩ | ⟨-, rfl⟩ | ⟨memory, hspan, -⟩
  · cases h.buffer.symm.trans hnull
  · rw [h.contents_eq]
  · cases h.buffer.symm.trans hspan

/-- **A write appends.**  Whenever a `write` is defined it succeeds, and the contents are what they
were followed by the bytes written. -/
theorem writeBytes (h : w.VectorBacked) (hwrite : w.writeBytes bytes = some (result, w')) :
    result = .ok () ∧ w'.VectorBacked ∧ w'.contents = w.contents ++ bytes ∧
      w'.filePath = w.filePath ∧ w'.storageType = w.storageType := by
  obtain ⟨u, hreserve, hu, hcontents, hcursor, hpath, htype⟩ := h.reserve bytes.length
  obtain ⟨rfl, hstored⟩ : result = .ok () ∧ ∃ stored, u.store bytes = some stored ∧
      w' = { stored with cursor := usize (stored.cursor + bytes.length) } := by
    rcases writeBytes_eq_some hwrite with ⟨message, hrefused, -⟩ | ⟨room, stored, hroom, hrest⟩
    · cases hreserve.symm.trans hrefused
    · obtain rfl := Except.ok.inj (hreserve.symm.trans hroom)
      exact ⟨hrest.2.1, stored, hrest.1, hrest.2.2⟩
  obtain ⟨stored, hstore, rfl⟩ := hstored
  obtain ⟨hle, rfl⟩ := hu.store hstore
  have hlength : (u.contents ++ bytes).length = u.cursor + bytes.length := by
    rw [List.length_append, hu.contents_length]
  have hmod : usize (u.cursor + bytes.length) = u.cursor + bytes.length :=
    usize_of_lt (by have := hu.capacity_lt; omega)
  have hbacked : VectorBacked { u with
      owningVector := u.contents ++ bytes ++ u.owningVector.drop (u.cursor + bytes.length)
      cursor := usize (u.cursor + bytes.length) } := by
    refine ⟨hu.buffer, ?_, hmod.trans_le hle, hu.capacity_lt, hu.owning⟩
    have := hu.capacity
    simp only [List.length_append, List.length_drop, hu.contents_length]
    omega
  refine ⟨rfl, hbacked, ?_, hpath, htype⟩
  rw [hbacked.contents_eq]
  simp only [hmod]
  rw [← hlength, List.take_left, hcontents]

end VectorBacked

end StreamWriter

end IACore
