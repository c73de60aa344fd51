import IACore.StreamWriter.Equiv.InMemory

/-!
# A writer over a fixed buffer

As long as the buffer of the writer is the caller's span, the cursor is in it and its capacity is
the length of the span (`OverSpan.run`).  A `write` compares the *reduced* sum of the cursor and the
count with that, so a count that makes the sum wrap is stored over the end; and a writer that was
flushed leaves the span instead of refusing (`writeExact_iff`).
-/

namespace IACore

namespace StreamWriter

variable {w w' : StreamWriter} {memory bytes : List UInt8} {result : Except String Unit}

/-- Only a `write` that passes the check leaves the buffer a span, or one that is refused. -/
theorem writeBytes_to_span (hwrite : w.writeBytes bytes = some (result, w'))
    (hbuffer : w'.buffer = .span memory) :
    w' = w ∨ ∃ before, w.buffer = .span before ∧ usize (w.cursor + bytes.length) ≤ w.capacity ∧
      w.cursor + bytes.length ≤ before.length ∧
      w' = { w with
        buffer := .span
          (before.take w.cursor ++ bytes ++ before.drop (w.cursor + bytes.length))
        cursor := usize (w.cursor + bytes.length) } := by
  rcases writeBytes_eq_some hwrite with
    ⟨message, -, -, rfl⟩ | ⟨room, stored, hreserve, hstore, -, rfl⟩
  · exact .inl rfl
  · obtain ⟨hfits, hstored⟩ := store_eq_some hstore
    obtain ⟨before, hbefore, rfl⟩ : ∃ before, room.buffer = .span before ∧ stored = { room with
        buffer := .span (before.take room.cursor ++ bytes ++
          before.drop (room.cursor + bytes.length)) } := by
      rcases hstored with ⟨hnull, rfl⟩ | ⟨hvector, rfl⟩ | hspan
      · cases hnull.symm.trans hbuffer
      · cases hvector.symm.trans hbuffer
      · exact hspan
    rcases (reserve_eq_ok hreserve).2 with ⟨hroom, rfl⟩ | ⟨-, hvector⟩
    · rw [StreamWriter.memory, hbefore] at hfits
      exact .inr ⟨before, hbefore, hroom, hfits, rfl⟩
    · -- the writer went on in its own vector
      cases hvector.symm.trans hbefore

/-- A sum that wraps passes the check, and the store leaves the buffer. -/
theorem writeBytes_wrapped (hbuffer : w.buffer = .span memory)
    (hcapacity : w.capacity = memory.length) (hcursor : w.cursor ≤ w.capacity)
    (hlt : w.capacity < 18446744073709551616) (hcount : bytes.length < 18446744073709551616)
    (hwrap : 18446744073709551616 ≤ w.cursor + bytes.length) : w.writeBytes bytes = none := by
  have hlow : usize (w.cursor + bytes.length) ≤ w.capacity := by
    unfold usize
    omega
  have hmemory : w.memory = memory := by rw [StreamWriter.memory, hbuffer]
  rw [writeBytes, reserve, if_neg (by omega)]
  simp only [store, hmemory]
  rw [if_neg (by omega)]
  rfl

end StreamWriter

namespace InMemory

open EventRun State

variable {stdio : Stdio} {disk : Disk} {σ σ' : State} {data memory bytes : List UInt8}
  {event : Event} {events : List Event}

/-! ### Runs -/

/-- While the buffer is the span, the writer knows its length and is inside it. -/
structure OverSpan (data : List UInt8) (σ : State) : Prop where
  span : ∀ memory, σ.writer.buffer = .span memory → memory.length = data.length ∧
    σ.writer.capacity = data.length ∧ σ.writer.cursor ≤ data.length
  type : σ.writer.storageType ≠ .owningFile

theorem OverSpan.start (disk : Disk) (data : List UInt8) :
    OverSpan data (start disk (.span data)) where
  span := by
    rintro memory hbuffer
    obtain rfl := Buffer.span.inj hbuffer
    exact ⟨rfl, rfl, Nat.zero_le _⟩
  type := nofun

theorem OverSpan.step (h : OverSpan data σ) (hstep : State.step stdio σ event = some σ') :
    OverSpan data σ' := by
  rcases step_cases hstep with ⟨-, rfl⟩ | ⟨bytes, -, hlt, result, writer, hwrite, rfl⟩
  · rw [StreamWriter.flush_of_ne h.type]
    exact ⟨h.span, nofun⟩
  · refine ⟨?_, ?_⟩
    · intro memory hbuffer
      rcases StreamWriter.writeBytes_to_span hwrite hbuffer with
        rfl | ⟨before, hbefore, hcheck, hfits, rfl⟩
      · exact h.span memory hbuffer
      · obtain ⟨hlength, hcapacity, -⟩ := h.span before hbefore
        obtain rfl := Buffer.span.inj hbuffer
        rw [usize_of_lt hlt] at hcheck
        refine ⟨?_, hcapacity, ?_⟩
        · simp only [List.length_append, List.length_take, List.length_drop]
          omega
        · rw [usize_of_lt hlt]
          exact hcheck.trans_eq hcapacity
    · have htype := StreamWriter.writeBytes_storageType hwrite
      exact htype ▸ h.type

theorem OverSpan.run (hrun : run (State.step stdio) (InMemory.start disk (.span data)) events
    = some σ) : OverSpan data σ :=
  invariant (fun _ _ _ h hstep => h.step hstep) hrun (.start disk data)

/-- What a flush forgets. -/
theorem nonOwning_step (htype : σ.writer.storageType ≠ .owningFile)
    (hstep : State.step stdio σ event = some σ') :
    σ'.writer.storageType = .nonOwning ↔ event ≠ .flush ∧ σ.writer.storageType = .nonOwning := by
  rcases step_cases hstep with ⟨rfl, rfl⟩ | ⟨bytes, hbytes, -, result, writer, hwrite, rfl⟩
  · rw [StreamWriter.flush_of_ne htype]
    simp
  · have hne : event ≠ .flush := by
      rintro rfl
      cases hbytes
    rw [StreamWriter.writeBytes_storageType hwrite]
    exact (and_iff_right hne).symm

theorem nonOwning_run (h : OverSpan data σ) (hrun : run (State.step stdio) σ events = some σ') :
    σ'.writer.storageType = .nonOwning ↔
      .flush ∉ events ∧ σ.writer.storageType = .nonOwning := by
  induction events generalizing σ with
  | nil =>
    obtain rfl := Option.some.inj hrun
    simp
  | cons event events ih =>
    obtain ⟨σ₁, hstep, hrun⟩ := run_cons_eq_some.mp hrun
    have hne : event ≠ .flush ↔ ¬ .flush = event := ne_comm
    rw [ih (h.step hstep) hrun, nonOwning_step h.type hstep, List.mem_cons, not_or, hne]
    exact ⟨fun ⟨hevents, hevent, htype⟩ => ⟨⟨hevent, hevents⟩, htype⟩,
      fun ⟨⟨hevent, hevents⟩, htype⟩ => ⟨hevents, hevent, htype⟩⟩

/-! ### One call -/

theorem OverSpan.exact_iff (h : OverSpan data σ) (hdata : data.length < 18446744073709551616)
    (hbuffer : σ.writer.buffer = .span memory) (hcount : bytes.length < 18446744073709551616) :
    WriteExact memory σ.writer bytes (σ.writer.writeBytes bytes) ↔
      σ.writer.cursor + bytes.length < 18446744073709551616 ∧
        (σ.writer.storageType = .nonOwning ∨ bytes.length ≤ data.length - σ.writer.cursor) := by
  obtain ⟨hlength, hcapacity, hcursor⟩ := h.span memory hbuffer
  by_cases hwrap : σ.writer.cursor + bytes.length < 18446744073709551616
  · rw [and_iff_right hwrap, WriteExact, hlength]
    by_cases hroom : bytes.length ≤ data.length - σ.writer.cursor
    · rw [if_pos hroom]
      have hwrite := StreamWriter.writeBytes_span hbuffer (by omega) (by omega) hwrap
      exact iff_of_true hwrite (.inr hroom)
    · rw [if_neg hroom, or_iff_left hroom]
      constructor
      · rintro ⟨message, hmessage⟩
        by_contra htype
        have hvector := StreamWriter.writeBytes_grow htype (by omega) hwrap hmessage
        cases hvector.symm.trans hbuffer
      · intro htype
        exact ⟨_, StreamWriter.writeBytes_excess htype (by omega) hwrap⟩
  · have hundefined : σ.writer.writeBytes bytes = none :=
      StreamWriter.writeBytes_wrapped hbuffer (by omega) (by omega) (by omega) hcount (by omega)
    rw [hundefined, WriteExact, if_neg (by omega)]
    refine iff_of_false ?_ fun hcond => hwrap hcond.1
    rintro ⟨message, hmessage⟩
    cases hmessage

/-- **In every state reached by writes and flushes in which the buffer still is the span**, a
`write` is exact if and only if the cursor plus the count fits in a `usize` and, after a flush, the
count fits in the span. -/
theorem writeExact_iff (stdio : Stdio) (disk : Disk) {data memory : List UInt8}
    (hdata : data.length < 18446744073709551616) {events : List Event} {σ : State}
    (hrun : run (State.step stdio) (start disk (.span data)) events = some σ)
    (hbuffer : σ.writer.buffer = .span memory) :
    (∀ byte count, count < 18446744073709551616 →
      (WriteExact memory σ.writer (List.replicate count byte) (σ.writer.write byte count) ↔
        σ.writer.cursor + count < 18446744073709551616 ∧
          (.flush ∉ events ∨ count ≤ data.length - σ.writer.cursor))) ∧
    ∀ buffer : List UInt8, buffer.length < 18446744073709551616 →
      (WriteExact memory σ.writer buffer (σ.writer.writeBuffer buffer) ↔
        σ.writer.cursor + buffer.length < 18446744073709551616 ∧
          (.flush ∉ events ∨ buffer.length ≤ data.length - σ.writer.cursor)) := by
  have hspan : OverSpan data σ := .run hrun
  have htype : σ.writer.storageType = .nonOwning ↔ .flush ∉ events := by
    rw [nonOwning_run (.start disk data) hrun]
    exact and_iff_left rfl
  have hiff : ∀ bytes : List UInt8, bytes.length < 18446744073709551616 →
      (WriteExact memory σ.writer bytes (σ.writer.writeBytes bytes) ↔
        σ.writer.cursor + bytes.length < 18446744073709551616 ∧
          (.flush ∉ events ∨ bytes.length ≤ data.length - σ.writer.cursor)) := by
    intro bytes hcount
    rw [hspan.exact_iff hdata hbuffer hcount, htype]
  refine ⟨?_, hiff⟩
  intro byte count hcount
  have hfill := hiff (List.replicate count byte) (by rwa [List.length_replicate])
  rw [List.length_replicate] at hfill
  exact hfill

/-- A byte is written to a span of two, then two more that do not fit. -/
theorem writeExact_two :
    let w : StreamWriter := { StreamWriter.ofSpan [7, 0] with cursor := 1 }
    WriteExact [7, 0] w [8, 9] (w.writeBuffer [8, 9]) := by
  intro w
  have hrun : (run (State.step .reliable) (start (fun _ => none) (.span [0, 0]))
      [.write 7 1]).map State.writer = some w := by rfl
  obtain ⟨σ, hrun, hw⟩ := Option.map_eq_some_iff.mp hrun
  have hbuffer : σ.writer.buffer = .span [7, 0] := by rw [hw]; rfl
  have hdata : ([0, 0] : List UInt8).length < 18446744073709551616 := by decide
  rw [← hw]
  apply ((writeExact_iff .reliable (fun _ => none) hdata hrun hbuffer).2 [8, 9] (by decide)).mpr
  rw [hw]
  exact ⟨by decide, .inl (by decide)⟩

/-- One byte is written to a span of two, then `2 ^ 64 - 1` more: nothing refuses them. -/
theorem write_over_the_end :
    let w : StreamWriter := { StreamWriter.ofSpan [7, 0] with cursor := 1 }
    (run (State.step .reliable) (start (fun _ => none) (.span [0, 0])) [.write 7 1]).map
        State.writer = some w ∧
      w.write 8 18446744073709551615 = none ∧
      ¬ WriteExact [7, 0] w (List.replicate 18446744073709551615 8)
        (w.write 8 18446744073709551615) := by
  intro w
  have hlength : (List.replicate 18446744073709551615 (8 : UInt8)).length
      = 18446744073709551615 := List.length_replicate
  have hbuffer : w.buffer = .span [7, 0] := rfl
  have hcursor : w.cursor = 1 := rfl
  have hcapacity : w.capacity = 2 := rfl
  have hundefined : w.write 8 18446744073709551615 = none :=
    StreamWriter.writeBytes_wrapped hbuffer rfl (by omega) (by omega) (by omega) (by omega)
  refine ⟨by rfl, hundefined, ?_⟩
  rw [WriteExact, hundefined, hlength, if_neg (by decide)]
  rintro ⟨message, hmessage⟩
  cases hmessage

end InMemory

end IACore
