import IACore.Library.EventRun
import IACore.StreamWriter.InMemory
import IACore.StreamWriter.Equiv.Contents

/-!
# What a writer in memory shows

A default-constructed writer always shows what was written.  A writer over a caller's span does as
long as no write exceeds the span after a flush: `flush` calls the span the writer's own, and the
next write that does not fit goes on in a vector that does not hold what was written before
(`flushed_span_forgets`).  Otherwise the span holds everything, and a write that does not fit fails
(`visible_throughout_iff`).
-/

namespace IACore

namespace StreamWriter

variable {w w' : StreamWriter} {memory bytes : List UInt8}

/-- Without a file, a flush only changes the storage type. -/
theorem flush_of_ne {stdio : Stdio} (htype : w.storageType ≠ .owningFile) (disk : Disk) :
    w.flush stdio disk = (.ok (), { w with storageType := .owningVector }, disk) := by
  simp [flush, flushToDisk, htype]

/-- What fits is copied into the span behind the cursor. -/
theorem writeBytes_span (hbuffer : w.buffer = .span memory)
    (hfits : w.cursor + bytes.length ≤ w.capacity) (hcapacity : w.capacity = memory.length)
    (hlt : w.cursor + bytes.length < 18446744073709551616) :
    w.writeBytes bytes = some (.ok (), { w with
      buffer := .span (memory.take w.cursor ++ bytes ++ memory.drop (w.cursor + bytes.length))
      cursor := w.cursor + bytes.length }) := by
  have hmod : usize (w.cursor + bytes.length) = w.cursor + bytes.length := usize_of_lt hlt
  have hroom : w.reserve bytes.length = .ok w := by
    rw [reserve, if_neg (by omega)]
  have hmemory : w.memory = memory := by rw [StreamWriter.memory, hbuffer]
  rw [writeBytes, hroom]
  simp only [store, hmemory, hbuffer]
  rw [if_pos (by omega), Option.map_some, hmod]

/-- What does not fit is refused while the memory is known to be the caller's. -/
theorem writeBytes_excess (htype : w.storageType = .nonOwning)
    (hexcess : w.capacity < w.cursor + bytes.length)
    (hlt : w.cursor + bytes.length < 18446744073709551616) :
    w.writeBytes bytes = some (.error "StreamWriter buffer overflow (NonOwning)", w) := by
  rw [writeBytes, reserve, usize_of_lt hlt, if_pos hexcess, if_pos htype]

/-- Otherwise the writer goes on in its own vector. -/
theorem writeBytes_grow (htype : w.storageType ≠ .nonOwning)
    (hexcess : w.capacity < w.cursor + bytes.length)
    (hlt : w.cursor + bytes.length < 18446744073709551616) {result : Except String Unit}
    (hwrite : w.writeBytes bytes = some (result, w')) : w'.buffer = .vector := by
  rw [← usize_of_lt hlt] at hexcess
  rcases writeBytes_eq_some hwrite with
    ⟨message, hrefused, -⟩ | ⟨room, stored, hreserve, hstore, -, rfl⟩
  · rw [reserve, if_pos hexcess, if_neg htype] at hrefused
    cases hrefused
  · have hvector : room.buffer = .vector := by
      rcases (reserve_eq_ok hreserve).2 with ⟨hroom, -⟩ | ⟨-, hvector⟩
      · omega
      · exact hvector
    rcases (store_eq_some hstore).2 with ⟨-, rfl⟩ | ⟨-, rfl⟩ | ⟨memory, hspan, -⟩
    · exact hvector
    · exact hvector
    · cases hvector.symm.trans hspan

end StreamWriter

namespace InMemory

open EventRun State

variable {stdio : Stdio} {σ σ' : State} {source : Source} {data bytes : List UInt8} {event : Event}

/-- What holds of the writer besides. -/
def Sound (σ : State) : Source → Prop
  | .default => σ.writer.VectorBacked ∧ σ.writer.storageType = .owningVector
  | .span data => σ.writer.cursor = σ.written.length ∧ σ.writer.capacity = data.length ∧
      σ.writer.storageType ≠ .owningFile

theorem Sound.start (disk : Disk) (source : Source) : Sound (start disk source) source := by
  cases source with
  | default => exact ⟨StreamWriter.construct_vectorBacked, rfl⟩
  | span data => exact ⟨rfl, rfl, by simp [InMemory.start, StreamWriter.ofSpan]⟩

theorem Visible.start (disk : Disk) (source : Source) : Visible (start disk source) source := by
  cases source with
  | default => rfl
  | span data => exact ⟨rfl, Nat.zero_le _, rfl⟩

/-! ### One call -/

theorem writeWith_eq_some
    (h : σ.writeWith bytes (fun writer => writer.writeBytes bytes) = some σ') :
    σ.writer.cursor + bytes.length < 18446744073709551616 ∧ ∃ result writer,
      σ.writer.writeBytes bytes = some (result, writer) ∧ σ' = { σ with
        writer := writer
        written := match result with
          | .ok () => σ.written ++ bytes
          | .error _ => σ.written } := by
  obtain ⟨hlt, h⟩ := Option.ite_none_right_eq_some.mp h
  obtain ⟨⟨result, writer⟩, hwrite, h⟩ := Option.bind_eq_some_iff.mp h
  refine ⟨hlt, result, writer, hwrite, ?_⟩
  cases result with
  | ok => exact (Option.some.inj h).symm
  | error message => exact (Option.some.inj h).symm

/-- A flush, or a write of `bytes`: what it does to the state. -/
theorem step_cases (hstep : State.step stdio σ event = some σ') :
    (event = .flush ∧ σ' = { σ with
      writer := (σ.writer.flush stdio σ.disk).2.1, disk := (σ.writer.flush stdio σ.disk).2.2 }) ∨
    ∃ bytes, event.bytes = some bytes ∧
      σ.writer.cursor + bytes.length < 18446744073709551616 ∧ ∃ result writer,
        σ.writer.writeBytes bytes = some (result, writer) ∧ σ' = { σ with
          writer := writer
          written := match result with
            | .ok () => σ.written ++ bytes
            | .error _ => σ.written } := by
  cases event with
  | write byte count => exact .inr ⟨_, rfl, writeWith_eq_some hstep⟩
  | writeBuffer buffer => exact .inr ⟨_, rfl, writeWith_eq_some hstep⟩
  | writeValue object => exact .inr ⟨_, rfl, writeWith_eq_some hstep⟩
  | flush => exact .inl ⟨rfl, (Option.some.inj hstep).symm⟩

/-- A default-constructed writer. -/
theorem step_default (h : Sound σ .default) (hvisible : Visible σ .default)
    (hstep : State.step stdio σ event = some σ') : Sound σ' .default ∧ Visible σ' .default := by
  obtain ⟨hbacked, htype⟩ := h
  rcases step_cases hstep with ⟨-, rfl⟩ | ⟨bytes, -, -, result, writer, hwrite, rfl⟩
  · rw [StreamWriter.flush_of_ne (by simp [htype])]
    exact ⟨⟨hbacked.retype _ (by simp), rfl⟩, hvisible⟩
  · obtain ⟨rfl, hbacked', hcontents, -, htype'⟩ := hbacked.writeBytes hwrite
    refine ⟨⟨hbacked', htype'.trans htype⟩, ?_⟩
    rw [Visible] at hvisible ⊢
    rw [hcontents, hvisible]

/-- A write of what fits into the rest of the span. -/
theorem write_fits (h : Sound σ (.span data)) (hvisible : Visible σ (.span data))
    (hfits : σ.written.length + bytes.length ≤ data.length)
    (hlt : σ.writer.cursor + bytes.length < 18446744073709551616)
    {result : Except String Unit} {writer : StreamWriter}
    (hwrite : σ.writer.writeBytes bytes = some (result, writer)) :
    result = .ok () ∧
      Sound { σ with writer := writer, written := σ.written ++ bytes } (.span data) ∧
      Visible { σ with writer := writer, written := σ.written ++ bytes } (.span data) := by
  obtain ⟨hcursor, hcapacity, htype⟩ := h
  obtain ⟨-, hle, hbuffer⟩ := hvisible
  have hlength : (σ.written ++ data.drop σ.written.length).length = data.length := by
    rw [List.length_append, List.length_drop]
    omega
  rw [StreamWriter.writeBytes_span hbuffer (by omega) (by omega) hlt] at hwrite
  obtain ⟨rfl, rfl⟩ := Prod.mk.inj (Option.some.inj hwrite)
  -- Before the cursor lies what was written, behind it what the span held at first.
  have hspan : (σ.written ++ data.drop σ.written.length).take σ.writer.cursor ++ bytes ++
      (σ.written ++ data.drop σ.written.length).drop (σ.writer.cursor + bytes.length) =
      (σ.written ++ bytes) ++ data.drop (σ.written ++ bytes).length := by
    rw [hcursor, List.take_left, List.drop_append, List.drop_eq_nil_of_le (by omega),
      List.nil_append, List.drop_drop, List.length_append]
    congr 2
    omega
  refine ⟨rfl, ⟨?_, hcapacity, htype⟩, ?_, ?_, ?_⟩
  · simp only [List.length_append]
    omega
  · simp only [StreamWriter.contents, StreamWriter.memory, hspan]
    rw [hcursor, ← List.length_append, List.take_left]
  · rw [List.length_append]
    exact hfits
  · rw [hspan]

/-- **Exactly when a call keeps what was written visible.** -/
theorem Visible.step_iff (h : Sound σ source) (hvisible : Visible σ source)
    (hstep : State.step stdio σ event = some σ') :
    (Visible σ' source ↔ ExcessKnown source σ event) ∧ (Visible σ' source → Sound σ' source) := by
  cases source with
  | default =>
    obtain ⟨hsound, hshown⟩ := step_default h hvisible hstep
    exact ⟨iff_of_true hshown False.elim, fun _ => hsound⟩
  | span data =>
    rcases step_cases hstep with ⟨rfl, rfl⟩ | ⟨bytes, hbytes, hlt, result, writer, hwrite, rfl⟩
    · rw [StreamWriter.flush_of_ne h.2.2]
      refine ⟨iff_of_true hvisible ?_, fun _ => ⟨h.1, h.2.1, by simp⟩⟩
      rintro ⟨bytes, hbytes, -⟩
      cases hbytes
    · have hexceeds : Exceeds σ event (.span data) ↔
          data.length < σ.written.length + bytes.length := by
        simp [Exceeds, hbytes]
      by_cases hfits : σ.written.length + bytes.length ≤ data.length
      · obtain ⟨rfl, hsound, hshown⟩ := write_fits h hvisible hfits hlt hwrite
        exact ⟨iff_of_true hshown fun hexcess => by rw [hexceeds] at hexcess; omega,
          fun _ => hsound⟩
      · obtain ⟨hcursor, hcapacity, htype⟩ := h
        rw [ExcessKnown, hexceeds]
        by_cases hknown : σ.writer.storageType = .nonOwning
        · rw [StreamWriter.writeBytes_excess hknown (by omega) hlt] at hwrite
          obtain ⟨rfl, rfl⟩ := Prod.mk.inj (Option.some.inj hwrite)
          exact ⟨iff_of_true hvisible fun _ => hknown, fun _ => ⟨hcursor, hcapacity, htype⟩⟩
        · -- The writer has left the span.
          have hvector := StreamWriter.writeBytes_grow hknown (by omega) hlt hwrite
          have hgone : ∀ written, ¬ Visible ⟨writer, σ.disk, written⟩ (.span data) := by
            rintro written ⟨-, -, hspan⟩
            simp only [hvector] at hspan
            cases hspan
          exact ⟨iff_of_false (hgone _) fun himp => hknown (himp (by omega)),
            fun hshown => (hgone _ hshown).elim⟩

/-- Where the excess is known it is refused. -/
theorem ExcessKnown.fails (h : Sound σ source) (hstep : State.step stdio σ event = some σ')
    (hknown : ExcessKnown source σ event) : ExcessFails source σ event := by
  intro hexceeds bytes hbytes
  have htype := hknown hexceeds
  cases source with
  | default => exact hexceeds.elim
  | span data =>
    obtain ⟨bytes', hbytes', hexcess⟩ := hexceeds
    obtain rfl := Option.some.inj (hbytes.symm.trans hbytes')
    obtain ⟨hcursor, hcapacity, -⟩ := h
    rcases step_cases hstep with ⟨rfl, -⟩ | ⟨bytes'', hbytes'', hlt, -⟩
    · cases hbytes
    · obtain rfl := Option.some.inj (hbytes.symm.trans hbytes'')
      exact ⟨_, StreamWriter.writeBytes_excess htype (by omega) hlt⟩

/-! ### Runs -/

/-- **What a writer in memory shows.**  In every state of a run what was written is visible, and
every write that would exceed the span fails, if and only if no write that would exceed it comes
after a flush. -/
theorem visible_throughout_iff (stdio : Stdio) (disk : Disk) (source : Source)
    {events : List Event} {σ : State}
    (hrun : run (State.step stdio) (start disk source) events = some σ) :
    Throughout (State.step stdio) (Visible · source) (start disk source) events ∧
        Along (State.step stdio) (ExcessFails source) (start disk source) events ↔
      Along (State.step stdio) (ExcessKnown source) (start disk source) events := by
  apply throughout_and_along_iff (J := fun σ => Visible σ source → Sound σ source) _ _ _ hrun
    (fun _ => Sound.start disk source) (Visible.start disk source)
  · intro σ event σ' h hvisible hstep
    exact (Visible.step_iff (h hvisible) hvisible hstep).2
  · intro σ event σ' h hvisible hstep
    exact (Visible.step_iff (h hvisible) hvisible hstep).1
  · intro σ event σ' h hvisible hstep hknown
    exact hknown.fails (h hvisible) hstep

/-- A span of four bytes is filled, with a flush in between, and refuses a fifth byte before it. -/
theorem visible_throughout_iff_filled :
    let events := [.write 7 2, .writeBuffer [1, 2, 3], .flush, .writeValue [8, 9]]
    Throughout (State.step .reliable) (Visible · (.span [0, 0, 0, 0]))
          (start (fun _ => none) (.span [0, 0, 0, 0])) events ∧
        Along (State.step .reliable) (ExcessFails (.span [0, 0, 0, 0]))
          (start (fun _ => none) (.span [0, 0, 0, 0])) events ↔
      Along (State.step .reliable) (ExcessKnown (.span [0, 0, 0, 0]))
        (start (fun _ => none) (.span [0, 0, 0, 0])) events := by
  intro events
  have hrun : (run (State.step .reliable) (start (fun _ => none) (.span [0, 0, 0, 0]))
      events).isSome = true := by
    rfl
  obtain ⟨σ, hrun⟩ := Option.isSome_iff_exists.mp hrun
  exact visible_throughout_iff .reliable (fun _ => none) (.span [0, 0, 0, 0]) hrun

/-- A span of two bytes: one is written, the writer flushed, and three more are written. -/
theorem flushed_span_forgets : ∃ data events σ,
    run (State.step .reliable) (start (fun _ => none) (.span data)) events = some σ ∧
      σ.written = [1, 2, 3, 4] ∧ σ.writer.contents = [0, 2, 3, 4] ∧
      σ.writer.buffer = .vector ∧ data.length < σ.written.length := by
  have hrun : (run (State.step .reliable) (start (fun _ => none) (.span [0, 0]))
      [.writeBuffer [1], .flush, .writeBuffer [2, 3, 4]]).map
        (fun σ => (σ.written, σ.writer.contents, σ.writer.buffer)) =
      some ([1, 2, 3, 4], [0, 2, 3, 4], .vector) := by
    rfl
  simp only [Option.map_eq_some_iff, Prod.mk.injEq] at hrun
  obtain ⟨σ, hrun, hwritten, hcontents, hbuffer⟩ := hrun
  exact ⟨_, _, σ, hrun, hwritten, hcontents, hbuffer, by simp [hwritten]⟩

end InMemory

end IACore
