import IACore.Library.EventRun
import IACore.StreamWriter.FileBacked
import IACore.StreamWriter.Equiv.Contents

/-!
# What file-backed writers leave in their files

The vector behind a file-backed writer always holds everything that was written to its stream
(`Backed.written`): neither a flush nor a move drops or repeats a byte there.  The file falls behind
it only because the first flush takes the writer out of file mode, after which no operation writes
the file again (`Backed.file`).

So a file that is due is what was written exactly when nothing was written late
(`file_eq_written_iff`).
-/

namespace IACore

namespace StreamWriter

/-- A flush writes what the destructor would and leaves file mode. -/
theorem flush_reliable {w : StreamWriter} (hpath : w.filePath ≠ "") (disk : Disk) :
    w.flush .reliable disk =
      (.ok (), { w with storageType := .owningVector }, w.destruct .reliable disk) := by
  by_cases htype : w.storageType = .owningFile
  · simp [flush, destruct, flushToDisk, htype, hpath, Stdio.reliable]
  · simp [flush, destruct, flushToDisk, htype]

/-- In file mode the destructor writes the contents to the file. -/
theorem destruct_owningFile {w : StreamWriter} (hpath : w.filePath ≠ "")
    (htype : w.storageType = .owningFile) (disk : Disk) :
    w.destruct .reliable disk = Function.update disk w.filePath (some w.contents) := by
  simp [destruct, flushToDisk, htype, hpath, Stdio.reliable, contents, List.take_take]

theorem destruct_of_ne {w : StreamWriter} (htype : w.storageType ≠ .owningFile) (disk : Disk) :
    w.destruct .reliable disk = disk := by
  simp [destruct, htype]

end StreamWriter

namespace FileBacked

open EventRun World

variable {σ σ' : World} {late late' : String → Prop} {slot : Slot} {w v : ℕ} {stream : String}

/-- A writer and its file: everything written is in the vector; in file mode nothing was written
late, and otherwise the file holds a beginning, short of the end exactly if something was. -/
structure Backed (disk : Disk) (written : String → Option (List UInt8)) (late : Prop)
    (slot : Slot) : Prop where
  vector : slot.writer.VectorBacked
  path : slot.writer.filePath = slot.stream
  path_ne : slot.stream ≠ ""
  written : written slot.stream = some slot.writer.contents
  file : slot.writer.storageType = .owningFile ∧ ¬ late ∨
    slot.writer.storageType = .owningVector ∧ ∃ flushed rest, disk slot.stream = some flushed ∧
      slot.writer.contents = flushed ++ rest ∧ (late ↔ rest ≠ [])

namespace Backed

variable {disk disk' : Disk} {written written' : String → Option (List UInt8)} {p p' : Prop}

theorem congr (h : Backed disk written p slot) (hdisk : disk' slot.stream = disk slot.stream)
    (hwritten : written' slot.stream = written slot.stream) (hp : p' ↔ p) :
    Backed disk' written' p' slot where
  vector := h.vector
  path := h.path
  path_ne := h.path_ne
  written := hwritten.trans h.written
  file := by
    rw [hdisk, hp]
    exact h.file

theorem filePath_ne (h : Backed disk written p slot) : slot.writer.filePath ≠ "" := by
  rw [h.path]
  exact h.path_ne

/-- The destructor touches no file but the stream's. -/
theorem destruct_of_ne (h : Backed disk written p slot) (hne : stream ≠ slot.stream) :
    slot.writer.destruct .reliable disk stream = disk stream := by
  by_cases htype : slot.writer.storageType = .owningFile
  · rw [StreamWriter.destruct_owningFile h.filePath_ne htype, h.path, Function.update_of_ne hne]
  · rw [StreamWriter.destruct_of_ne htype]

/-- After a destruction the file holds a beginning of the contents, short of the end exactly if
something was written late. -/
theorem destruct (h : Backed disk written p slot) :
    ∃ flushed rest, slot.writer.destruct .reliable disk slot.stream = some flushed ∧
      slot.writer.contents = flushed ++ rest ∧ (p ↔ rest ≠ []) := by
  rcases h.file with ⟨htype, hp⟩ | ⟨htype, flushed, rest, hflushed, hcontents, hp⟩
  · refine ⟨slot.writer.contents, [], ?_, (List.append_nil _).symm, by simp [hp]⟩
    rw [StreamWriter.destruct_owningFile h.filePath_ne htype, h.path, Function.update_self]
  · exact ⟨flushed, rest, by rw [StreamWriter.destruct_of_ne (by simp [htype]), hflushed],
      hcontents, hp⟩

theorem destruct_iff (h : Backed disk written p slot) :
    slot.writer.destruct .reliable disk slot.stream = written slot.stream ↔ ¬ p := by
  obtain ⟨flushed, rest, hflushed, hcontents, hp⟩ := h.destruct
  rw [hflushed, h.written, hcontents, hp]
  simp

/-- A flush leaves file mode. -/
theorem flush (h : Backed disk written p slot) :
    Backed (slot.writer.destruct .reliable disk) written p
      ⟨slot.stream, { slot.writer with storageType := .owningVector }, false⟩ where
  vector := h.vector.retype _ (by simp)
  path := h.path
  path_ne := h.path_ne
  written := h.written
  file := .inr ⟨rfl, h.destruct⟩

/-- A write appends to the vector and to the record. -/
theorem write (h : Backed disk written p slot) {bytes : List UInt8} {result : Except String Unit}
    {writer : StreamWriter} (hwrite : slot.writer.writeBytes bytes = some (result, writer))
    (hwritten : written' slot.stream = (written slot.stream).map (· ++ bytes))
    (hp : p' ↔ p ∨ 0 < bytes.length ∧ slot.writer.storageType ≠ .owningFile) :
    Backed disk written' p' ⟨slot.stream, writer, false⟩ := by
  obtain ⟨-, hvector, hcontents, hpath, htype⟩ := h.vector.writeBytes hwrite
  refine ⟨hvector, hpath.trans h.path, h.path_ne, ?_, ?_⟩
  · rw [hwritten, h.written, hcontents]
    rfl
  · simp only [htype, hcontents]
    rcases h.file with ⟨hfile, hnot⟩ | ⟨hfile, flushed, rest, hflushed, hrest, hlate⟩
    · exact .inl ⟨hfile, by simp [hp, hnot, hfile]⟩
    -- Out of file mode the file stays behind by what it lacked and by what comes now.
    · refine .inr ⟨hfile, flushed, rest ++ bytes, hflushed, by rw [hrest, List.append_assoc], ?_⟩
      rw [hp, hlate, hfile, List.length_pos_iff]
      simp only [ne_eq, reduceCtorEq, not_false_eq_true, and_true, List.append_eq_nil_iff]
      tauto

end Backed

/-- `late` is where something has been written late; distinct writers have distinct streams. -/
structure Invariant (late : String → Prop) (σ : World) : Prop where
  backed : ∀ w slot, σ.live w = some slot → Backed σ.disk σ.written (late slot.stream) slot
  unique : ∀ w v slot slot', σ.live w = some slot → σ.live v = some slot' →
    slot.stream = slot'.stream → w = v
  idle : ∀ w slot, σ.writers w = some slot → slot.movedFrom = true →
    slot.writer.storageType = .nonOwning
  fresh : ∀ stream, σ.written stream = none → ¬ late stream

theorem Invariant.start (disk : Disk) : Invariant (fun _ => False) (start disk) :=
  ⟨by simp [live, FileBacked.start], by simp [live, FileBacked.start],
    by simp [FileBacked.start], by simp⟩

/-! ### What the writers are after a change -/

theorem live_eq_some : σ.live w = some slot ↔ σ.writers w = some slot ∧ slot.movedFrom = false := by
  simp [live, Option.filter_eq_some_iff]

theorem live_of_update_self {s : Option Slot} (h : σ'.writers = Function.update σ.writers w s) :
    σ'.live w = s.filter fun slot => !slot.movedFrom := by
  rw [live, h, Function.update_self]

theorem live_of_update_of_ne {s : Option Slot} (h : σ'.writers = Function.update σ.writers w s)
    (hne : v ≠ w) : σ'.live v = σ.live v := by
  rw [live, live, h, Function.update_of_ne hne]

namespace Invariant

/-- A change that concerns one stream. -/
theorem change (h : Invariant late σ) (stream : String)
    (hdisk : ∀ p, p ≠ stream → σ'.disk p = σ.disk p)
    (hwritten : ∀ p, p ≠ stream → σ'.written p = σ.written p)
    (hlate : ∀ p, p ≠ stream → (late' p ↔ late p))
    (hother : ∀ w slot, σ'.live w = some slot → slot.stream ≠ stream → σ.live w = some slot)
    (hthis : ∀ w slot, σ'.live w = some slot → slot.stream = stream →
      Backed σ'.disk σ'.written (late' stream) slot)
    (hunique : ∀ w v slot slot', σ'.live w = some slot → σ'.live v = some slot' →
      slot.stream = stream → slot'.stream = stream → w = v)
    (hidle : ∀ w slot, σ'.writers w = some slot → slot.movedFrom = true →
      slot.writer.storageType = .nonOwning)
    (hfresh : σ'.written stream = none → ¬ late' stream) : Invariant late' σ' where
  backed w slot hw := by
    by_cases hstream : slot.stream = stream
    · rw [hstream]
      exact hthis w slot hw hstream
    · exact (h.backed w slot (hother w slot hw hstream)).congr (hdisk _ hstream)
        (hwritten _ hstream) (hlate _ hstream)
  unique w v slot slot' hw hv heq := by
    by_cases hstream : slot.stream = stream
    · exact hunique w v slot slot' hw hv hstream (heq.symm.trans hstream)
    · exact h.unique w v slot slot' (hother w slot hw hstream)
        (hother v slot' hv fun h' => hstream (heq.trans h')) heq
  idle := hidle
  fresh p hp := by
    by_cases hstream : p = stream
    · subst hstream
      exact hfresh hp
    · rw [hlate p hstream]
      exact h.fresh p (by rwa [hwritten p hstream] at hp)

/-- A writer comes to a place that alone may have had its stream before. -/
theorem put (h : Invariant late σ) {writer : StreamWriter}
    (honly : ∀ v slot, σ.live v = some slot → slot.stream = stream → v = w)
    (hwriters : σ'.writers = Function.update σ.writers w (some ⟨stream, writer, false⟩))
    (hdisk : ∀ p, p ≠ stream → σ'.disk p = σ.disk p)
    (hwritten : ∀ p, p ≠ stream → σ'.written p = σ.written p)
    (hlate : ∀ p, p ≠ stream → (late' p ↔ late p))
    (hbacked : Backed σ'.disk σ'.written (late' stream) ⟨stream, writer, false⟩) :
    Invariant late' σ' := by
  have hself : σ'.live w = some ⟨stream, writer, false⟩ := by
    rw [live_of_update_self hwriters]
    rfl
  have honly' : ∀ v slot, σ'.live v = some slot → slot.stream = stream → v = w := by
    intro v slot hv hstream
    by_contra hne
    rw [live_of_update_of_ne hwriters hne] at hv
    exact hne (honly v slot hv hstream)
  refine h.change stream hdisk hwritten hlate (fun v slot hv hstream => ?_)
    (fun v slot hv hstream => ?_)
    (fun v u _ _ hv hu hsv hsu => (honly' v _ hv hsv).trans (honly' u _ hu hsu).symm)
    (fun v slot hv hmoved => ?_) (fun hnone => ?_)
  · have hne : v ≠ w := by
      rintro rfl
      obtain rfl := Option.some.inj (hself.symm.trans hv)
      exact hstream rfl
    rwa [live_of_update_of_ne hwriters hne] at hv
  · obtain rfl := honly' v slot hv hstream
    obtain rfl := Option.some.inj (hself.symm.trans hv)
    exact hbacked
  · by_cases hne : v = w
    · subst hne
      rw [hwriters, Function.update_self] at hv
      obtain rfl := Option.some.inj hv
      simp at hmoved
    · rw [hwriters, Function.update_of_ne hne] at hv
      exact h.idle v slot hv hmoved
  · rw [hbacked.written] at hnone
    simp at hnone

theorem only (h : Invariant late σ) (hw : σ.live w = some slot) (v : ℕ) (slot' : Slot)
    (hv : σ.live v = some slot') (hstream : slot'.stream = slot.stream) : v = w :=
  h.unique v w slot' slot hv hw hstream

/-- A writer goes away; its file is written if it is in file mode. -/
theorem destroy (h : Invariant late σ) (hw : σ.writers w = some slot) :
    Invariant late { σ with
      writers := Function.update σ.writers w none
      disk := slot.writer.destruct .reliable σ.disk } := by
  have hlive : ∀ v slot', live { σ with
      writers := Function.update σ.writers w none
      disk := slot.writer.destruct .reliable σ.disk } v = some slot' →
      v ≠ w ∧ σ.live v = some slot' := by
    intro v slot' hv
    by_cases hne : v = w
    · subst hne
      rw [live_of_update_self rfl] at hv
      simp at hv
    · exact ⟨hne, by rwa [live_of_update_of_ne rfl hne] at hv⟩
  -- A file is written by one writer only, and not at all by one that was moved from.
  have hdisk : ∀ v slot', v ≠ w → σ.live v = some slot' →
      slot.writer.destruct .reliable σ.disk slot'.stream = σ.disk slot'.stream := by
    intro v slot' hne hv
    cases hmoved : slot.movedFrom with
    | false =>
      have hwlive : σ.live w = some slot := live_eq_some.mpr ⟨hw, hmoved⟩
      exact (h.backed w slot hwlive).destruct_of_ne
        fun heq => hne (h.unique v w slot' slot hv hwlive heq)
    | true => rw [StreamWriter.destruct_of_ne (by simp [h.idle w slot hw hmoved])]
  refine ⟨fun v slot' hv => ?_, fun v u _ _ hv hu => ?_, fun v slot' hv => ?_, h.fresh⟩
  · obtain ⟨hne, hv⟩ := hlive v slot' hv
    exact (h.backed v slot' hv).congr (hdisk v slot' hne hv) rfl Iff.rfl
  · exact h.unique v u _ _ (hlive v _ hv).2 (hlive u _ hu).2
  · by_cases hne : v = w
    · subst hne
      simp at hv
    · exact h.idle v slot' (by simpa only [Function.update_of_ne hne] using hv)

/-- A writer moves to a free place. -/
theorem transfer (h : Invariant late σ) (hv : σ.live v = some slot) (hw : σ.writers w = none)
    (rest : StreamWriter) (hrest : rest.storageType = .nonOwning) :
    Invariant late ((σ.leave v slot.stream rest).put w slot.stream slot.writer) := by
  have hvw : v ≠ w := by
    rintro rfl
    simp [live, hw] at hv
  have hslot : slot = ⟨slot.stream, slot.writer, false⟩ := by
    rw [← (live_eq_some.mp hv).2]
  -- Only the place of the stream's writer has changed.
  have hlive : ∀ u slot', ((σ.leave v slot.stream rest).put w slot.stream slot.writer).live u =
      some slot' → u = w ∧ slot' = slot ∨ u ≠ v ∧ σ.live u = some slot' := by
    intro u slot' hu
    by_cases huw : u = w
    · subst huw
      rw [live_of_update_self rfl] at hu
      exact .inl ⟨rfl, by rw [hslot, ← Option.some.inj hu]⟩
    · rw [live_of_update_of_ne rfl huw] at hu
      refine .inr ?_
      by_cases huv : u = v
      · subst huv
        rw [live_of_update_self rfl] at hu
        cases hu
      · exact ⟨huv, by rwa [live_of_update_of_ne rfl huv] at hu⟩
  refine ⟨fun u slot' hu => ?_, fun u u' slot₁ slot₂ hu hu' heq => ?_, fun u slot' hu hmoved => ?_,
    h.fresh⟩
  · rcases hlive u slot' hu with ⟨-, rfl⟩ | ⟨-, hu⟩
    · exact h.backed v slot' hv
    · exact h.backed u slot' hu
  · rcases hlive u slot₁ hu with ⟨rfl, hslot₁⟩ | ⟨hne, hold⟩ <;>
      rcases hlive u' slot₂ hu' with ⟨rfl, hslot₂⟩ | ⟨hne', hold'⟩
    · rfl
    -- Another writer of the moved stream would have shared it before.
    · exact (hne' (h.unique u' v _ _ hold' hv (by rw [← heq, hslot₁]))).elim
    · exact (hne (h.unique u v _ _ hold hv (by rw [heq, hslot₂]))).elim
    · exact h.unique u u' _ _ hold hold' heq
  · by_cases huw : u = w
    · subst huw
      simp only [World.put, Function.update_self, Option.some.injEq] at hu
      subst hu
      simp at hmoved
    · simp only [World.put, Function.update_of_ne huw] at hu
      by_cases huv : u = v
      · subst huv
        simp only [leave, Function.update_self, Option.some.injEq] at hu
        subst hu
        exact hrest
      · simp only [leave, Function.update_of_ne huv] at hu
        exact h.idle u slot' hu hmoved

/-! ### One call -/

theorem create (h : Invariant late σ) {path : String} (hstep : σ.create w path = some σ') :
    Invariant late σ' := by
  unfold World.create at hstep
  split_ifs at hstep with hfree
  obtain ⟨hw, hpath⟩ := hfree
  have hother : ∀ v slot, σ.live v = some slot → slot.stream ≠ path := by
    rintro v slot hv rfl
    rw [(h.backed v slot hv).written] at hpath
    simp at hpath
  unfold StreamWriter.createFromFile Stdio.reliable at hstep
  split_ifs at hstep with hopen
  · obtain rfl := Option.some.inj hstep
    have hvector : StreamWriter.VectorBacked
        { StreamWriter.construct with filePath := path, storageType := .owningFile } :=
      StreamWriter.construct_vectorBacked.retype path (by simp)
    rw [hvector.moveConstruct_fst]
    refine h.put (fun v slot hv (hs : slot.stream = path) => (hother v slot hv hs).elim) rfl
      (fun p hp => Function.update_of_ne hp _ _) (fun p hp => Function.update_of_ne hp _ _)
      (fun _ _ => Iff.rfl) ⟨hvector, rfl, by simpa using hopen, ?_, .inl ⟨rfl, h.fresh path hpath⟩⟩
    exact Function.update_self _ _ _
  · obtain rfl := Option.some.inj hstep
    exact h

theorem writeWith (h : Invariant late σ) {bytes : List UInt8}
    (hstep : σ.writeWith w bytes (fun writer => writer.writeBytes bytes) = some σ') :
    Invariant (fun stream => late stream ∨ 0 < bytes.length ∧
      WritesLate.OutOfFileMode σ stream w) σ' := by
  obtain ⟨slot, hw, hstep⟩ := Option.bind_eq_some_iff.mp hstep
  obtain ⟨⟨result, writer⟩, hwrite, hstep⟩ := Option.bind_eq_some_iff.mp hstep
  have hbacked := h.backed w slot hw
  obtain ⟨rfl, -⟩ := hbacked.vector.writeBytes hwrite
  obtain rfl := Option.some.inj hstep
  have hlate : ∀ stream, WritesLate.OutOfFileMode σ stream w ↔
      slot.stream = stream ∧ slot.writer.storageType ≠ .owningFile := by
    intro stream
    simp [WritesLate.OutOfFileMode, hw]
  refine h.put (h.only hw) rfl (fun _ _ => rfl) (fun p hp => Function.update_of_ne hp _ _)
    (fun p hp => by simp [hlate, hp.symm]) (hbacked.write hwrite (Function.update_self _ _ _) ?_)
  simp [hlate]

theorem flush (h : Invariant late σ) (hstep : σ.flush w = some σ') : Invariant late σ' := by
  obtain ⟨slot, hw, hstep⟩ := Option.bind_eq_some_iff.mp hstep
  have hbacked := h.backed w slot hw
  rw [StreamWriter.flush_reliable hbacked.filePath_ne] at hstep
  obtain rfl := Option.some.inj hstep
  exact h.put (h.only hw) rfl (fun p hp => hbacked.destruct_of_ne hp) (fun _ _ => rfl)
    (fun _ _ => Iff.rfl) hbacked.flush

theorem moveConstruct (h : Invariant late σ) (hstep : σ.moveConstruct w v = some σ') :
    Invariant late σ' := by
  obtain ⟨slot, hv, hstep⟩ := Option.bind_eq_some_iff.mp hstep
  split_ifs at hstep with hw
  obtain rfl := Option.some.inj hstep
  have := h.transfer hv hw slot.writer.moveConstruct.2 rfl
  rwa [← (h.backed v slot hv).vector.moveConstruct_fst] at this

theorem moveAssign (h : Invariant late σ) (hstep : σ.moveAssign w v = some σ') :
    Invariant late σ' := by
  obtain ⟨target, hw, hstep⟩ := Option.bind_eq_some_iff.mp hstep
  obtain ⟨slot, hv, hstep⟩ := Option.bind_eq_some_iff.mp hstep
  split_ifs at hstep with heq
  · obtain rfl := Option.some.inj hstep
    exact h
  · have hwriter : (target.writer.moveAssign .reliable slot.writer σ.disk).1 = slot.writer :=
      (h.backed v slot hv).vector.moveConstruct_fst
    have hσ' : σ' = { ((σ.leave v slot.stream (target.writer.moveAssign .reliable slot.writer
        σ.disk).2.1).put w slot.stream slot.writer) with
        disk := target.writer.destruct .reliable σ.disk } := by
      rw [← hwriter]
      exact (Option.some.inj hstep).symm
    -- The target goes away, then the other writer takes its place.
    have hmoved := (h.destroy (live_eq_some.mp hw).1).transfer (w := w)
      (by rw [live_of_update_of_ne rfl (Ne.symm heq), hv]) (Function.update_self _ _ _)
      (target.writer.moveAssign .reliable slot.writer σ.disk).2.1 rfl
    rw [hσ']
    convert hmoved using 1
    simp only [World.put, leave, World.mk.injEq, and_true]
    rw [Function.update_comm heq, Function.update_idem]

/-- What one call does to the invariant. -/
theorem step (h : Invariant late σ) {event : Event} (hstep : σ.step event = some σ') :
    Invariant (fun stream => late stream ∨ σ.WritesLate stream event) σ' := by
  cases event with
  | create w path => simpa [WritesLate] using h.create hstep
  | write w byte count => simpa [WritesLate] using h.writeWith hstep
  | writeBuffer w buffer => simpa [WritesLate] using h.writeWith hstep
  | writeValue w object => simpa [WritesLate] using h.writeWith hstep
  | flush w => simpa [WritesLate] using h.flush hstep
  | moveConstruct w v => simpa [WritesLate] using h.moveConstruct hstep
  | moveAssign w v => simpa [WritesLate] using h.moveAssign hstep
  | destroy w =>
    obtain ⟨slot, hw, hstep⟩ := Option.bind_eq_some_iff.mp hstep
    obtain rfl := Option.some.inj hstep
    simpa [WritesLate] using h.destroy hw

/-- What a run does to it. -/
theorem run {events : List Event} (h : Invariant late σ)
    (hrun : run World.step σ events = some σ') :
    Invariant (fun stream => late stream ∨
      ¬ Along World.step (fun σ event => ¬ σ.WritesLate stream event) σ events) σ' := by
  induction events generalizing σ late with
  | nil =>
    obtain rfl := Option.some.inj hrun
    simpa using h
  | cons event events ih =>
    obtain ⟨σ₁, hstep, hrun⟩ := run_cons_eq_some.mp hrun
    simpa only [along_cons hstep, not_and_or, not_not, or_assoc] using ih (h.step hstep) hrun

end Invariant

/-- **A file that is due.**  After a successful flush, a destruction or an overwriting the file
holds what was written to its stream if and only if nothing was written to it late. -/
theorem file_eq_written_iff {disk : Disk} {events : List Event} {event : Event}
    (hrun : run World.step (start disk) events = some σ) (hstep : σ.step event = some σ')
    (hdue : σ.due event = some stream) :
    σ'.disk stream = σ'.written stream ↔
      Along World.step (fun σ event => ¬ σ.WritesLate stream event) (start disk) events := by
  have h := (Invariant.start disk).run hrun
  have hiff : ∀ w slot, σ.live w = some slot →
      (slot.writer.destruct .reliable σ.disk slot.stream = σ.written slot.stream ↔
        Along World.step (fun σ event => ¬ σ.WritesLate slot.stream event) (start disk)
          events) := by
    intro w slot hw
    simpa using (h.backed w slot hw).destruct_iff
  cases event with
  | flush w =>
    obtain ⟨slot, hw, hstep⟩ := Option.bind_eq_some_iff.mp hstep
    rw [StreamWriter.flush_reliable (h.backed w slot hw).filePath_ne] at hstep
    obtain rfl := Option.some.inj hstep
    obtain rfl : slot.stream = stream := by
      simp only [due, hw] at hdue
      rw [StreamWriter.flush_reliable (h.backed w slot hw).filePath_ne] at hdue
      exact Option.some.inj hdue
    exact hiff w slot hw
  | moveAssign w v =>
    obtain ⟨target, hw, hstep⟩ := Option.bind_eq_some_iff.mp hstep
    obtain ⟨slot, hv, hstep⟩ := Option.bind_eq_some_iff.mp hstep
    simp only [due, hw, Option.map_some, Option.ite_none_left_eq_some] at hdue
    obtain ⟨hne, hstream⟩ := hdue
    obtain rfl := Option.some.inj hstream
    rw [if_neg hne] at hstep
    obtain rfl := Option.some.inj hstep
    exact hiff w target hw
  | destroy w =>
    obtain ⟨slot, hw, hstep⟩ := Option.bind_eq_some_iff.mp hstep
    obtain rfl := Option.some.inj hstep
    obtain ⟨slot', hw', rfl⟩ := Option.map_eq_some_iff.mp hdue
    obtain rfl : slot = slot' := Option.some.inj (hw.symm.trans (live_eq_some.mp hw').1)
    exact hiff w slot hw'
  | create w path => cases hdue
  | write w byte count => cases hdue
  | writeBuffer w buffer => cases hdue
  | writeValue w object => cases hdue
  | moveConstruct w v => cases hdue

/-- The writer moves, is flushed in its new place, written to and destroyed. -/
theorem file_eq_written_iff_moved :
    let events := [.create 0 "a", .write 0 7 3, .moveConstruct 1 0, .flush 1, .writeBuffer 1 [8]]
    ∃ σ σ', run World.step (start fun _ => none) events = some σ ∧
      σ.step (.destroy 1) = some σ' ∧ (σ'.disk "a" = σ'.written "a" ↔
        Along World.step (fun σ event => ¬ σ.WritesLate "a" event) (start fun _ => none)
          events) := by
  intro events
  have hrun : (run World.step (start fun _ => none) events).bind (fun σ =>
      (σ.step (.destroy 1)).map fun _ => σ.due (.destroy 1)) = some (some "a") := by
    set_option maxRecDepth 4000 in rfl
  simp only [Option.bind_eq_some_iff, Option.map_eq_some_iff] at hrun
  obtain ⟨σ, hrun, σ', hstep, hdue⟩ := hrun
  exact ⟨σ, σ', hrun, hstep, file_eq_written_iff hrun hstep hdue⟩

/-- A byte written between two flushes never reaches the file. -/
theorem second_flush_loses_byte : ∃ events event σ σ' stream,
    run World.step (start fun _ => none) events = some σ ∧ σ.step event = some σ' ∧
      σ.due event = some stream ∧ σ'.disk stream ≠ σ'.written stream := by
  have hrun : (run World.step (start fun _ => none)
      [.create 0 "a", .flush 0, .writeBuffer 0 [120]]).bind (fun σ => (σ.step (.flush 0)).map
        fun σ' => (σ.due (.flush 0), σ'.disk "a", σ'.written "a")) =
      some (some "a", some [], some [120]) := by
    set_option maxRecDepth 4000 in rfl
  simp only [Option.bind_eq_some_iff, Option.map_eq_some_iff, Prod.mk.injEq] at hrun
  obtain ⟨σ, hrun, σ', hstep, hdue, hdisk, hwritten⟩ := hrun
  exact ⟨_, _, σ, σ', _, hrun, hstep, hdue, by simp [hdisk, hwritten]⟩

end FileBacked

end IACore
