import IACore.FileOps

/-!
# Binary files

`write_binary_file` opens its file without the `b` that `read_binary_file` uses.  On Windows what is
written is longer by one byte for each line feed (`length_lineEnds`), so only contents without any
are read back (`readBinaryFile_eq_iff`).
-/

namespace IACore

namespace Stdio.System

variable {system : System} {contents : List UInt8}

theorem length_lineEnds (contents : List UInt8) :
    (lineEnds contents).length = contents.length + contents.count 0x0A := by
  induction contents with
  | nil => rfl
  | cons c contents ih =>
    rw [lineEnds] at ih
    rw [lineEnds, List.flatMap_cons, List.length_append, ih, List.length_cons]
    by_cases hc : c = 0x0A
    · rw [if_pos hc, hc, List.count_cons_self, List.length_cons, List.length_singleton]
      omega
    · rw [if_neg hc, List.count_cons_of_ne hc, List.length_singleton]
      omega

/-- Nothing is translated where there is no line feed. -/
theorem lineEnds_eq_self (h : (0x0A : UInt8) ∉ contents) : lineEnds contents = contents := by
  have hbytes : ∀ c ∈ contents, (if c = 0x0A then [0x0D, 0x0A] else [c]) = [c] := by
    intro c hc
    have hne : c ≠ 0x0A := by
      rintro rfl
      exact h hc
    rw [if_neg hne]
  rw [lineEnds, List.flatMap_congr hbytes, List.flatMap_singleton']

/-- A mode without `b` transfers the bytes as they are exactly if none is a line feed of Windows. -/
theorem transfer_eq_iff {mode : Mode} (hmode : mode.binary = false) :
    system.transfer mode contents = contents ↔
      (system.platform = .windows → (0x0A : UInt8) ∉ contents) := by
  rw [transfer]
  by_cases hwindows : system.platform = .windows
  · rw [if_pos ⟨hwindows, hmode⟩]
    constructor
    · intro heq _ hmem
      have hlength := length_lineEnds contents
      have hcount : 0 < contents.count 0x0A := List.count_pos_iff.mpr hmem
      rw [heq] at hlength
      omega
    · intro h
      exact lineEnds_eq_self (h hwindows)
  · rw [if_neg fun h => hwindows h.1]
    exact iff_of_true rfl fun h => absurd h hwindows

end Stdio.System

namespace FileOps

variable {system : Stdio.System} {path : String} {contents : List UInt8} {overwrite : Bool}
  {disk disk' : Disk}

/-- What a successful write leaves. -/
theorem writeBinaryFile_ok {size : ℕ}
    (h : writeBinaryFile system path contents overwrite disk = (.ok size, disk')) :
    disk' path = some (system.transfer (if overwrite then .w else .wx) contents) := by
  unfold writeBinaryFile at h
  simp only at h
  split at h
  · split_ifs at h <;> simp at h
  · rw [← (Prod.mk.inj h).2, Function.update_self]

/-- What is read is the whole file, if its size is a `long`, and else nothing. -/
theorem readBinaryFile_eq (hopen : system.refuses path .rb = false) {file : List UInt8}
    (hfile : disk path = some file) :
    readBinaryFile system path disk =
      .ok (if file.length ≤ system.platform.longMax then file else []) := by
  have hread : system.openRead path .rb disk = some file := by
    rw [Stdio.System.openRead, hopen, hfile]
    rfl
  by_cases hlong : file.length ≤ system.platform.longMax
  · have hlen : system.ftell file.length = file.length := if_pos hlong
    rw [readBinaryFile, hread, if_pos hlong]
    simp only [hlen]
    by_cases hempty : file = []
    · rw [hempty]
      rfl
    · have hpos : 0 < file.length := List.length_pos_iff.mpr hempty
      rw [if_pos (by omega), Int.toNat_natCast, List.take_length, Nat.sub_self,
        List.replicate_zero, List.append_nil]
  · have hlen : system.ftell file.length = -1 := if_neg hlong
    rw [readBinaryFile, hread, if_neg hlong]
    simp only [hlen]
    rfl

/-- **What was written as a binary file is read back exactly if it has no line feed on Windows**, as
long as the file may be read and its size is a `long`. -/
theorem readBinaryFile_eq_iff (system : Stdio.System) (path : String) (x : List UInt8)
    (overwrite : Bool) (disk disk' : Disk)
    (h : writeBinaryFile system path x overwrite disk = (.ok x.length, disk')) :
    readBinaryFile system path disk' = .ok x ↔ Preserved system path x := by
  set mode := if overwrite then Mode.w else Mode.wx with hmode
  have hbinary : mode.binary = false := by
    rw [hmode]
    split_ifs
    · rfl
    · rfl
  have hfile : disk' path = some (system.transfer mode x) := writeBinaryFile_ok h
  unfold Preserved
  cases hopen : system.refuses path .rb with
  | true =>
    have hread : readBinaryFile system path disk' = .error ("Failed to open file: " ++ path) := by
      rw [readBinaryFile, Stdio.System.openRead, hopen]
      rfl
    rw [hread]
    simp
  | false =>
    rw [readBinaryFile_eq hopen hfile, Except.ok.injEq, ← Stdio.System.transfer_eq_iff hbinary]
    constructor
    · intro hback
      split_ifs at hback with hlong
      · rw [hback] at hlong
        exact ⟨rfl, hlong, hback⟩
      · -- what is not read back is longer than nothing
        subst hback
        have hlength : (system.transfer mode []).length = 0 := by
          unfold Stdio.System.transfer
          split_ifs
          · rfl
          · rfl
        omega
    · rintro ⟨-, hlong, hsame⟩
      rw [hsame, if_pos hlong]

/-- Four bytes, written and read on Linux. -/
theorem readBinaryFile_eq_iff_linux : readBinaryFile ⟨.linux, fun _ _ => false⟩ "a"
    (writeBinaryFile ⟨.linux, fun _ _ => false⟩ "a" [0, 0x0D, 0x0A, 0xFF] true fun _ => none).2 =
      .ok [0, 0x0D, 0x0A, 0xFF] :=
  (readBinaryFile_eq_iff ⟨.linux, fun _ _ => false⟩ "a" _ true (fun _ => none) _ rfl).mpr
    ⟨rfl, by decide, nofun⟩

/-- A line feed, written on Windows, is read back as two bytes. -/
theorem readBinaryFile_lineFeed :
    (writeBinaryFile ⟨.windows, fun _ _ => false⟩ "a" [0x0A] true fun _ => none).1 = .ok 1 ∧
    readBinaryFile ⟨.windows, fun _ _ => false⟩ "a"
      (writeBinaryFile ⟨.windows, fun _ _ => false⟩ "a" [0x0A] true fun _ => none).2 =
        .ok [0x0D, 0x0A] := ⟨rfl, rfl⟩

end FileOps

end IACore
