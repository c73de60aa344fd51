import IACore.IPC.Descriptor
import IACore.ProcessOps.Equiv.Arguments

/-!
# The hand-off of a connection descriptor

`deserialize` walks its text once; while there is no separator it only moves on
(`deserializeFrom_skip`), so each field is what stands between two separators, and the number is
read back from the digits that `serialize` printed.  A descriptor whose paths are `Clean` reaches
the child as one argument, and one C string, that reads back as the descriptor.
-/

namespace IACore

namespace IpcConnectionDescriptor

/-- A path without the separator and without the characters that the argument loop or the end of a
C string would take. -/
def Clean (path : Text) : Prop :=
  ∀ c ∈ path, c ≠ '|'.toUInt8 ∧ c ≠ '"'.toUInt8 ∧ c ≠ '\\'.toUInt8 ∧ c ≠ 0

/-! ### Reading the fields -/

/-- The loop moves over a field without a separator. -/
theorem deserializeFrom_skip {data : Text} {result : IpcConnectionDescriptor} {state : ParseState}
    {t i n : ℕ} (hn : i + n ≤ data.length)
    (hfield : ∀ k, i ≤ k → ∀ hk : k < i + n, data[k] ≠ bar) :
    deserializeFrom data result state t i = deserializeFrom data result state t (i + n) := by
  induction n with
  | zero => rfl
  | succ n ih =>
    have hlt : i + n < data.length := by omega
    rw [ih (by omega) (fun k hk hk' => hfield k hk (by omega)),
      deserializeFrom.eq_def data result state t (i + n), dif_pos hlt,
      if_pos (hfield (i + n) (by omega) (by omega))]
    rfl

/-- What the loop does at the separator after a field. -/
def endField (data : Text) (result : IpcConnectionDescriptor) (field : Text) (t : ℕ) :
    ParseState → Option IpcConnectionDescriptor
  | .socketPath => deserializeFrom data { result with socketPath := field } .sharedMemPath t t
  | .sharedMemPath => deserializeFrom data { result with sharedMemPath := field } .sharedMemSize t t
  | .sharedMemSize => (fromChars field).map fun n => { result with sharedMemSize := n }

/-- From the start of a field the loop comes to its end with the field in hand. -/
theorem deserializeFrom_field {data before field after : Text} {result : IpcConnectionDescriptor}
    {state : ParseState} (hdata : data = before ++ field ++ [bar] ++ after) (hfield : bar ∉ field) :
    deserializeFrom data result state before.length before.length
      = endField data result field (before ++ field ++ [bar]).length state := by
  have hlt : before.length + field.length < data.length := by
    rw [hdata]
    simp
  have hbar : data[before.length + field.length] = bar := by
    subst hdata
    simp
  have hfree : ∀ k, before.length ≤ k → ∀ hk : k < before.length + field.length,
      data[k] ≠ bar := by
    intro k hk hk'
    have hmem : data[k] = field[k - before.length] := by
      subst hdata
      simp [List.getElem_append, show ¬ k < before.length by omega,
        show k - before.length < field.length by omega]
    rw [hmem]
    intro h
    exact hfield (h ▸ List.getElem_mem _)
  have hsub : substr data before.length (before.length + field.length - before.length)
      = field := by
    subst hdata
    simp [substr]
  have ht : before.length + field.length + 1 = (before ++ field ++ [bar]).length := by
    simp only [List.length_append, List.length_singleton]
  rw [deserializeFrom_skip (n := field.length) (by omega) hfree, deserializeFrom.eq_def,
    dif_pos hlt, if_neg (not_not_intro hbar), hsub, ht]
  cases state with
  | socketPath => rfl
  | sharedMemPath => rfl
  | sharedMemSize => cases h : fromChars field <;> simp [endField, h]

/-- A descriptor whose paths do not contain the separator reads back. -/
theorem deserialize_serialize {desc : IpcConnectionDescriptor} (hsocket : bar ∉ desc.socketPath)
    (hshared : bar ∉ desc.sharedMemPath) : deserialize desc.serialize = some desc := by
  have hdigits : bar ∉ formatU32 desc.sharedMemSize := by
    intro hmem
    exact absurd (isDigit_of_mem_formatU32 hmem) (by decide)
  -- the text, seen from the start of each of its three fields
  have hdata : desc.serialize = [] ++ desc.socketPath ++ [bar] ++
      (desc.sharedMemPath ++ [bar] ++ formatU32 desc.sharedMemSize ++ [bar]) := by
    simp [serialize]
  have hdata' : desc.serialize = ([] ++ desc.socketPath ++ [bar]) ++ desc.sharedMemPath ++ [bar] ++
      (formatU32 desc.sharedMemSize ++ [bar]) := by
    simp [serialize]
  have hdata'' : desc.serialize = ([] ++ desc.socketPath ++ [bar] ++ desc.sharedMemPath ++ [bar]) ++
      formatU32 desc.sharedMemSize ++ [bar] ++ [] := by
    simp [serialize]
  have hfirst : deserializeFrom desc.serialize ⟨[], [], 0⟩ .socketPath 0 0 = endField desc.serialize
      ⟨[], [], 0⟩ desc.socketPath ([] ++ desc.socketPath ++ [bar]).length .socketPath :=
    deserializeFrom_field hdata hsocket
  rw [deserialize, hfirst, endField, deserializeFrom_field hdata' hshared, endField,
    deserializeFrom_field hdata'' hdigits, endField, fromChars_formatU32]
  rfl

/-! ### The way through the command line -/

theorem clean_of_isDigit {c : UInt8} (h : isDigit c = true) :
    c ≠ '|'.toUInt8 ∧ c ≠ '"'.toUInt8 ∧ c ≠ '\\'.toUInt8 ∧ c ≠ 0 := by
  refine ⟨?_, ?_, ?_, ?_⟩ <;> rintro rfl <;> exact absurd h (by decide)

theorem clean_of_all {path : Text} (h : path.all (fun c => c != '|'.toUInt8 && c != '"'.toUInt8 &&
    c != '\\'.toUInt8 && c != 0) = true) : Clean path := by
  intro c hc
  simpa [and_assoc] using List.all_eq_true.mp h c hc

theorem clean_append {s t : Text} (hs : Clean s) (ht : Clean t) : Clean (s ++ t) := by
  intro c hc
  rcases List.mem_append.mp hc with h | h
  · exact hs c h
  · exact ht c h

theorem clean_formatU32 (n : UInt32) : Clean (formatU32 n) := by
  intro c hc
  exact clean_of_isDigit (isDigit_of_mem_formatU32 hc)

/-- The separators aside, what is serialized is as clean as the paths. -/
theorem mem_serialize {desc : IpcConnectionDescriptor} (hsocket : Clean desc.socketPath)
    (hshared : Clean desc.sharedMemPath) :
    ∀ c ∈ desc.serialize, ProcessOps.Plain c ∧ c ≠ 0 := by
  have hclean : ∀ t : Text, Clean t → ∀ c ∈ t, ProcessOps.Plain c ∧ c ≠ 0 := by
    intro t ht c hc
    have hc' := ht c hc
    exact ⟨⟨hc'.2.1, hc'.2.2.1⟩, hc'.2.2.2⟩
  have hbar : ProcessOps.Plain bar ∧ bar ≠ 0 := by
    refine ⟨⟨?_, ?_⟩, ?_⟩ <;> decide
  intro c hc
  simp only [serialize, List.mem_append, List.mem_singleton] at hc
  rcases hc with ((((h | rfl) | h) | rfl) | h) | rfl
  · exact hclean _ hsocket c h
  · exact hbar
  · exact hclean _ hshared c h
  · exact hbar
  · exact hclean _ (clean_formatU32 _) c h
  · exact hbar

end IpcConnectionDescriptor

namespace IpcManager

open IpcConnectionDescriptor

theorem clean_sockPath (sid : UInt32) : Clean (sockPath sid) := by
  have hbefore : Clean (text "/tmp/ia_sess_") := clean_of_all (by decide)
  have hafter : Clean (text ".sock") := clean_of_all (by decide)
  exact clean_append (clean_append hbefore (clean_formatU32 sid)) hafter

theorem clean_shmName (sid : UInt32) : Clean (shmName sid) := by
  have hbefore : Clean (text "ia_shm_") := clean_of_all (by decide)
  exact clean_append hbefore (clean_formatU32 sid)

/-- A descriptor with clean paths goes through the child's command line as one argument, which
`execvp` passes on in full and which reads back as the descriptor; and the paths of every session
are clean. -/
theorem handoff_lossless :
    (∀ desc : IpcConnectionDescriptor, Clean desc.socketPath → Clean desc.sharedMemPath →
      ProcessOps.argStorage (nodeArgs desc) = [desc.serialize] ∧
      (∀ command, ProcessOps.argv command (nodeArgs desc) = [cString command, desc.serialize]) ∧
      deserialize desc.serialize = some desc) ∧
    ∀ sid sharedMemorySize : UInt32, Clean (sessionDescriptor sid sharedMemorySize).socketPath ∧
      Clean (sessionDescriptor sid sharedMemorySize).sharedMemPath := by
  constructor
  · intro desc hsocket hshared
    have hmem := mem_serialize hsocket hshared
    have hne : desc.serialize ≠ [] := by simp [serialize]
    have hone : ProcessOps.argStorage (nodeArgs desc) = [desc.serialize] :=
      ProcessOps.argStorage_quoted (fun c hc => (hmem c hc).1) hne
    have hnul : cString desc.serialize = desc.serialize := by
      rw [cString_eq_self_iff]
      intro hzero
      exact (hmem 0 hzero).2 rfl
    refine ⟨hone, ?_, ?_⟩
    · intro command
      rw [ProcessOps.argv, hone, List.map_cons, List.map_singleton, hnul]
    · exact deserialize_serialize (fun h => (hsocket _ h).1 rfl) (fun h => (hshared _ h).1 rfl)
  · intro sid sharedMemorySize
    exact ⟨clean_sockPath sid, clean_shmName sid⟩

/-- The first session with 1 MiB. -/
theorem handoff_lossless_first :
    ProcessOps.argStorage (nodeArgs (sessionDescriptor 1 1048576))
      = [text "/tmp/ia_sess_1.sock|ia_shm_1|1048576|"] ∧
    deserialize (text "/tmp/ia_sess_1.sock|ia_shm_1|1048576|")
      = some (sessionDescriptor 1 1048576) := by
  have hclean := handoff_lossless.2 1 1048576
  have hserialize : (sessionDescriptor 1 1048576).serialize
      = text "/tmp/ia_sess_1.sock|ia_shm_1|1048576|" := by decide +kernel
  have h := handoff_lossless.1 (sessionDescriptor 1 1048576) hclean.1 hclean.2
  rw [hserialize] at h
  exact ⟨h.1, h.2.2⟩

end IpcManager

end IACore
