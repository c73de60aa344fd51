import IACore.IPC.Equiv.Descriptor

/-!
# The format of a connection descriptor

A text that has three separators has a first, a second and a third field (`Fields`), and
`deserialize` gives the first two and the number that `std::from_chars` finds in the third
(`deserialize_eq_some_iff`).  Where that stopped is not looked at: a third field that starts with a
number and goes on after it is accepted, and no text that is `InFormat` has one.
-/

namespace IACore

/-- The value of a text of decimal digits. -/
def decimal (digits : Text) : ℕ :=
  digits.foldl (fun n c => 10 * n + (c.toNat - '0'.toNat)) 0

theorem fromChars_eq_some_iff {field : Text} {value : UInt32} :
    fromChars field = some value ↔
      field.takeWhile isDigit ≠ [] ∧ decimal (field.takeWhile isDigit) = value.toNat := by
  unfold fromChars decimal
  set n := (field.takeWhile isDigit).foldl (fun n c => 10 * n + (c.toNat - '0'.toNat)) 0
  have hlt : value.toNat < 4294967296 := value.toNat_lt
  simp only
  split_ifs with hnil hn
  · simp [hnil]
  · rw [Option.some.injEq, ← UInt32.toNat_inj, UInt32.toNat_ofNat_of_lt' hn]
    exact ⟨fun h => ⟨hnil, h⟩, fun h => h.2⟩
  · constructor
    · intro h
      exact absurd h (by simp)
    · intro h
      omega

namespace IpcConnectionDescriptor

/-- What stands before, between and after the first three separators of a text. -/
structure Fields (s first second third rest : Text) : Prop where
  eq : s = first ++ [bar] ++ second ++ [bar] ++ third ++ [bar] ++ rest
  first_free : bar ∉ first
  second_free : bar ∉ second
  third_free : bar ∉ third

/-- The text is the descriptor's paths and, in decimal digits only, its size, each with a separator
behind it, and anything after that. -/
def InFormat (s : Text) (desc : IpcConnectionDescriptor) : Prop :=
  bar ∉ desc.socketPath ∧ bar ∉ desc.sharedMemPath ∧ ∃ n rest : Text,
    s = desc.socketPath ++ [bar] ++ desc.sharedMemPath ++ [bar] ++ n ++ [bar] ++ rest ∧
    n ≠ [] ∧ (∀ c ∈ n, isDigit c = true) ∧ decimal n < 4294967296 ∧
    desc.sharedMemSize.toNat = decimal n

/-- A third field that starts with a digit has nothing but digits, unless the number that it starts
with has no place in a `u32`. -/
def WholeNumber (s : Text) : Prop :=
  ∀ first second third rest, Fields s first second third rest →
    third.takeWhile isDigit ≠ [] → decimal (third.takeWhile isDigit) < 4294967296 →
    ∀ c ∈ third, isDigit c = true

section

variable {s first second third rest : Text}

/-- A text has one first separator. -/
theorem separated_inj {before before' after after' : Text} (h : bar ∉ before) (h' : bar ∉ before')
    (heq : before ++ bar :: after = before' ++ bar :: after') :
    before = before' ∧ after = after' := by
  have htake : ∀ b a : Text, bar ∉ b → (b ++ bar :: a).takeWhile (· ≠ bar) = b := by
    intro b a hb
    rw [List.takeWhile_append_of_pos, List.takeWhile_cons_of_neg (by simp), List.append_nil]
    intro c hc
    exact decide_eq_true fun hbar => hb (hbar ▸ hc)
  have hbefore : before = before' := by rw [← htake before after h, heq, htake before' after' h']
  refine ⟨hbefore, ?_⟩
  rw [hbefore] at heq
  exact (List.cons.inj (List.append_cancel_left heq)).2

theorem Fields.unique {first' second' third' rest' : Text} (h : Fields s first second third rest)
    (h' : Fields s first' second' third' rest') :
    first = first' ∧ second = second' ∧ third = third' ∧ rest = rest' := by
  have heq := h.eq.symm.trans h'.eq
  simp only [List.append_assoc, List.singleton_append] at heq
  obtain ⟨hfirst, heq⟩ := separated_inj h.first_free h'.first_free heq
  obtain ⟨hsecond, heq⟩ := separated_inj h.second_free h'.second_free heq
  obtain ⟨hthird, heq⟩ := separated_inj h.third_free h'.third_free heq
  exact ⟨hfirst, hsecond, hthird, heq⟩

/-! ### Acceptance -/

/-- The loop ends with nothing in a field that has no end. -/
theorem deserializeFrom_open {data before field : Text} {result : IpcConnectionDescriptor}
    {state : ParseState} (hdata : data = before ++ field) (hfield : bar ∉ field) :
    deserializeFrom data result state before.length before.length = none := by
  have hlength : before.length + field.length = data.length := by
    rw [hdata, List.length_append]
  have hfree : ∀ k, before.length ≤ k → ∀ hk : k < before.length + field.length,
      data[k] ≠ bar := by
    intro k hk hk'
    have hmem : data[k] = field[k - before.length] := by
      subst hdata
      exact List.getElem_append_right hk
    rw [hmem]
    intro h
    exact hfield (h ▸ List.getElem_mem _)
  rw [deserializeFrom_skip hlength.le hfree, deserializeFrom.eq_def, dif_neg (by omega)]

theorem deserialize_of_fields (h : Fields s first second third rest) :
    deserialize s = (fromChars third).map fun n => ⟨first, second, n⟩ := by
  have hdata : s = [] ++ first ++ [bar] ++ (second ++ [bar] ++ third ++ [bar] ++ rest) := by
    simp [h.eq]
  have hdata' : s = ([] ++ first ++ [bar]) ++ second ++ [bar] ++ (third ++ [bar] ++ rest) := by
    simp [h.eq]
  have hdata'' : s = ([] ++ first ++ [bar] ++ second ++ [bar]) ++ third ++ [bar] ++ rest := by
    simp [h.eq]
  have hfirst : deserializeFrom s ⟨[], [], 0⟩ .socketPath 0 0
      = endField s ⟨[], [], 0⟩ first ([] ++ first ++ [bar]).length .socketPath :=
    deserializeFrom_field hdata h.first_free
  rw [deserialize, hfirst, endField, deserializeFrom_field hdata' h.second_free, endField,
    deserializeFrom_field hdata'' h.third_free, endField]

/-- What is accepted has three fields that end. -/
theorem exists_fields {desc : IpcConnectionDescriptor} (h : deserialize s = some desc) :
    ∃ first second third rest, Fields s first second third rest := by
  -- each field ends, since the loop comes to nothing in one that does not
  have hfirst : bar ∈ s := by
    by_contra hfree
    have hnone : deserialize s = none := @deserializeFrom_open s [] s _ _ rfl hfree
    simp [hnone] at h
  obtain ⟨first, s', hs, hfirst⟩ := List.eq_append_cons_of_mem hfirst
  have hdata : s = [] ++ first ++ [bar] ++ s' := by simp [hs]
  have hafter : deserialize s
      = endField s ⟨[], [], 0⟩ first ([] ++ first ++ [bar]).length .socketPath :=
    deserializeFrom_field hdata hfirst
  rw [endField] at hafter
  have hsecond : bar ∈ s' := by
    by_contra hfree
    rw [hafter, deserializeFrom_open hdata hfree] at h
    simp at h
  obtain ⟨second, s'', hs', hsecond⟩ := List.eq_append_cons_of_mem hsecond
  have hdata' : s = ([] ++ first ++ [bar]) ++ second ++ [bar] ++ s'' := by simp [hs, hs']
  rw [deserializeFrom_field hdata' hsecond, endField] at hafter
  have hthird : bar ∈ s'' := by
    by_contra hfree
    rw [hafter, deserializeFrom_open hdata' hfree] at h
    simp at h
  obtain ⟨third, rest, hs'', hthird⟩ := List.eq_append_cons_of_mem hthird
  exact ⟨first, second, third, rest, ⟨by simp [hs, hs', hs''], hfirst, hsecond, hthird⟩⟩

theorem deserialize_eq_some_iff {desc : IpcConnectionDescriptor} :
    deserialize s = some desc ↔ ∃ n rest, Fields s desc.socketPath desc.sharedMemPath n rest ∧
      fromChars n = some desc.sharedMemSize := by
  constructor
  · intro h
    obtain ⟨first, second, third, rest, hfields⟩ := exists_fields h
    rw [deserialize_of_fields hfields, Option.map_eq_some_iff] at h
    obtain ⟨n, hn, rfl⟩ := h
    exact ⟨third, rest, hfields, hn⟩
  · rintro ⟨n, rest, hfields, hn⟩
    rw [deserialize_of_fields hfields, hn]
    rfl

theorem inFormat_iff {desc : IpcConnectionDescriptor} :
    InFormat s desc ↔ ∃ n rest, Fields s desc.socketPath desc.sharedMemPath n rest ∧
      fromChars n = some desc.sharedMemSize ∧ ∀ c ∈ n, isDigit c = true := by
  constructor
  · rintro ⟨hfirst, hsecond, n, rest, heq, hne, hdigits, -, hsize⟩
    have hfree : bar ∉ n := fun hmem => absurd (hdigits bar hmem) (by decide)
    have hwhole : n.takeWhile isDigit = n := List.takeWhile_eq_self_iff.mpr hdigits
    refine ⟨n, rest, ⟨heq, hfirst, hsecond, hfree⟩, ?_, hdigits⟩
    rw [fromChars_eq_some_iff, hwhole]
    exact ⟨hne, hsize.symm⟩
  · rintro ⟨n, rest, hfields, hn, hdigits⟩
    have hwhole : n.takeWhile isDigit = n := List.takeWhile_eq_self_iff.mpr hdigits
    rw [fromChars_eq_some_iff, hwhole] at hn
    refine ⟨hfields.first_free, hfields.second_free, n, rest, hfields.eq, hn.1, hdigits, ?_,
      hn.2.symm⟩
    rw [hn.2]
    exact desc.sharedMemSize.toNat_lt

end

/-! ### The format -/

/-- **The descriptors that a text is accepted for are those that it is the format of exactly if the
number in its third field is followed by nothing.** -/
theorem deserialize_iff_inFormat (s : Text) :
    (∀ desc, deserialize s = some desc ↔ InFormat s desc) ↔ WholeNumber s := by
  constructor
  · intro h first second third rest hfields hne hlt
    have hn : fromChars third = some (UInt32.ofNat (decimal (third.takeWhile isDigit))) := by
      rw [fromChars_eq_some_iff, UInt32.toNat_ofNat_of_lt' hlt]
      exact ⟨hne, rfl⟩
    have haccepted : deserialize s = some ⟨first, second, _⟩ :=
      deserialize_eq_some_iff.mpr ⟨third, rest, hfields, hn⟩
    obtain ⟨n, rest', hfields', -, hdigits⟩ := inFormat_iff.mp ((h _).mp haccepted)
    rw [(hfields.unique hfields').2.2.1]
    exact hdigits
  · intro h desc
    rw [deserialize_eq_some_iff, inFormat_iff]
    constructor
    · rintro ⟨n, rest, hfields, hn⟩
      refine ⟨n, rest, hfields, hn, ?_⟩
      rw [fromChars_eq_some_iff] at hn
      apply h _ _ n rest hfields hn.1
      rw [hn.2]
      exact desc.sharedMemSize.toNat_lt
    · rintro ⟨n, rest, hfields, hn, -⟩
      exact ⟨n, rest, hfields, hn⟩

/-- A number with two letters behind it is accepted as the number, and the text is the format of no
descriptor. -/
theorem deserialize_trailing : deserialize (text "a|b|12xy|") = some ⟨text "a", text "b", 12⟩ ∧
    ∀ desc, ¬ InFormat (text "a|b|12xy|") desc := by
  have hfields : Fields (text "a|b|12xy|") (text "a") (text "b") (text "12xy") [] :=
    ⟨by decide, by decide, by decide, by decide⟩
  constructor
  · rw [deserialize_of_fields hfields]
    decide
  · intro desc hformat
    obtain ⟨n, rest, hfields', -, hdigits⟩ := inFormat_iff.mp hformat
    rw [← (hfields.unique hfields').2.2.1] at hdigits
    exact absurd (hdigits 'x'.toUInt8 (by decide)) (by decide)

end IpcConnectionDescriptor

end IACore
