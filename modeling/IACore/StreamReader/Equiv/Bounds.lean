import IACore.StreamReader

/-!
# The bounds of a reader

Every operation keeps the cursor in the block (`Within.readBytes`, `Within.skip`, `Within.seek`).
`read` and `skip` compare the *reduced* sum of the cursor and their argument with the size, which is
right exactly if the sum fits in a `usize` (`bounds_exact_iff`): a sum that does not is reduced to a
value below the cursor, so the read passes its check and the skip goes back.
-/

namespace IACore

namespace StreamReader

variable {r r' : StreamReader} {size : ℕ}

namespace Within

theorem ofSpan {data : List UInt8} (h : data.length < 18446744073709551616) :
    (ofSpan data).Within where
  dataSize := rfl
  cursor_le := Nat.zero_le _
  size_lt := h

theorem readBytes (h : r.Within) {result : Except String (List UInt8)}
    (hread : r.readBytes size = some (result, r')) : r'.Within := by
  unfold StreamReader.readBytes at hread
  split_ifs at hread with hexcess hfits
  · obtain ⟨-, rfl⟩ := Prod.mk.inj (Option.some.inj hread)
    exact h
  · obtain ⟨-, rfl⟩ := Prod.mk.inj (Option.some.inj hread)
    exact ⟨h.dataSize, Nat.le_of_not_lt hexcess, h.size_lt⟩

theorem skip (h : r.Within) (amount : ℕ) : (r.skip amount).Within where
  dataSize := h.dataSize
  cursor_le := Nat.min_le_right _ _
  size_lt := h.size_lt

theorem seek (h : r.Within) (pos : ℕ) : (r.seek pos).Within where
  dataSize := h.dataSize
  cursor_le := by
    show (if pos > r.dataSize then r.dataSize else pos) ≤ r.dataSize
    split_ifs with hpos
    · exact Nat.le_refl _
    · exact Nat.le_of_not_lt hpos
  size_lt := h.size_lt

/-- A sum that does not fit in a `usize` is reduced to a value below the cursor. -/
theorem usize_lt (h : r.Within) (hsize : size < 18446744073709551616)
    (hwrap : 18446744073709551616 ≤ r.cursor + size) : usize (r.cursor + size) < r.cursor := by
  have hcursor := h.cursor_le
  have hlt := h.size_lt
  unfold usize
  omega

theorem readExact_iff (h : r.Within) (hsize : size < 18446744073709551616) :
    ReadExact r size (r.readBytes size) ↔ r.cursor + size < 18446744073709551616 := by
  have hdata := h.dataSize
  have hcursor := h.cursor_le
  constructor
  · intro hexact
    by_contra hwrap
    have hlow := h.usize_lt hsize (Nat.le_of_not_lt hwrap)
    have hlt := h.size_lt
    -- the check passes, and the copy leaves the block
    have hundefined : r.readBytes size = none := by
      rw [StreamReader.readBytes, if_neg (by omega), if_neg (by omega)]
    rw [ReadExact, if_neg (by omega), hundefined] at hexact
    obtain ⟨message, hmessage⟩ := hexact
    cases hmessage
  · intro hfits
    rw [ReadExact, StreamReader.readBytes, usize_of_lt hfits]
    by_cases hroom : size ≤ r.dataSize - r.cursor
    · rw [if_pos hroom, if_neg (by omega), if_pos (by omega)]
    · rw [if_neg hroom, if_pos (by omega)]
      exact ⟨_, rfl⟩

theorem skipExact_iff (h : r.Within) {amount : ℕ} (hamount : amount < 18446744073709551616) :
    SkipExact r amount ↔ r.cursor + amount < 18446744073709551616 := by
  have hcursor := h.cursor_le
  constructor
  · rintro ⟨-, hforward⟩
    by_contra hwrap
    have hlow := h.usize_lt hamount (Nat.le_of_not_lt hwrap)
    have hback : (r.skip amount).cursor ≤ usize (r.cursor + amount) := Nat.min_le_left _ _
    omega
  · intro hfits
    have hskip : r.skip amount = { r with cursor := min (r.cursor + amount) r.dataSize } := by
      rw [StreamReader.skip, usize_of_lt hfits]
    refine ⟨hskip, ?_⟩
    rw [hskip]
    exact Nat.le_min.mpr ⟨Nat.le_add_right _ _, hcursor⟩

end Within

theorem seekExact (r : StreamReader) (pos : ℕ) : SeekExact r pos := by
  unfold SeekExact seek
  congr 1
  split_ifs <;> omega

/-- **The reads and the skip are exact as long as the cursor plus the argument fits in a `usize`**,
and seeking always is. -/
theorem bounds_exact_iff (h : r.Within) {arg : ℕ} (harg : arg < 18446744073709551616) :
    (ReadExact r arg (r.readBuffer arg) ↔ r.cursor + arg < 18446744073709551616) ∧
    (ReadExact r arg (r.readValue arg) ↔ r.cursor + arg < 18446744073709551616) ∧
    (SkipExact r arg ↔ r.cursor + arg < 18446744073709551616) ∧ SeekExact r arg :=
  ⟨h.readExact_iff harg, h.readExact_iff harg, h.skipExact_iff harg, seekExact r arg⟩

theorem bounds_exact_five :
    ReadExact ⟨[1, 2, 3], 1, 3⟩ 5 (readBuffer ⟨[1, 2, 3], 1, 3⟩ 5) ∧
      SkipExact ⟨[1, 2, 3], 1, 3⟩ 5 := by
  have h : Within ⟨[1, 2, 3], 1, 3⟩ := ⟨rfl, by decide, by decide⟩
  have harg : 5 < 18446744073709551616 := by decide
  have hiff := bounds_exact_iff h harg
  exact ⟨hiff.1.mpr (by decide), hiff.2.2.1.mpr (by decide)⟩

/-- One byte into a block of two: a skip over `2 ^ 64 - 1` bytes goes back to the start, and a read
of as many is not refused. -/
theorem skip_goes_back :
    (skip ⟨[1, 2], 1, 2⟩ 18446744073709551615).cursor = 0 ∧
      ¬ SkipExact ⟨[1, 2], 1, 2⟩ 18446744073709551615 ∧
      ¬ ReadExact ⟨[1, 2], 1, 2⟩ 18446744073709551615
        (readBuffer ⟨[1, 2], 1, 2⟩ 18446744073709551615) := by
  have hback : (skip ⟨[1, 2], 1, 2⟩ 18446744073709551615).cursor = 0 := by decide
  refine ⟨hback, ?_, ?_⟩
  · rintro ⟨-, hforward⟩
    rw [hback] at hforward
    exact absurd hforward (by decide)
  · rw [ReadExact, if_neg (by decide)]
    rintro ⟨message, hmessage⟩
    have hundefined : readBuffer ⟨[1, 2], 1, 2⟩ 18446744073709551615 = none := by decide
    rw [hundefined] at hmessage
    cases hmessage

end StreamReader

end IACore
