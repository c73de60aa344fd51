import IACore.DataOps.Compression

/-!
# Inflating what was deflated

`avail_in` holds the length of the input modulo `2 ^ 32`, so a deflating function encodes that many
bytes of its input (`deflateWith_eq_ok_iff`); the encoding fits in `avail_out`, so that an inflating
function is given all of it.

While there is room `zlib_inflate` writes a beginning of what was encoded (`Sound`).  When the room
is used up, what was written is a multiple of the first `avail_out` and the doubled buffer has as
much room again, until all is written (`loop_sound`).  Only a first `avail_out` of zero stays zero
(`Starved`, `loop_starved`): the doubled guess is `2 ^ 32` for an encoding of `2 ^ 31` bytes.
-/

namespace IACore

namespace DataOps

open ReturnCode

variable {zlib : Zlib}

/-! ### Deflating -/

/-- What `static_cast<uInt>` leaves of an input. -/
def narrowed (data : List UInt8) : List UInt8 := data.take (u32 data.length)

theorem narrowed_length (data : List UInt8) : (narrowed data).length = u32 data.length := by
  have hle : u32 data.length ≤ data.length := Nat.mod_le _ _
  rw [narrowed, List.length_take, Nat.min_eq_left hle]

theorem narrowed_length_lt (data : List UInt8) : (narrowed data).length < 4294967296 := by
  rw [narrowed_length]
  exact Nat.mod_lt _ (by norm_num)

theorem narrowed_of_lt {data : List UInt8} (h : data.length < 4294967296) :
    narrowed data = data := by
  rw [narrowed, u32_of_lt h, List.take_length]

/-- Nothing is lost exactly if the length fits in 32 bits. -/
theorem narrowed_eq_self_iff {data : List UInt8} :
    narrowed data = data ↔ data.length < 4294967296 := by
  constructor
  · intro h
    rw [← h]
    exact narrowed_length_lt data
  · exact narrowed_of_lt

/-- What is written to the front of a buffer is what is left when the buffer is cut to its length.
-/
theorem resize_overwrite_zero {buffer written : List UInt8} (h : written.length ≤ buffer.length) :
    resize (overwrite buffer 0 written) written.length = written := by
  have hlength : (overwrite buffer 0 written).length = buffer.length :=
    overwrite_length (by omega)
  have htake : (overwrite buffer 0 written).take (0 + written.length) = buffer.take 0 ++ written :=
    overwrite_take (Nat.zero_le _)
  rw [Nat.zero_add, List.take_zero, List.nil_append] at htake
  rw [resize_of_le (by omega), htake]

section Deflating

variable (contract : zlib.Contract) {format : Format} {extra : ℕ} {initMessage message : String}
  {data compressed : List UInt8}

/-- A deflating function succeeds exactly if the stream opens and the encoding of the narrowed input
fits in the narrowed room. -/
theorem deflateWith_eq_ok_iff :
    deflateWith zlib format extra initMessage message data = .ok compressed ↔
      zlib.deflateInit format ∧ compressed = contract.encode format (narrowed data) ∧
        compressed.length ≤ u32 (usize (zlib.deflateBound format data.length + extra)) := by
  set room := usize (zlib.deflateBound format data.length + extra) with hroom
  have hle : u32 room ≤ room := Nat.mod_le _ _
  have hnarrowed : data.take (u32 data.length) = narrowed data := rfl
  have henough := contract.deflate_enough format (narrowed data) (u32 room)
  have hshort := contract.deflate_short format (narrowed data) (u32 room)
  rcases hcall : zlib.deflate format (narrowed data) (u32 room) with ⟨ret, written⟩
  rw [hcall] at henough hshort
  simp only [deflateWith, ← hroom, resize_length, hnarrowed, hcall]
  split_ifs with hinit hret
  · -- the call falls short
    constructor
    · exact nofun
    · rintro ⟨-, rfl, hfits⟩
      exact absurd (congrArg Prod.fst (henough hfits)) hret
  · have hfits : (contract.encode format (narrowed data)).length ≤ u32 room := by
      by_contra hlt
      exact hshort (by omega) (not_not.mp hret)
    obtain rfl : written = contract.encode format (narrowed data) :=
      congrArg Prod.snd (henough hfits)
    rw [resize_overwrite_zero (by rw [resize_length]; omega), Except.ok.injEq]
    constructor
    · rintro rfl
      exact ⟨hinit, rfl, hfits⟩
    · rintro ⟨-, rfl, -⟩
      rfl
  · simp [hinit]

include contract in
theorem deflateWith_length_lt
    (h : deflateWith zlib format extra initMessage message data = .ok compressed) :
    compressed.length < 4294967296 := by
  obtain ⟨-, -, hfits⟩ := (deflateWith_eq_ok_iff contract).mp h
  exact hfits.trans_lt (Nat.mod_lt _ (by norm_num))

end Deflating

/-! ### The inflating loop -/

namespace Inflating

variable {σ : Inflating zlib} {data written rest : List UInt8} {size unread : ℕ}

/-- The stream after a call that wrote `written`. -/
def wrote (σ : Inflating zlib) (written : List UInt8) (decoder : zlib.Decoder) :
    Inflating zlib where
  decoder := decoder
  outBuffer := overwrite σ.outBuffer σ.nextOut written
  nextOut := σ.nextOut + written.length
  availOut := σ.availOut - written.length
  totalOut := usize (σ.totalOut + written.length)

theorem inflate_eq_wrote {ret : ReturnCode} {decoder : zlib.Decoder}
    (hcall : zlib.inflate σ.decoder σ.availOut = (ret, written, decoder))
    (hfits : σ.nextOut + written.length ≤ σ.outBuffer.length) :
    σ.inflate = some (ret, σ.wrote written decoder) := by
  simp only [Inflating.inflate, hcall, if_pos hfits]
  rfl

/-- A stream with room: what was written is a beginning of `data`, and what was written and the room
together are as many times the first room as the buffer is the first buffer, which had `size`
bytes. -/
structure Sound (contract : zlib.Contract) (data : List UInt8) (size unread : ℕ)
    (σ : Inflating zlib) : Prop where
  pending : contract.Pending σ.decoder (data.drop σ.totalOut) unread
  totalOut_le : σ.totalOut ≤ data.length
  take : σ.outBuffer.take σ.totalOut = data.take σ.totalOut
  nextOut : σ.nextOut = σ.totalOut
  room : ∃ m > 0, σ.outBuffer.length = m * size ∧ σ.totalOut + σ.availOut = m * u32 size

namespace Sound

variable {contract : zlib.Contract}

theorem room_le (h : Sound contract data size unread σ) :
    σ.totalOut + σ.availOut ≤ σ.outBuffer.length := by
  obtain ⟨m, -, hlength, htotal⟩ := h.room
  rw [hlength, htotal]
  exact Nat.mul_le_mul_left m (Nat.mod_le _ _)

/-- A turn starts with room for at least one byte. -/
theorem grow (h : Sound contract data size unread σ) (hdata : data.length < 4294967296)
    (hsize : size < 8589934592) (htwo : 2 ≤ u32 size) :
    Sound contract data size unread σ.grow ∧ 0 < σ.grow.availOut ∧
      σ.grow.totalOut = σ.totalOut := by
  unfold Inflating.grow
  split_ifs with hfull
  · obtain ⟨m, hm, hlength, htotal⟩ := h.room
    have hle := h.totalOut_le
    -- the quotient of `size` is 0 or 1
    have hquotient : m * size = m * u32 size ∨ m * size = m * u32 size + m * 4294967296 := by
      have hsplit : size = u32 size ∨ size = u32 size + 4294967296 := by
        unfold u32
        omega
      rcases hsplit with h' | h'
      · left
        exact congrArg (m * ·) h'
      · right
        rw [← Nat.mul_add, ← h']
    have htwice : m * 2 ≤ m * u32 size := Nat.mul_le_mul_left m htwo
    have hnew : usize (σ.outBuffer.length * 2) = 2 * m * size := by
      rw [hlength, usize_of_lt (by omega), Nat.mul_comm, Nat.mul_assoc]
    have havail : u32 (usizeSub (2 * m * size) σ.totalOut) = σ.totalOut := by
      rw [Nat.mul_assoc, usizeSub_of_le (by omega) (by omega)]
      unfold u32
      omega
    have hbuffer : σ.totalOut ≤ σ.outBuffer.length := (Nat.le_add_right _ _).trans h.room_le
    have hfits : σ.totalOut ≤ 2 * m * size := by
      rw [Nat.mul_assoc]
      omega
    have hsum : σ.totalOut + σ.totalOut = 2 * m * u32 size := by
      rw [Nat.mul_assoc]
      omega
    have hpos : 0 < σ.totalOut := by omega
    simp only [hnew, havail]
    refine ⟨⟨h.pending, hle, ?_, rfl, 2 * m, by omega, resize_length _ _, hsum⟩, hpos, trivial⟩
    exact (resize_take hbuffer hfits).trans h.take
  · exact ⟨h, Nat.pos_of_ne_zero hfull, rfl⟩

section Wrote

variable (decoder : zlib.Decoder) (h : Sound contract data size unread σ)
  (hpending : data.drop σ.totalOut = written ++ rest) (hroom : written.length ≤ σ.availOut)

include h hpending

theorem totalOut_add : σ.totalOut + written.length + rest.length = data.length := by
  have hle := h.totalOut_le
  have hlength : data.length - σ.totalOut = written.length + rest.length := by
    rw [← List.length_drop, hpending, List.length_append]
  omega

theorem wrote_totalOut (hdata : data.length < 4294967296) :
    (σ.wrote written decoder).totalOut = σ.totalOut + written.length := by
  have hle := h.totalOut_add hpending
  exact usize_of_lt (by omega)

include hroom

/-- What a call writes continues the beginning of `data`. -/
theorem wrote_take :
    (σ.wrote written decoder).outBuffer.take (σ.totalOut + written.length) =
      data.take (σ.totalOut + written.length) := by
  have hle := h.room_le
  show (overwrite σ.outBuffer σ.nextOut written).take _ = _
  rw [h.nextOut, overwrite_take (by omega), h.take, List.take_add, hpending, List.take_left]

/-- A call that writes the next bytes of `data` keeps the stream sound. -/
theorem wrote {unread' : ℕ} (hdata : data.length < 4294967296)
    (hdecoder : contract.Pending decoder rest unread') :
    Sound contract data size unread' (σ.wrote written decoder) := by
  have hbuffer := h.room_le
  have htotal := h.wrote_totalOut decoder hpending hdata
  have hdrop : data.drop (σ.totalOut + written.length) = rest := by
    rw [← List.drop_drop, hpending, List.drop_left]
  constructor
  case pending =>
    rw [htotal, hdrop]
    exact hdecoder
  case totalOut_le =>
    have hle := h.totalOut_add hpending
    omega
  case take =>
    rw [htotal]
    exact h.wrote_take decoder hpending hroom
  case nextOut =>
    rw [htotal, ← h.nextOut]
    rfl
  case room =>
    obtain ⟨m, hm, hlength, hsum⟩ := h.room
    refine ⟨m, hm, ?_, ?_⟩
    · rw [← hlength]
      exact overwrite_length (by rw [h.nextOut]; omega)
    · rw [htotal, ← hsum]
      show σ.totalOut + written.length + (σ.availOut - written.length) = _
      omega

end Wrote

/-- A call with room makes progress on what is left, or comes to its end. -/
theorem inflate (h : Sound contract data size unread σ) (hdata : data.length < 4294967296)
    (hroom : 0 < σ.availOut) :
    (∃ σ' unread', σ.inflate = some (.ok, σ') ∧ Sound contract data size unread' σ' ∧
      data.length - σ'.totalOut + unread' < data.length - σ.totalOut + unread) ∨
    ∃ σ', σ.inflate = some (.streamEnd, σ') ∧ resize σ'.outBuffer σ'.totalOut = data := by
  have hbuffer := h.room_le
  have hle := h.totalOut_le
  have hleft : (data.drop σ.totalOut).length = data.length - σ.totalOut := List.length_drop
  have hstep := contract.inflate_step _ _ _ σ.availOut h.pending
  rcases hcall : zlib.inflate σ.decoder σ.availOut with ⟨ret, written, decoder⟩
  rw [hcall] at hstep
  cases hstep with
  | progress _ rest unread' _ hpending hfits hread hprogress hdecoder =>
    left
    refine ⟨_, unread', inflate_eq_wrote hcall (by rw [h.nextOut]; omega),
      h.wrote decoder hpending hfits hdata hdecoder, ?_⟩
    rw [hpending, List.length_append] at hleft
    rw [h.wrote_totalOut decoder hpending hdata]
    cases hprogress with
    | inl hne =>
      have hpos := List.length_pos_of_ne_nil hne
      omega
    | inr hlt => omega
  | finish _ hfits =>
    right
    have hpending := (List.append_nil (data.drop σ.totalOut)).symm
    have hall := h.totalOut_add hpending
    have htake := h.wrote_take decoder hpending hfits
    rw [List.length_nil, Nat.add_zero] at hall
    have hfit : σ.nextOut + (data.drop σ.totalOut).length ≤ σ.outBuffer.length := by
      rw [h.nextOut]
      omega
    have hlength : data.length ≤
        (overwrite σ.outBuffer σ.nextOut (data.drop σ.totalOut)).length := by
      rw [overwrite_length hfit]
      omega
    refine ⟨_, inflate_eq_wrote hcall hfit, ?_⟩
    rw [hall, List.take_length] at htake
    rw [h.wrote_totalOut decoder hpending hdata, hall]
    exact (resize_of_le hlength).trans htake
  | stuck _ _ hnone => omega

end Sound

/-- With a turn for each byte that is left to write or to read the loop comes to the end of the
stream, with all of `data` in the buffer. -/
theorem loop_sound (contract : zlib.Contract) (hdata : data.length < 4294967296)
    (hsize : size < 8589934592) (htwo : 2 ≤ u32 size) {fuel : ℕ}
    (h : Sound contract data size unread σ)
    (hfuel : data.length - σ.totalOut + unread < fuel) :
    ∃ σ', loop fuel σ = some (.streamEnd, σ') ∧ resize σ'.outBuffer σ'.totalOut = data := by
  induction fuel generalizing σ unread with
  | zero => omega
  | succ fuel ih =>
    obtain ⟨hgrown, hroom, htotal⟩ := h.grow hdata hsize htwo
    rw [loop]
    rcases hgrown.inflate hdata hroom with ⟨σ', unread', hcall, h', hless⟩ | ⟨σ', hcall, hall⟩
    · have hturn := ih h' (by rw [htotal] at hless; omega)
      simpa only [hcall, Option.bind_eq_bind, Option.bind_some, if_pos] using hturn
    · simp [hcall, hall]

/-! ### A stream that never gets room -/

/-- A stream without room, whose buffer has a length that `static_cast<uInt>` makes zero. -/
structure Starved (contract : zlib.Contract) (data : List UInt8) (unread : ℕ)
    (σ : Inflating zlib) : Prop where
  pending : contract.Pending σ.decoder data unread
  availOut : σ.availOut = 0
  nextOut : σ.nextOut = 0
  totalOut : σ.totalOut = 0
  length : u32 σ.outBuffer.length = 0

namespace Starved

variable {contract : zlib.Contract}

/-- Twice a multiple of `2 ^ 32` is one. -/
theorem grow (h : Starved contract data unread σ) : Starved contract data unread σ.grow := by
  have hlength := h.length
  have hnew : u32 (usize (σ.outBuffer.length * 2)) = 0 := by
    unfold u32 usize at *
    omega
  have havail : u32 (usizeSub (usize (σ.outBuffer.length * 2)) σ.totalOut) = 0 := by
    rw [h.totalOut]
    unfold u32 usizeSub usize at *
    omega
  rw [Inflating.grow, if_pos h.availOut]
  constructor
  case pending => exact h.pending
  case availOut => exact havail
  case nextOut => exact h.totalOut
  case totalOut => exact h.totalOut
  case length =>
    show u32 (resize _ _).length = 0
    rw [resize_length, hnew]

section Wrote

variable {decoder : zlib.Decoder} (h : Starved contract data unread σ)

include h

theorem inflate_eq {ret : ReturnCode}
    (hcall : zlib.inflate σ.decoder σ.availOut = (ret, [], decoder)) :
    σ.inflate = some (ret, σ.wrote [] decoder) := by
  apply inflate_eq_wrote hcall
  rw [h.nextOut]
  exact Nat.zero_le _

theorem wrote_totalOut : (σ.wrote [] decoder).totalOut = 0 := by
  show usize (σ.totalOut + 0) = 0
  rw [h.totalOut]
  rfl

theorem wrote {unread' : ℕ} (hdecoder : contract.Pending decoder data unread') :
    Starved contract data unread' (σ.wrote [] decoder) := by
  constructor
  case pending => exact hdecoder
  case availOut =>
    show σ.availOut - 0 = 0
    rw [h.availOut]
  case nextOut => exact h.nextOut
  case totalOut => exact h.wrote_totalOut
  case length =>
    show u32 (overwrite σ.outBuffer σ.nextOut []).length = 0
    rw [overwrite_length (by rw [h.nextOut]; exact Nat.zero_le _), h.length]

end Wrote

/-- A call writes nothing; it comes to the end of the stream exactly if there is nothing to write.
-/
theorem inflate (h : Starved contract data unread σ) :
    (∃ σ' unread', σ.inflate = some (.ok, σ') ∧ Starved contract data unread' σ' ∧
      unread' < unread) ∨
    ∃ ret σ', σ.inflate = some (ret, σ') ∧ ret ≠ .ok ∧ (ret = .streamEnd ↔ data = []) ∧
      σ'.totalOut = 0 := by
  have hstep := contract.inflate_step _ _ _ σ.availOut h.pending
  rcases hcall : zlib.inflate σ.decoder σ.availOut with ⟨ret, written, decoder⟩
  rw [hcall, h.availOut] at hstep
  cases hstep with
  | progress _ rest unread' _ hpending hroom _ hprogress hdecoder =>
    left
    obtain rfl : written = [] := List.length_eq_zero_iff.mp (Nat.le_zero.mp hroom)
    obtain rfl : data = rest := hpending
    exact ⟨_, unread', h.inflate_eq hcall, h.wrote hdecoder, hprogress.resolve_left (· rfl)⟩
  | finish _ hroom =>
    right
    obtain rfl : data = [] := List.length_eq_zero_iff.mp (Nat.le_zero.mp hroom)
    exact ⟨_, _, h.inflate_eq hcall, by simp, by simp, h.wrote_totalOut⟩
  | stuck _ hpending _ =>
    right
    exact ⟨_, _, h.inflate_eq hcall, by simp, by simp [hpending], h.wrote_totalOut⟩

end Starved

/-- A stream that never gets room comes to its end exactly if there is nothing to write. -/
theorem loop_starved (contract : zlib.Contract) {fuel : ℕ} (h : Starved contract data unread σ)
    (hfuel : unread < fuel) :
    ∃ ret σ', loop fuel σ = some (ret, σ') ∧ (ret = .streamEnd ↔ data = []) ∧ σ'.totalOut = 0 := by
  induction fuel generalizing σ unread with
  | zero => omega
  | succ fuel ih =>
    rw [loop]
    rcases h.grow.inflate with
      ⟨σ', unread', hcall, h', hless⟩ | ⟨ret, σ', hcall, hret, hend, htotal⟩
    · have hturn := ih h' (by omega)
      simpa only [hcall, Option.bind_eq_bind, Option.bind_some, if_pos] using hturn
    · exact ⟨ret, σ', by simp [hcall, hret], hend, htotal⟩

/-! ### Fuel -/

/-- A loop that has ended does not change with more turns. -/
theorem loop_succ {fuel : ℕ} {result : ReturnCode × Inflating zlib}
    (h : loop fuel σ = some result) : loop (fuel + 1) σ = some result := by
  induction fuel generalizing σ with
  | zero => exact absurd h nofun
  | succ fuel ih =>
    rw [loop, Option.bind_eq_bind, Option.bind_eq_some_iff] at h ⊢
    obtain ⟨⟨ret, σ'⟩, hcall, hrest⟩ := h
    refine ⟨_, hcall, ?_⟩
    dsimp only at hrest ⊢
    split_ifs at hrest ⊢ with hret
    · exact ih hrest
    · exact hrest

theorem loop_mono {fuel fuel' : ℕ} {result : ReturnCode × Inflating zlib}
    (h : loop fuel σ = some result) (hle : fuel ≤ fuel') : loop fuel' σ = some result := by
  induction hle with
  | refl => exact h
  | step _ ih => exact loop_succ ih

end Inflating

/-! ### Inflating -/

variable {fuel fuel' : ℕ} {data expected : List UInt8} {format : Format}

theorem guessSize_lt {n : ℕ} (hn : n < 4294967296) : guessSize n < 8589934592 := by
  unfold guessSize usize
  split_ifs <;> omega

/-- The first `avail_out` is zero for a guess of `2 ^ 32` bytes only. -/
theorem u32_guessSize {n : ℕ} (hn : n ≠ 0) (hlt : n < 4294967296) :
    n = 2147483648 ∧ u32 (guessSize n) = 0 ∨ n ≠ 2147483648 ∧ 2 ≤ u32 (guessSize n) := by
  unfold guessSize u32 usize
  split_ifs <;> omega

/-- Runs of `zlib_inflate` that end agree. -/
theorem zlibInflate_unique {compressed : List UInt8} {result result' : Except String (List UInt8)}
    (h : zlibInflate zlib fuel compressed = some result)
    (h' : zlibInflate zlib fuel' compressed = some result') : result = result' := by
  unfold zlibInflate at h h'
  cases hinit : zlib.inflateInit (compressed.take (u32 compressed.length)) with
  | none =>
    rw [hinit] at h h'
    exact Option.some.inj (h.symm.trans h')
  | some decoder =>
    rw [hinit] at h h'
    simp only [Option.bind_eq_bind, Option.bind_eq_some_iff] at h h'
    obtain ⟨ended, hloop, hresult⟩ := h
    obtain ⟨ended', hloop', hresult'⟩ := h'
    have hended : ended = ended' := by
      rcases Nat.le_total fuel fuel' with hle | hle
      · exact Option.some.inj ((Inflating.loop_mono hloop hle).symm.trans hloop')
      · exact Option.some.inj (hloop.symm.trans (Inflating.loop_mono hloop' hle))
    rw [hended] at hresult
    exact Option.some.inj (hresult.symm.trans hresult')

/-- The stream that `zlib_inflate` opens on `n` bytes. -/
def opened (decoder : zlib.Decoder) (n : ℕ) : Inflating zlib where
  decoder := decoder
  outBuffer := resize [] (guessSize n)
  nextOut := 0
  availOut := u32 (guessSize n)
  totalOut := 0

theorem zlibInflate_eq {compressed : List UInt8} {decoder : zlib.Decoder}
    (hinit : zlib.inflateInit compressed = some decoder) (hlength : compressed.length < 4294967296)
    {ret : ReturnCode} {σ : Inflating zlib}
    (hloop : (opened decoder compressed.length).loop fuel = some (ret, σ)) :
    zlibInflate zlib fuel compressed = some (if ret = .streamEnd
      then .ok (resize σ.outBuffer σ.totalOut)
      else .error "Failed to inflate: corrupt data or stream error") := by
  simp only [opened] at hloop
  simp only [zlibInflate, u32_of_lt hlength, List.take_length, hinit, resize_length, hloop,
    Option.bind_eq_bind, Option.bind_some]
  split_ifs <;> simp_all

section Encoded

variable (contract : zlib.Contract)
  (hlength : (contract.encode format data).length < 4294967296)

include hlength

theorem zlibInflate_of_room (hdata : data.length < 4294967296)
    (hshort : (contract.encode format data).length ≠ 2147483648) :
    ∃ fuel, zlibInflate zlib fuel (contract.encode format data) = some (.ok data) := by
  have hne : (contract.encode format data).length ≠ 0 := by
    rw [ne_eq, List.length_eq_zero_iff]
    exact contract.encode_ne_nil format data
  have htwo : 2 ≤ u32 (guessSize (contract.encode format data).length) := by
    rcases u32_guessSize hne hlength with h | h
    · exact absurd h.1 hshort
    · exact h.2
  obtain ⟨decoder, unread, hinit, hpending⟩ := contract.inflate_start format data
  have hsound : Inflating.Sound contract data (guessSize (contract.encode format data).length)
      unread (opened decoder (contract.encode format data).length) :=
    ⟨hpending, Nat.zero_le _, rfl, rfl, 1, one_pos, by simp [opened], by simp [opened]⟩
  obtain ⟨σ, hloop, hall⟩ := Inflating.loop_sound contract hdata (guessSize_lt hlength) htwo hsound
    (Nat.lt_succ_self _)
  refine ⟨_, (zlibInflate_eq hinit hlength hloop).trans ?_⟩
  rw [if_pos rfl, hall]

theorem zlibInflate_of_no_room (hlong : (contract.encode format data).length = 2147483648) :
    ∃ fuel, zlibInflate zlib fuel (contract.encode format data) = some (if data = [] then .ok []
      else .error "Failed to inflate: corrupt data or stream error") := by
  have hzero : u32 (guessSize (contract.encode format data).length) = 0 := by
    rw [hlong]
    decide
  obtain ⟨decoder, unread, hinit, hpending⟩ := contract.inflate_start format data
  have hstarved : Inflating.Starved contract data unread
      (opened decoder (contract.encode format data).length) := by
    refine ⟨hpending, hzero, rfl, rfl, ?_⟩
    show u32 (resize _ _).length = 0
    rw [resize_length, hzero]
  obtain ⟨ret, σ, hloop, hend, htotal⟩ :=
    Inflating.loop_starved contract hstarved (Nat.lt_succ_self unread)
  refine ⟨_, (zlibInflate_eq hinit hlength hloop).trans ?_⟩
  rw [htotal, resize_of_le (Nat.zero_le _), List.take_zero]
  simp only [hend]

/-- Inflating an encoding gives what was encoded, unless the first `avail_out` is zero. -/
theorem zlibInflate_encode_iff (hdata : data.length < 4294967296) :
    (∃ fuel, zlibInflate zlib fuel (contract.encode format data) = some (.ok expected)) ↔
      data = expected ∧ ((contract.encode format data).length ≠ 2147483648 ∨ data = []) := by
  by_cases hlong : (contract.encode format data).length = 2147483648
  · obtain ⟨fuel, hrun⟩ := zlibInflate_of_no_room contract hlength hlong
    constructor
    · rintro ⟨fuel', hrun'⟩
      have hsame := zlibInflate_unique hrun hrun'
      split_ifs at hsame with hdata
      rw [hdata]
      exact ⟨Except.ok.inj hsame, .inr rfl⟩
    · rintro ⟨rfl, hne | hdata⟩
      · exact absurd hlong hne
      · rw [if_pos hdata, ← hdata] at hrun
        exact ⟨fuel, hrun⟩
  · obtain ⟨fuel, hrun⟩ := zlibInflate_of_room contract hlength hdata hlong
    constructor
    · rintro ⟨fuel', hrun'⟩
      exact ⟨Except.ok.inj (zlibInflate_unique hrun hrun'), .inl hlong⟩
    · rintro ⟨rfl, -⟩
      exact ⟨fuel, hrun⟩

end Encoded

/-- Whichever function deflated, inflating gives the input back exactly if its length fits in 32
bits and there is room in the first buffer. -/
theorem zlibInflate_deflateWith_iff (contract : zlib.Contract) {extra : ℕ}
    {initMessage message : String} {compressed : List UInt8}
    (h : deflateWith zlib format extra initMessage message data = .ok compressed) :
    (∃ fuel, zlibInflate zlib fuel compressed = some (.ok data)) ↔
      data.length < 4294967296 ∧
        ((contract.encode format data).length ≠ 2147483648 ∨ data = []) := by
  have hlength := deflateWith_length_lt contract h
  obtain ⟨-, rfl, -⟩ := (deflateWith_eq_ok_iff contract).mp h
  rw [zlibInflate_encode_iff contract hlength (narrowed_length_lt data), narrowed_eq_self_iff]
  apply and_congr_right
  intro hdata
  rw [narrowed_of_lt hdata]

theorem inflate_deflate_iff (contract : zlib.Contract) (data compressed : List UInt8) :
    (zlibDeflate zlib data = .ok compressed →
      ((∃ fuel, zlibInflate zlib fuel compressed = some (.ok data)) ↔
        data.length < 4294967296 ∧
          ((contract.encode .zlib data).length ≠ 2147483648 ∨ data = []))) ∧
    (gzipDeflate zlib data = .ok compressed →
      ((∃ fuel, gzipInflate zlib fuel compressed = some (.ok data)) ↔
        data.length < 4294967296 ∧
          ((contract.encode .gzip data).length ≠ 2147483648 ∨ data = []))) :=
  ⟨zlibInflate_deflateWith_iff contract, zlibInflate_deflateWith_iff contract⟩

/-! ### The failing inputs -/

namespace Sample

/-- What zlib makes of the empty input. -/
def empty : Format → List UInt8
  | .zlib => [120, 156, 3, 0, 0, 0, 0, 1]
  | .gzip => [31, 139, 8, 0, 0, 0, 0, 0, 0, 3, 3, 0, 0, 0, 0, 0, 0, 0, 0, 0]

/-- What zlib makes of the bytes 1, 2 and 3. -/
def oneTwoThree : Format → List UInt8
  | .zlib => [120, 156, 99, 100, 98, 6, 0, 0, 13, 0, 7]
  | .gzip =>
    [31, 139, 8, 0, 0, 0, 0, 0, 0, 3, 99, 100, 98, 6, 0, 29, 128, 188, 85, 3, 0, 0, 0]

/-- An encoding that is zlib's for these two inputs. -/
def encode (format : Format) (data : List UInt8) : List UInt8 :=
  if data = [1, 2, 3] then oneTwoThree format else empty format ++ data

def decode (compressed : List UInt8) : List UInt8 :=
  if compressed = oneTwoThree .zlib ∨ compressed = oneTwoThree .gzip then [1, 2, 3]
  else if empty .zlib <+: compressed then compressed.drop 8
  else compressed.drop 20

theorem decode_encode (format : Format) (data : List UInt8) :
    decode (encode format data) = data := by
  unfold encode
  split_ifs with h
  · rw [h]
    cases format <;> decide
  · cases format <;> simp [decode, empty, oneTwoThree]

theorem encode_ne_nil (format : Format) (data : List UInt8) : encode format data ≠ [] := by
  unfold encode
  split_ifs <;> cases format <;> simp [empty, oneTwoThree]

theorem take_ne_nil {pending : List UInt8} {availOut : ℕ} (hroom : ¬ pending.length ≤ availOut)
    (hnone : availOut ≠ 0) : pending.take availOut ≠ [] := by
  apply List.ne_nil_of_length_pos
  rw [List.length_take]
  omega

/-- A zlib with that encoding, which writes as much of what is left as there is room for. -/
def codec : Zlib where
  Decoder := List UInt8
  deflateInit _ := true
  deflateBound format n :=
    n + n / 4096 + n / 16384 + n / 33554432 + match format with | .zlib => 13 | .gzip => 25
  deflate format data availOut :=
    if (encode format data).length ≤ availOut then (.streamEnd, encode format data)
    else (.ok, (encode format data).take availOut)
  inflateInit compressed := some (decode compressed)
  inflate pending availOut :=
    if pending.length ≤ availOut then (.streamEnd, pending, [])
    else if availOut = 0 then (.bufError, [], pending)
    else (.ok, pending.take availOut, pending.drop availOut)

def contract : codec.Contract where
  encode := encode
  Pending decoder pending _ := decoder = pending
  encode_ne_nil := encode_ne_nil
  deflate_enough format data availOut h := if_pos h
  deflate_short format data availOut h := by
    simp [codec, Nat.not_le.mpr h]
  inflate_start format data := ⟨data, 0, congrArg some (decode_encode format data), rfl⟩
  inflate_step decoder pending unread availOut hpending := by
    subst hpending
    simp only [codec]
    split_ifs with hroom hnone
    · exact .finish _ hroom
    · refine .stuck _ ?_ hnone
      rintro rfl
      exact hroom (Nat.zero_le _)
    · refine .progress _ (decoder.drop availOut) unread _ (List.take_append_drop _ _).symm
        (List.length_take_le _ _) le_rfl (.inl (take_ne_nil hroom hnone)) rfl

end Sample

theorem inflate_deflate_iff_three :
    (∃ fuel, zlibInflate Sample.codec fuel (Sample.oneTwoThree .zlib) = some (.ok [1, 2, 3])) ∧
    ∃ fuel, gzipInflate Sample.codec fuel (Sample.oneTwoThree .gzip) = some (.ok [1, 2, 3]) := by
  have hzlib : zlibDeflate Sample.codec [1, 2, 3] = .ok (Sample.oneTwoThree .zlib) :=
    (deflateWith_eq_ok_iff Sample.contract).mpr ⟨rfl, rfl, by decide⟩
  have hgzip : gzipDeflate Sample.codec [1, 2, 3] = .ok (Sample.oneTwoThree .gzip) :=
    (deflateWith_eq_ok_iff Sample.contract).mpr ⟨rfl, rfl, by decide⟩
  constructor
  · apply ((inflate_deflate_iff Sample.contract _ _).1 hzlib).mpr
    exact ⟨by decide, .inl (by decide)⟩
  · apply ((inflate_deflate_iff Sample.contract _ _).2 hgzip).mpr
    exact ⟨by decide, .inl (by decide)⟩

/-- All `2 ^ 32` bytes are dropped: deflating them succeeds, with what inflates to nothing. -/
theorem deflate_drops :
    zlibDeflate Sample.codec (List.replicate 4294967296 0) = .ok (Sample.empty .zlib) ∧
      (∃ fuel, zlibInflate Sample.codec fuel (Sample.empty .zlib) = some (.ok [])) ∧
      ∀ fuel, zlibInflate Sample.codec fuel (Sample.empty .zlib) ≠
        some (.ok (List.replicate 4294967296 0)) := by
  have hencode : Sample.contract.encode .zlib [] = Sample.empty .zlib := by decide
  have hinflate (expected : List UInt8) :
      (∃ fuel, zlibInflate Sample.codec fuel (Sample.empty .zlib) = some (.ok expected)) ↔
        [] = expected ∧ ((Sample.empty .zlib).length ≠ 2147483648 ∨ [] = ([] : List UInt8)) := by
    rw [← hencode]
    exact zlibInflate_encode_iff Sample.contract (by decide) (by decide)
  have hlength : (List.replicate 4294967296 (0 : UInt8)).length = 4294967296 :=
    List.length_replicate
  refine ⟨?_, (hinflate []).mpr ⟨rfl, .inr rfl⟩, ?_⟩
  · have hnarrowed : narrowed (List.replicate 4294967296 0) = [] := by
      apply List.eq_nil_of_length_eq_zero
      rw [narrowed_length, hlength]
      rfl
    rw [zlibDeflate, deflateWith_eq_ok_iff Sample.contract, hnarrowed, hlength]
    exact ⟨rfl, hencode.symm, by decide⟩
  · intro fuel hrun
    have hnil := ((hinflate _).mp ⟨fuel, hrun⟩).1
    have := congrArg List.length hnil
    rw [hlength] at this
    exact absurd this (by decide)

end DataOps

end IACore
