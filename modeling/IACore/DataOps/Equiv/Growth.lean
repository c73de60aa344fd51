import IACore.DataOps.Equiv.Compression

/-!
# The growth loop of `zlib_inflate`

For any stream that keeps the promises of `Zlib.Streaming`, valid input or not.  Between two turns
the buffer starts with what has been written, and `next_out` and `avail_out` are the rest of it
(`Filled`); growing and a call of `inflate` keep that.  Each turn that goes on uses up a byte of
input or of output, so the loop ends, and what it returns is what was written (`zlibInflate_grows`).
-/

namespace IACore

namespace DataOps

variable {zlib : Zlib}

namespace Inflating

variable {σ : Inflating zlib} {written : List UInt8}

/-- The buffer starts with `written`, and the rest of it is the room. -/
structure Filled (σ : Inflating zlib) (written : List UInt8) : Prop where
  totalOut : σ.totalOut = written.length
  nextOut : σ.nextOut = σ.totalOut
  availOut : σ.totalOut + σ.availOut = σ.outBuffer.length
  take : σ.outBuffer.take σ.totalOut = written

/-- Growing moves no byte that was written. -/
theorem Filled.grow (h : Filled σ written) (hlength : σ.outBuffer.length < 4294967296)
    (hgrown : σ.grow.outBuffer.length < 4294967296) : Filled σ.grow written := by
  unfold Inflating.grow at hgrown ⊢
  split_ifs with hfull
  · rw [if_pos hfull, resize_length] at hgrown
    have hnew : usize (σ.outBuffer.length * 2) = σ.outBuffer.length * 2 := usize_of_lt (by omega)
    have hsum := h.availOut
    have havail : u32 (usizeSub (σ.outBuffer.length * 2) σ.totalOut) = σ.outBuffer.length := by
      rw [usizeSub_of_le (by omega) (by omega), u32_of_lt (by omega)]
      omega
    simp only [hnew, havail] at hgrown ⊢
    refine ⟨h.totalOut, rfl, ?_, ?_⟩
    · show σ.totalOut + σ.outBuffer.length = (resize σ.outBuffer (σ.outBuffer.length * 2)).length
      rw [resize_length]
      omega
    · show (resize σ.outBuffer (σ.outBuffer.length * 2)).take σ.totalOut = written
      rw [resize_take (by omega) (by omega)]
      exact h.take
  · exact h

/-- A call that writes no more than there is room for continues what was written. -/
theorem Filled.wrote (h : Filled σ written) (hlength : σ.outBuffer.length < 4294967296)
    {more : List UInt8} (hroom : more.length ≤ σ.availOut) (decoder : zlib.Decoder) :
    Filled (σ.wrote more decoder) (written ++ more) := by
  have hsum := h.availOut
  have htotal : (σ.wrote more decoder).totalOut = σ.totalOut + more.length :=
    usize_of_lt (by omega)
  refine ⟨?_, ?_, ?_, ?_⟩
  · rw [htotal, h.totalOut, List.length_append]
  · rw [htotal, ← h.nextOut]
    rfl
  · rw [htotal]
    show _ + (σ.availOut - more.length) = (overwrite σ.outBuffer σ.nextOut more).length
    rw [overwrite_length (by rw [h.nextOut]; omega)]
    omega
  · rw [htotal]
    show (overwrite σ.outBuffer σ.nextOut more).take _ = _
    rw [h.nextOut, overwrite_take (by omega), h.take]

theorem Filled.inflate_eq (h : Filled σ written) (streaming : zlib.Streaming) :
    σ.inflate = some ((zlib.inflate σ.decoder σ.availOut).1,
      σ.wrote (zlib.inflate σ.decoder σ.availOut).2.1
        (zlib.inflate σ.decoder σ.availOut).2.2) := by
  have hroom := streaming.written_le σ.decoder σ.availOut
  have hsum := h.availOut
  exact inflate_eq_wrote rfl (by rw [h.nextOut]; omega)

/-- What a stream may still read and write. -/
def left (streaming : zlib.Streaming) (σ : Inflating zlib) : ℕ :=
  streaming.unread σ.decoder + streaming.unwritten σ.decoder

/-- A call that returns `Z_OK` uses some of it up. -/
theorem left_lt (streaming : zlib.Streaming) (σ : Inflating zlib)
    (hok : (zlib.inflate σ.decoder σ.availOut).1 = .ok) :
    left streaming (σ.wrote (zlib.inflate σ.decoder σ.availOut).2.1
      (zlib.inflate σ.decoder σ.availOut).2.2) < left streaming σ := by
  have hread := streaming.unread_le σ.decoder σ.availOut
  have hwrite := streaming.unwritten_le σ.decoder σ.availOut
  show streaming.unread (zlib.inflate σ.decoder σ.availOut).2.2 +
    streaming.unwritten (zlib.inflate σ.decoder σ.availOut).2.2 < left streaming σ
  unfold left
  rcases streaming.progress σ.decoder σ.availOut hok with hne | hlt
  · have hpos := List.length_pos_of_ne_nil hne
    omega
  · omega

theorem left_grow (streaming : zlib.Streaming) (σ : Inflating zlib) :
    left streaming σ.grow = left streaming σ := by
  unfold Inflating.grow
  split_ifs <;> rfl

/-- What the calls of a loop write, all together. -/
def output (calls : List (Inflating zlib × List UInt8)) : List UInt8 := calls.flatMap Prod.snd

theorem output_cons (call : Inflating zlib × List UInt8) (calls : List _) :
    output (call :: calls) = call.2 ++ output calls := rfl

theorem calls_succ {ret : ReturnCode} {σ' : Inflating zlib}
    (hcall : σ.grow.inflate = some (ret, σ')) (fuel : ℕ) :
    calls (fuel + 1) σ = (σ.grow, (zlib.inflate σ.grow.decoder σ.grow.availOut).2.1) ::
      if ret = .ok then calls fuel σ' else [] := by
  rw [calls, hcall]
  cases ret <;> rfl

theorem loop_succ_eq {ret : ReturnCode} {σ' : Inflating zlib}
    (hcall : σ.grow.inflate = some (ret, σ')) (fuel : ℕ) :
    loop (fuel + 1) σ = if ret = .ok then loop fuel σ' else some (ret, σ') := by
  rw [loop, hcall]
  rfl

/-- The loop ends; before each call the buffer starts with what the calls before it have written,
and at the end with what all of them have. -/
theorem loop_grows (streaming : zlib.Streaming) (fuel : ℕ) (h : Filled σ written)
    (hlength : σ.outBuffer.length < 4294967296)
    (hbuffers : ∀ fuel, ∀ call ∈ calls fuel σ, call.1.outBuffer.length < 4294967296)
    (hfuel : left streaming σ < fuel) :
    (∃ ret σ', loop fuel σ = some (ret, σ') ∧ Filled σ' (written ++ output (calls fuel σ))) ∧
      ∀ i τ more, (calls fuel σ)[i]? = some (τ, more) →
        Filled τ (written ++ output ((calls fuel σ).take i)) := by
  -- On the fuel, which bounds what is left.
  induction fuel generalizing σ written with
  | zero => omega
  | succ fuel ih =>
    have hgrown : σ.grow.outBuffer.length < 4294967296 := hbuffers 1 _ List.mem_cons_self
    have hfilled := h.grow hlength hgrown
    have hcall := hfilled.inflate_eq streaming
    have hroom := streaming.written_le σ.grow.decoder σ.grow.availOut
    have hleft := left_lt streaming σ.grow
    have hsucc := calls_succ hcall
    rw [loop_succ_eq hcall, hsucc]
    generalize (zlib.inflate σ.grow.decoder σ.grow.availOut).1 = ret at hcall hleft hsucc ⊢
    generalize (zlib.inflate σ.grow.decoder σ.grow.availOut).2.1 = more at hroom hcall hleft hsucc ⊢
    generalize (zlib.inflate σ.grow.decoder σ.grow.availOut).2.2 = decoder at hcall hleft hsucc ⊢
    have hwrote := hfilled.wrote hgrown hroom decoder
    have hsum := hfilled.availOut
    have hsame : (σ.grow.wrote more decoder).outBuffer.length = σ.grow.outBuffer.length :=
      overwrite_length (by rw [hfilled.nextOut]; omega)
    have hfirst : ∀ rest τ more', ((σ.grow, more) :: rest)[0]? = some (τ, more') →
        Filled τ (written ++ output (((σ.grow, more) :: rest).take 0)) := by
      rintro rest τ more' ⟨rfl, rfl⟩
      simpa [output] using hfilled
    by_cases hok : ret = .ok
    · -- another turn
      simp only [hok, if_true] at hsucc ⊢
      obtain ⟨⟨ret', σ', hloop, hend⟩, hcalls⟩ := ih hwrote (by rw [hsame]; exact hgrown)
        (fun fuel' call hmem => hbuffers (fuel' + 1) call (by
          rw [hsucc]
          exact List.mem_cons_of_mem _ hmem))
        (by
          have hless := hleft hok
          rw [left_grow] at hless
          omega)
      rw [List.append_assoc] at hend
      refine ⟨⟨ret', σ', hloop, hend⟩, ?_⟩
      rintro (_ | i) τ more' hi
      · exact hfirst _ τ more' hi
      · have hnext := hcalls i τ more' hi
        rwa [List.append_assoc] at hnext
    · simp only [hok, if_false]
      refine ⟨⟨ret, _, rfl, ?_⟩, ?_⟩
      · rw [output_cons]
        simpa [output] using hwrote
      · rintro (_ | i) τ more' hi
        · exact hfirst _ τ more' hi
        · cases hi

/-- The first buffer, before its growth, is no larger than the first call's. -/
theorem opened_length {decoder : zlib.Decoder} {n : ℕ} (hn : n < 4294967296)
    (hgrown : (opened decoder n).grow.outBuffer.length < 4294967296) :
    guessSize n < 4294967296 := by
  have hlt := guessSize_lt hn
  unfold Inflating.grow opened at hgrown
  dsimp only at hgrown
  split_ifs at hgrown
  · rw [resize_length, resize_length, usize_of_lt (by omega)] at hgrown
    omega
  · rwa [resize_length] at hgrown

theorem opened_filled (decoder : zlib.Decoder) {n : ℕ} (hguess : guessSize n < 4294967296) :
    Filled (opened decoder n) [] where
  totalOut := rfl
  nextOut := rfl
  availOut := by
    show 0 + u32 (guessSize n) = (resize [] (guessSize n)).length
    rw [u32_of_lt hguess, resize_length, Nat.zero_add]
  take := List.take_zero

end Inflating

open Inflating

/-- For every stream that keeps its promises, opened on fewer than `2 ^ 32` bytes and with every
buffer below that: the loop of `zlib_inflate` ends; at every call of `inflate` the buffer starts
with what has been written, with `next_out` and `avail_out` the rest of it; and the function returns
all that the calls wrote exactly if the last one returned `Z_STREAM_END`. -/
theorem zlibInflate_grows (streaming : zlib.Streaming) {data : List UInt8} {decoder : zlib.Decoder}
    (hinit : zlib.inflateInit data = some decoder) (hdata : data.length < 4294967296)
    (hbuffers : ∀ fuel, ∀ call ∈ calls fuel (opened decoder data.length),
      call.1.outBuffer.length < 4294967296) :
    ∃ turns, ∀ fuel, turns ≤ fuel →
      (∀ i σ written, (calls fuel (opened decoder data.length))[i]? = some (σ, written) →
        Filled σ (output ((calls fuel (opened decoder data.length)).take i))) ∧
      ∃ ret σ, loop fuel (opened decoder data.length) = some (ret, σ) ∧
        zlibInflate zlib fuel data = some (if ret = .streamEnd
          then .ok (output (calls fuel (opened decoder data.length)))
          else .error "Failed to inflate: corrupt data or stream error") := by
  have hguess := opened_length hdata (hbuffers 1 _ List.mem_cons_self)
  have hfilled := opened_filled decoder hguess
  refine ⟨left streaming (opened decoder data.length) + 1, fun fuel hfuel => ?_⟩
  obtain ⟨⟨ret, σ, hloop, hend⟩, hcalls⟩ := loop_grows streaming fuel hfilled
    ((resize_length _ _).trans_lt hguess) hbuffers hfuel
  refine ⟨hcalls, ret, σ, hloop, ?_⟩
  have hlength : σ.totalOut ≤ σ.outBuffer.length := by
    have hsum := hend.availOut
    omega
  rw [zlibInflate_eq hinit hdata hloop, resize_of_le hlength, hend.take]
  rfl

namespace Sample

/-- What zlib makes of a hundred zeros. -/
def hundred : List UInt8 := [120, 156, 99, 96, 160, 61, 0, 0, 0, 100, 0, 1]

/-- A zlib that inflates them, as much at a time as there is room for. -/
def inflater : Zlib := { codec with inflateInit := fun _ => some (List.replicate 100 0) }

theorem take_add_drop_length (pending : List UInt8) (availOut : ℕ) :
    (pending.take availOut).length + (pending.drop availOut).length = pending.length := by
  rw [← List.length_append, List.take_append_drop]

def streaming : inflater.Streaming where
  unread _ := 0
  unwritten := List.length
  written_le pending availOut := by
    simp only [inflater, codec]
    split_ifs with hroom hnone
    · exact hroom
    · exact Nat.zero_le _
    · exact List.length_take_le _ _
  unread_le _ _ := le_rfl
  unwritten_le pending availOut := by
    simp only [inflater, codec]
    split_ifs with hroom hnone
    · exact le_rfl
    · exact (Nat.zero_add _).le
    · exact (take_add_drop_length pending availOut).le
  progress pending availOut := by
    simp only [inflater, codec]
    split_ifs with hroom hnone
    · exact nofun
    · exact nofun
    · exact fun _ => .inl (take_ne_nil hroom hnone)

def decoder : inflater.Decoder := List.replicate 100 (0 : UInt8)

/-- Three calls, with 48, 96 and 192 bytes. -/
theorem hundred_buffers : ∀ fuel, ∀ call ∈ calls fuel (opened decoder hundred.length),
    call.1.outBuffer.length < 4294967296
  | 0 => by decide
  | 1 => by decide
  | 2 => by decide
  | fuel + 3 => by
    show ∀ call ∈ calls 3 (opened decoder hundred.length), call.1.outBuffer.length < 4294967296
    decide

end Sample

/-- The buffer grows twice before a hundred zeros are written. -/
theorem zlibInflate_grows_hundred :
    ∃ turns, ∀ fuel, turns ≤ fuel →
      (∀ i σ written,
        (calls fuel (opened Sample.decoder Sample.hundred.length))[i]? = some (σ, written) →
        Filled σ (output ((calls fuel (opened Sample.decoder Sample.hundred.length)).take i))) ∧
      ∃ ret σ, loop fuel (opened Sample.decoder Sample.hundred.length) = some (ret, σ) ∧
        zlibInflate Sample.inflater fuel Sample.hundred = some (if ret = .streamEnd
          then .ok (output (calls fuel (opened Sample.decoder Sample.hundred.length)))
          else .error "Failed to inflate: corrupt data or stream error") :=
  zlibInflate_grows Sample.streaming rfl (by decide) Sample.hundred_buffers

end DataOps

end IACore
