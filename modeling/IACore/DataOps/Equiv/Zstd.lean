import IACore.DataOps.Equiv.Compression
import IACore.DataOps.Zstd

/-!
# Inflating zstd frames

What `zstd_deflate` writes tells its size, so that one call inflates it, for sources of every length
(`zstdInflate_encode`).  In the loop for other frames the buffer always starts with what has been
written and has room after it (`Filled`), as it is doubled when it is full; so every call finds
room, and the loop ends with everything written or with the error of zstd (`loop_filled`).
-/

namespace IACore

namespace DataOps

variable {zstd : Zstd} (contract : zstd.Contract)

/-- A source that fits in memory is deflated, and inflated again without the loop. -/
theorem zstdInflate_encode {data : List UInt8} (hdata : data.length < 9223372036854775808) :
    zstdDeflate zstd data = .ok (contract.encode data) ∧
      ∀ fuel, zstdInflate zstd fuel (contract.encode data) = some (.ok data) := by
  constructor
  · have hbound : usize (zstd.compressBound data.length) = zstd.compressBound data.length :=
      usize_of_lt (contract.compressBound_lt _ hdata)
    have hfits : (contract.encode data).length ≤
        (resize [] (zstd.compressBound data.length)).length := by
      rw [resize_length]
      exact contract.encode_le data
    rw [zstdDeflate, hbound]
    simp only [contract.compress_enough data _ (Nat.le_refl _), resize_overwrite_zero hfits]
  · intro fuel
    have hsize : usize data.length = data.length := usize_of_lt (by omega)
    have hwhole : overwrite (resize [] data.length) 0 data = data := by
      have hlength : (overwrite (resize [] data.length) 0 data).length = data.length := by
        rw [overwrite_length (by rw [resize_length]; omega), resize_length]
      have hcut : resize (overwrite (resize [] data.length) 0 data) data.length = data :=
        resize_overwrite_zero (by rw [resize_length])
      rw [resize_of_le (by rw [hlength])] at hcut
      rwa [List.take_of_length_le (by rw [hlength])] at hcut
    rw [zstdInflate, contract.size_encode]
    simp only [hsize, resize_length, contract.decompress_encode data _ (Nat.le_refl _), hwhole]

namespace Decoding

variable {σ : Decoding zstd} {outcome : Option String} {content written rest pending : List UInt8}
  {left : ℕ}

/-- The buffer starts with `written`, and there is room after it. -/
structure Filled (σ : Decoding zstd) (written : List UInt8) : Prop where
  pos : σ.pos = written.length
  size : σ.size = σ.outBuffer.length
  room : σ.pos < σ.size
  take : σ.outBuffer.take σ.pos = written

/-- A call that has written no more than there was room for, and the growth after it. -/
theorem Filled.turn (h : Filled σ written) {more : List UInt8}
    (hroom : more.length ≤ σ.size - σ.pos)
    (hsmall : (written ++ more).length < 4611686018427387904) (decoder : zstd.Decoder) :
    Filled (σ.wrote more decoder).grow (written ++ more) := by
  have hlt := h.room
  have hsize := h.size
  have hlength : (overwrite σ.outBuffer σ.pos more).length = σ.outBuffer.length :=
    overwrite_length (by omega)
  have htake : (overwrite σ.outBuffer σ.pos more).take (σ.pos + more.length) = written ++ more := by
    rw [overwrite_take (by omega), h.take]
  have hpos : σ.pos + more.length = (written ++ more).length := by
    rw [List.length_append, h.pos]
  unfold grow wrote
  dsimp only
  split_ifs with hfull
  · have hdouble : usize ((overwrite σ.outBuffer σ.pos more).length * 2) =
        σ.outBuffer.length * 2 := by
      rw [hlength, usize_of_lt (by omega)]
    rw [hdouble]
    refine ⟨hpos, (resize_length _ _).symm, ?_, ?_⟩
    · show σ.pos + more.length < σ.outBuffer.length * 2
      omega
    · show (resize _ _).take (σ.pos + more.length) = _
      rw [resize_take (by omega) (by omega), htake]
  · refine ⟨hpos, by rw [hlength, hsize], ?_, htake⟩
    show σ.pos + more.length < σ.size
    omega

/-- The loop ends as the stream does, with all that the stream writes in the buffer. -/
theorem loop_filled (fuel : ℕ) (h : Filled σ written)
    (hpending : contract.Pending σ.decoder outcome rest left)
    (hsmall : (written ++ rest).length < 4611686018427387904) (hfuel : left < fuel) :
    ∃ σ', loop fuel σ = some (answer outcome σ') ∧
      (outcome = none → Filled σ' (written ++ rest)) := by
  induction fuel generalizing σ written rest left with
  | zero => omega
  | succ fuel ih =>
    have hlt := h.room
    have hsize := h.size
    have hstep := contract.stream_step _ _ _ _ (σ.size - σ.pos) (by omega) hpending
    cases hcall : zstd.decompressStream σ.decoder (σ.size - σ.pos) with
    | error name =>
      rw [hcall] at hstep
      cases hstep with
      | fail _ houtcome =>
        rw [houtcome]
        exact ⟨σ, by simp only [loop, hcall, answer], nofun⟩
    | ok result =>
      obtain ⟨ret, more, decoder⟩ := result
      rw [hcall] at hstep
      cases hstep with
      | more _ _ rest' left' _ hhint heq hroom hleft hdecoder =>
        have hsmall' : (written ++ more).length < 4611686018427387904 := by
          rw [heq, ← List.append_assoc, List.length_append] at hsmall
          omega
        have hnext := ih (h.turn hroom hsmall' decoder)
          (by
            have hgrow : (σ.wrote more decoder).grow.decoder = decoder := by
              unfold grow
              split_ifs <;> rfl
            rw [hgrow]
            exact hdecoder)
          (by rwa [List.append_assoc, ← heq]) (by omega)
        rw [List.append_assoc, ← heq] at hnext
        have hfits : σ.pos + more.length ≤ σ.outBuffer.length := by omega
        simpa only [loop, hcall, if_pos hfits, if_pos hhint] using hnext
      | finish _ houtcome hroom =>
        have hfits : σ.pos + rest.length ≤ σ.outBuffer.length := by omega
        refine ⟨_, ?_, fun _ => h.turn hroom hsmall decoder⟩
        simp only [loop, hcall, if_pos hfits, ne_eq, not_true, if_false, houtcome, answer]

end Decoding

/-- Whatever fits in memory is deflated and inflated again, and a frame that does not tell its size
is inflated to its content, or fails as zstd does, however zstd portions it out. -/
theorem zstd_exact :
    (∀ data : List UInt8, data.length < 9223372036854775808 → ∃ compressed,
      zstdDeflate zstd data = .ok compressed ∧
        ∀ fuel, zstdInflate zstd fuel compressed = some (.ok data)) ∧
    ∀ (frame content : List UInt8) (outcome : Option String) (left : ℕ),
      frame.length < 4611686018427387904 → content.length < 4611686018427387904 →
      zstd.getFrameContentSize frame = .unknown →
      contract.Pending (zstd.createDCtx frame) outcome content left →
        ∃ turns, ∀ fuel, turns ≤ fuel →
          zstdInflate zstd fuel frame = some (answer outcome content) := by
  constructor
  · intro data hdata
    exact ⟨_, zstdInflate_encode contract hdata⟩
  · intro frame content outcome left hframe hcontent hunknown hpending
    have hne : 0 < frame.length := by
      rw [List.length_pos_iff]
      rintro rfl
      rw [contract.size_nil] at hunknown
      cases hunknown
    have hdouble : usize (frame.length * 2) = frame.length * 2 := usize_of_lt (by omega)
    have hfilled : (Decoding.start zstd frame).Filled [] := by
      refine ⟨rfl, (resize_length _ _).symm, ?_, List.take_zero⟩
      show 0 < usize (frame.length * 2)
      omega
    refine ⟨left + 1, fun fuel hfuel => ?_⟩
    obtain ⟨σ, hloop, hall⟩ :=
      Decoding.loop_filled contract fuel hfilled hpending hcontent (by omega)
    rw [zstdInflate, hunknown]
    simp only [hloop, Option.bind_eq_bind, Option.bind_some]
    cases outcome with
    | none =>
      have hall := hall rfl
      have hle : σ.pos ≤ σ.outBuffer.length := by
        have hlt := hall.room
        rw [hall.size] at hlt
        omega
      show some (Except.ok (resize σ.outBuffer σ.pos)) = _
      rw [resize_of_le hle, hall.take]
      rfl
    | some name => rfl

/-! ### A frame of one raw block -/

namespace ZstdSample

def magic : List UInt8 := [0x28, 0xB5, 0x2F, 0xFD]

/-- The header of the last block of a frame, with its bytes as they are. -/
def blockHeader (n : ℕ) : List UInt8 :=
  [UInt8.ofNat (8 * n + 1), UInt8.ofNat ((8 * n + 1) / 256), UInt8.ofNat ((8 * n + 1) / 65536)]

/-- A frame that tells its size. -/
def encode (data : List UInt8) : List UInt8 :=
  magic ++ [0x20, UInt8.ofNat data.length] ++ blockHeader data.length ++ data

/-- A zstd that writes such frames and reads them, and streams other ones as much at a time as there
is room for. -/
def codec : Zstd where
  Decoder := List UInt8
  compressBound n := n + n / 256 + (131072 - n) / 2048
  compress capacity _ data :=
    if (encode data).length ≤ capacity then .ok (encode data)
    else .error "Destination buffer is too small"
  getFrameContentSize frame :=
    if frame.take 4 = magic then
      if frame[4]? = some 0x20 then .known (frame.length - 9) else .unknown
    else .error
  decompress capacity frame :=
    if (frame.drop 9).length ≤ capacity then .ok (frame.drop 9)
    else .error "Destination buffer is too small"
  createDCtx frame := frame.drop 9
  decompressStream pending room :=
    if pending.length ≤ room then .ok (0, pending, [])
    else .ok (1, pending.take room, pending.drop room)

theorem length_encode (data : List UInt8) : (encode data).length = data.length + 9 := by
  simp [encode, magic, blockHeader]

theorem length_drop_lt {pending : List UInt8} {room : ℕ} (hroom : 0 < room)
    (hfits : ¬ pending.length ≤ room) : (pending.drop room).length < pending.length := by
  rw [List.length_drop]
  omega

def promises : codec.Contract where
  encode := encode
  Pending decoder outcome pending left :=
    outcome = none ∧ decoder = pending ∧ left = pending.length
  compressBound_lt n hn := by
    show n + n / 256 + (131072 - n) / 2048 < _
    omega
  encode_le data := by
    rw [length_encode]
    show _ ≤ data.length + data.length / 256 + (131072 - data.length) / 2048
    omega
  compress_enough data capacity h := by
    apply if_pos
    refine Nat.le_trans ?_ h
    rw [length_encode]
    show _ ≤ data.length + data.length / 256 + (131072 - data.length) / 2048
    omega
  size_encode data := by
    have hlength := length_encode data
    simp only [codec, encode, magic, blockHeader] at hlength ⊢
    simp
  decompress_encode data capacity h := by
    have hdrop : (encode data).drop 9 = data := by simp [encode, magic, blockHeader]
    simp only [codec, hdrop, if_pos h]
  size_nil := rfl
  stream_step decoder outcome pending left room hroom hpending := by
    obtain ⟨rfl, rfl, rfl⟩ := hpending
    simp only [codec]
    split_ifs with hfits
    · exact .finish _ rfl hfits
    · refine .more 1 _ (decoder.drop room) _ _ one_ne_zero (List.take_append_drop _ _).symm
        (List.length_take_le _ _) (length_drop_lt hroom hfits) ⟨rfl, rfl, rfl⟩

end ZstdSample

/-- Three bytes, in a frame that tells their number and in one that does not. -/
theorem zstd_exact_three :
    (∃ compressed, zstdDeflate ZstdSample.codec [1, 2, 3] = .ok compressed ∧
      ∀ fuel, zstdInflate ZstdSample.codec fuel compressed = some (.ok [1, 2, 3])) ∧
    ∃ turns, ∀ fuel, turns ≤ fuel → zstdInflate ZstdSample.codec fuel
      [0x28, 0xB5, 0x2F, 0xFD, 0x00, 0x58, 0x19, 0x00, 0x00, 1, 2, 3] =
        some (answer none [1, 2, 3]) :=
  ⟨(zstd_exact ZstdSample.promises).1 [1, 2, 3] (by decide),
    (zstd_exact ZstdSample.promises).2 _ [1, 2, 3] none 3 (by decide) (by decide) (by decide)
      ⟨rfl, rfl, rfl⟩⟩

end DataOps

end IACore
