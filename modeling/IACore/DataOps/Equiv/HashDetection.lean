import IACore.DataOps.Equiv.Burst
import IACore.DataOps.Equiv.XxHash
import IACore.Library.Mixing

/-!
# What `DataOps::hash_xxhash` detects

A word or a byte is taken in by a step that is one-to-one in the state and in what it takes in
(`addWord_oneToOne`, `addByte_oneToOne`, `xxh32Round_oneToOne`), the four accumulators are
merged by a sum of rotations, and the last lines are one-to-one too.  So a change within one aligned
word, or to one of the up to three bytes behind the words, changes the hash; and for data without a
whole stripe a change of the seed does.
-/

namespace IACore

namespace DataOps

open Mixing

variable {data data' : List UInt8} {ws ws' : List (BitVec 32)} {seed seed' : BitVec 32} {k : ℕ}

/-! ### The steps -/

theorem mul_xxhPrime32_1_injective : Function.Injective fun x => x * xxhPrime32_1 :=
  mul_injective (b := 0x0E8B2F51) (by decide)

theorem mul_xxhPrime32_2_injective : Function.Injective fun x => x * xxhPrime32_2 :=
  mul_injective (b := 0xB6C92F47) (by decide)

theorem mul_xxhPrime32_3_injective : Function.Injective fun x => x * xxhPrime32_3 :=
  mul_injective (b := 0xA89ED915) (by decide)

theorem mul_xxhPrime32_4_injective : Function.Injective fun x => x * xxhPrime32_4 :=
  mul_injective (b := 0xA0FE3BCF) (by decide)

theorem mul_xxhPrime32_5_injective : Function.Injective fun x => x * xxhPrime32_5 :=
  mul_injective (b := 0xAE398151) (by decide)

/-- The three steps are alike: add a multiple of what is taken in, rotate, multiply. -/
theorem add_rotate_mul_oneToOne {α : Type} {input : α → BitVec 32} (n : ℕ) {prime : BitVec 32}
    (hinput : Function.Injective input) (hprime : Function.Injective fun x => x * prime) :
    OneToOne fun s a => (s + input a).rotateLeft n * prime where
  state a := hprime.comp ((rotateLeft_injective n).comp (add_injective (input a)))
  input s _ _ h := hinput ((BitVec.add_right_inj s).mp (rotateLeft_injective n (hprime h)))

theorem xxh32Round_oneToOne : OneToOne xxh32Round :=
  add_rotate_mul_oneToOne 13 mul_xxhPrime32_2_injective mul_xxhPrime32_1_injective

theorem addWord_oneToOne : OneToOne addWord :=
  add_rotate_mul_oneToOne 17 mul_xxhPrime32_3_injective mul_xxhPrime32_4_injective

theorem addByte_oneToOne : OneToOne addByte := by
  apply add_rotate_mul_oneToOne 11 _ mul_xxhPrime32_1_injective
  intro byte byte' h
  exact UInt8.toBitVec_inj.mp (setWidth_injective (by decide) (mul_xxhPrime32_5_injective h))

theorem avalanche_injective : Function.Injective avalanche := by
  have hlast : Function.Injective fun x : BitVec 32 => x ^^^ x >>> 16 :=
    xorShift_injective (by decide)
  have hmiddle : Function.Injective fun x : BitVec 32 => x ^^^ x >>> 13 :=
    xorShift_injective (by decide)
  have hfirst : Function.Injective fun x : BitVec 32 => x ^^^ x >>> 15 :=
    xorShift_injective (by decide)
  exact hlast.comp (mul_xxhPrime32_3_injective.comp
    (hmiddle.comp (mul_xxhPrime32_2_injective.comp hfirst)))

/-! ### Words and bytes -/

theorem readUnaligned_congr {p p' : List UInt8} (h : p.take 4 = p'.take 4) :
    readUnaligned 32 p = readUnaligned 32 p' := by
  rw [readUnaligned, readUnaligned, h]

theorem readUnaligned_injective {p p' : List UInt8} (hp : 4 ≤ p.length) (hp' : 4 ≤ p'.length)
    (h : readUnaligned 32 p = readUnaligned 32 p') : p.take 4 = p'.take 4 := by
  apply messageBits_injective
  rw [← bits_readUnaligned hp, ← bits_readUnaligned hp', h]

/-- Data that agree outside a word agree in the other words. -/
theorem words_single (hlength : data.length = data'.length)
    (hsame : ∀ i, i / 4 ≠ k → data[i]? = data'[i]?) {j : ℕ} (hj : j ≠ k) :
    (words data)[j]? = (words data')[j]? := by
  rcases Nat.lt_or_ge j (data.length / 4) with hlt | hge
  · rw [words_getElem? hlt, words_getElem? (hlength ▸ hlt)]
    apply congrArg some
    apply readUnaligned_congr
    apply List.ext_getElem?
    intro i
    rw [List.getElem?_take, List.getElem?_take]
    split
    · rw [List.getElem?_drop, List.getElem?_drop]
      exact hsame _ (by omega)
    · rfl
  · rw [List.getElem?_eq_none (by rwa [words_length]),
      List.getElem?_eq_none (by rwa [words_length, ← hlength])]

/-- Data that agree outside a word are the same if they have the same words. -/
theorem eq_of_words (hlength : data.length = data'.length) (hk : k < data.length / 4)
    (hsame : ∀ i, i / 4 ≠ k → data[i]? = data'[i]?) (hwords : words data = words data') :
    data = data' := by
  have hword : (words data)[k]? = (words data')[k]? := by rw [hwords]
  rw [words_getElem? hk, words_getElem? (hlength ▸ hk)] at hword
  have hbytes := readUnaligned_injective (by rw [List.length_drop]; omega)
    (by rw [List.length_drop]; omega) (Option.some.inj hword)
  apply List.ext_getElem?
  intro i
  by_cases hi : i / 4 = k
  · have hbyte : ((data.drop (4 * k)).take 4)[i - 4 * k]? =
        ((data'.drop (4 * k)).take 4)[i - 4 * k]? := by rw [hbytes]
    rwa [List.getElem?_take_of_lt (by omega), List.getElem?_take_of_lt (by omega),
      List.getElem?_drop, List.getElem?_drop, show 4 * k + (i - 4 * k) = i by omega] at hbyte
  · exact hsame i hi

theorem laneWords_getElem? {i : ℕ} (lane : ℕ) (hi : i < ws.length / 4) :
    (laneWords ws lane)[i]? = some (ws.getD (4 * i + lane) 0) := by
  rw [laneWords, List.getElem?_map, List.getElem?_range hi, Option.map_some]

@[simp] theorem laneWords_length (ws : List (BitVec 32)) (lane : ℕ) :
    (laneWords ws lane).length = ws.length / 4 := by
  simp [laneWords]

/-- Words that agree but for one agree in the lanes, but for its place in its own. -/
theorem laneWords_single (hlength : ws.length = ws'.length) (hsame : ∀ j, j ≠ k → ws[j]? = ws'[j]?)
    {lane i : ℕ} (hi : 4 * i + lane ≠ k) : (laneWords ws lane)[i]? = (laneWords ws' lane)[i]? := by
  rcases Nat.lt_or_ge i (ws.length / 4) with hlt | hge
  · rw [laneWords_getElem? lane hlt, laneWords_getElem? lane (hlength ▸ hlt),
      List.getD_eq_getElem?_getD, List.getD_eq_getElem?_getD, hsame _ hi]
  · rw [List.getElem?_eq_none (by rwa [laneWords_length]),
      List.getElem?_eq_none (by rwa [laneWords_length, ← hlength])]

theorem laneWords_congr (hlength : ws.length = ws'.length) (hsame : ∀ j, j ≠ k → ws[j]? = ws'[j]?)
    {lane : ℕ} (hlane : lane < 4) (hk : k % 4 ≠ lane ∨ 4 * (ws.length / 4) ≤ k) :
    laneWords ws lane = laneWords ws' lane := by
  apply List.ext_getElem?
  intro i
  by_cases hi : 4 * i + lane = k
  · rw [List.getElem?_eq_none (by rw [laneWords_length]; omega),
      List.getElem?_eq_none (by rw [laneWords_length, ← hlength]; omega)]
  · exact laneWords_single hlength hsame hi

/-! ### The accumulators -/

/-- The accumulator of a lane. -/
def Accumulators.lane (v : Accumulators) : ℕ → BitVec 32
  | 0 => v.v1
  | 1 => v.v2
  | 2 => v.v3
  | _ => v.v4

theorem accumulate_lane (ws : List (BitVec 32)) (seed : BitVec 32) {lane : ℕ} (hlane : lane < 4) :
    (accumulate ws seed).lane lane =
      (laneWords ws lane).foldl xxh32Round ((Accumulators.init seed).lane lane) := by
  match lane, hlane with
  | 0, _ => rfl
  | 1, _ => rfl
  | 2, _ => rfl
  | 3, _ => rfl

/-- Accumulators that agree but for one are the same if they are merged to the same. -/
theorem Accumulators.lane_of_merge {v v' : Accumulators} {lane : ℕ} (hlane : lane < 4)
    (hsame : ∀ other < 4, other ≠ lane → v.lane other = v'.lane other)
    (hmerge : v.merge = v'.merge) : v.lane lane = v'.lane lane := by
  have h1 := hsame 0 (by decide)
  have h2 := hsame 1 (by decide)
  have h3 := hsame 2 (by decide)
  have h4 := hsame 3 (by decide)
  simp only [Accumulators.lane, merge] at *
  match lane, hlane with
  | 0, _ =>
    rw [h2 (by decide), h3 (by decide), h4 (by decide)] at hmerge
    apply rotateLeft_injective 1
    simpa using hmerge
  | 1, _ =>
    rw [h1 (by decide), h3 (by decide), h4 (by decide)] at hmerge
    apply rotateLeft_injective 7
    simpa using hmerge
  | 2, _ =>
    rw [h1 (by decide), h2 (by decide), h4 (by decide)] at hmerge
    apply rotateLeft_injective 12
    simpa using hmerge
  | 3, _ =>
    rw [h1 (by decide), h2 (by decide), h3 (by decide)] at hmerge
    apply rotateLeft_injective 18
    simpa using hmerge

theorem accumulate_congr (h : ∀ lane < 4, laneWords ws lane = laneWords ws' lane) :
    accumulate ws seed = accumulate ws' seed := by
  rw [accumulate, accumulate, h 0 (by decide), h 1 (by decide), h 2 (by decide), h 3 (by decide)]

/-- Words that agree but for one in a stripe are the same if their accumulators are merged to the
same. -/
theorem accumulate_single (hlength : ws.length = ws'.length) (hk : k < 4 * (ws.length / 4))
    (hsame : ∀ j, j ≠ k → ws[j]? = ws'[j]?)
    (hmerge : (accumulate ws seed).merge = (accumulate ws' seed).merge) : ws = ws' := by
  have hlane : k % 4 < 4 := Nat.mod_lt k (by decide)
  have hfold := Accumulators.lane_of_merge hlane (fun other hother hne => by
    rw [accumulate_lane ws seed hother, accumulate_lane ws' seed hother,
      laneWords_congr hlength hsame hother (Or.inl hne.symm)]) hmerge
  rw [accumulate_lane ws seed hlane, accumulate_lane ws' seed hlane] at hfold
  have hwords : laneWords ws (k % 4) = laneWords ws' (k % 4) := by
    apply xxh32Round_oneToOne.foldl_single (k := k / 4) _ _ hfold
    · rw [laneWords_length, laneWords_length, hlength]
    · intro i hi
      exact laneWords_single hlength hsame (by omega)
  have hword : (laneWords ws (k % 4))[k / 4]? = (laneWords ws' (k % 4))[k / 4]? := by rw [hwords]
  rw [laneWords_getElem? _ (by omega), laneWords_getElem? _ (by omega), Nat.div_add_mod,
    List.getD_eq_getElem?_getD, List.getD_eq_getElem?_getD,
    List.getElem?_eq_getElem (by omega), List.getElem?_eq_getElem (by omega)] at hword
  apply List.ext_getElem?
  intro j
  by_cases hj : j = k
  · subst hj
    rwa [List.getElem?_eq_getElem (by omega), List.getElem?_eq_getElem (by omega)]
  · exact hsame j hj

/-! ### The hash -/

/-- `h32` when the words are in. -/
def afterWords (ws : List (BitVec 32)) (n : ℕ) (seed : BitVec 32) : BitVec 32 :=
  (ws.drop (4 * (n / 16))).foldl addWord
    ((if n < 16 then seed + xxhPrime32_5 else (accumulate ws seed).merge) + BitVec.ofNat 32 n)

theorem xxh32_eq (data : List UInt8) (seed : BitVec 32) :
    xxh32 data seed = avalanche ((data.drop (4 * (data.length / 4))).foldl addByte
      (afterWords (words data) data.length seed)) := rfl

theorem afterWords_single {n : ℕ} (hws : ws.length = n / 4) (hws' : ws'.length = n / 4)
    (hsame : ∀ j, j ≠ k → ws[j]? = ws'[j]?) (h : afterWords ws n seed = afterWords ws' n seed) :
    ws = ws' := by
  have hlength : ws.length = ws'.length := hws.trans hws'.symm
  rw [afterWords, afterWords] at h
  rcases Nat.lt_or_ge k (4 * (n / 16)) with hk | hk
  · -- The word is in a stripe, and what comes after the stripes is the same.
    have hdrop : ws.drop (4 * (n / 16)) = ws'.drop (4 * (n / 16)) := by
      apply List.ext_getElem?
      intro i
      rw [List.getElem?_drop, List.getElem?_drop]
      exact hsame _ (by omega)
    have hlong : ¬ n < 16 := by omega
    rw [hdrop, if_neg hlong, if_neg hlong] at h
    exact accumulate_single hlength (by omega) hsame
      (add_injective _ (addWord_oneToOne.foldl_injective _ h))
  · -- The word is taken in behind the stripes, which are the same.
    have haccumulate : accumulate ws seed = accumulate ws' seed := by
      apply accumulate_congr
      intro lane hlane
      exact laneWords_congr hlength hsame hlane (Or.inr (by omega))
    rw [haccumulate] at h
    have hdrop : ws.drop (4 * (n / 16)) = ws'.drop (4 * (n / 16)) := by
      apply addWord_oneToOne.foldl_single (k := k - 4 * (n / 16)) _ _ h
      · rw [List.length_drop, List.length_drop, hlength]
      · intro i hi
        rw [List.getElem?_drop, List.getElem?_drop]
        exact hsame _ (by omega)
    have htake : ws.take (4 * (n / 16)) = ws'.take (4 * (n / 16)) := by
      apply List.ext_getElem?
      intro i
      rw [List.getElem?_take, List.getElem?_take]
      split
      · exact hsame i (by omega)
      · rfl
    rw [← List.take_append_drop (4 * (n / 16)) ws, htake, hdrop, List.take_append_drop]

theorem xxh32_word (hlength : data.length = data'.length) (hk : k < data.length / 4)
    (hsame : ∀ i, i / 4 ≠ k → data[i]? = data'[i]?) (h : xxh32 data seed = xxh32 data' seed) :
    data = data' := by
  have hrest : data.drop (4 * (data.length / 4)) = data'.drop (4 * (data'.length / 4)) := by
    rw [← hlength]
    apply List.ext_getElem?
    intro i
    rw [List.getElem?_drop, List.getElem?_drop]
    exact hsame _ (by omega)
  rw [xxh32_eq, xxh32_eq, ← hrest, ← hlength] at h
  have hwords := addByte_oneToOne.foldl_injective _ (avalanche_injective h)
  apply eq_of_words hlength hk hsame
  apply afterWords_single _ _ _ hwords
  · exact k
  · exact words_length data
  · rw [words_length, hlength]
  · intro j hj
    exact words_single hlength hsame hj

theorem xxh32_byte (hlength : data.length = data'.length) (hk : 4 * (data.length / 4) ≤ k)
    (hsame : ∀ i, i ≠ k → data[i]? = data'[i]?) (h : xxh32 data seed = xxh32 data' seed) :
    data = data' := by
  have hwords : words data = words data' := by
    apply List.ext_getElem?
    intro j
    rcases Nat.lt_or_ge j (data.length / 4) with hlt | hge
    · apply words_single (k := k / 4) hlength _ (by omega)
      intro i hi
      exact hsame i fun heq => hi (by rw [heq])
    · rw [List.getElem?_eq_none (by rwa [words_length]),
        List.getElem?_eq_none (by rwa [words_length, ← hlength])]
  rw [xxh32_eq, xxh32_eq, ← hwords, ← hlength] at h
  have hrest : data.drop (4 * (data.length / 4)) = data'.drop (4 * (data.length / 4)) := by
    apply addByte_oneToOne.foldl_single (k := k - 4 * (data.length / 4)) _ _
      (avalanche_injective h)
    · rw [List.length_drop, List.length_drop, hlength]
    · intro i hi
      rw [List.getElem?_drop, List.getElem?_drop]
      exact hsame _ (by omega)
  apply List.ext_getElem?
  intro i
  rcases Nat.lt_or_ge i (4 * (data.length / 4)) with hlt | hge
  · exact hsame i (by omega)
  · have hbyte : (data.drop (4 * (data.length / 4)))[i - 4 * (data.length / 4)]? =
        (data'.drop (4 * (data.length / 4)))[i - 4 * (data.length / 4)]? := by rw [hrest]
    rwa [List.getElem?_drop, List.getElem?_drop, Nat.add_sub_cancel' hge] at hbyte

theorem xxh32_seed (hshort : data.length < 16) (h : xxh32 data seed = xxh32 data seed') :
    seed = seed' := by
  rw [xxh32_eq, xxh32_eq] at h
  have hwords := addByte_oneToOne.foldl_injective _ (avalanche_injective h)
  rw [afterWords, afterWords, if_pos hshort, if_pos hshort] at hwords
  exact add_injective _ (add_injective _ (addWord_oneToOne.foldl_injective _ hwords))

/-- **What `hash_xxhash` detects**: with any seed, data of one length that have the same hash and
differ at most within one aligned word, or in one of the bytes behind the words, are the same; and
data without a whole stripe have different hashes under different seeds. -/
theorem hash_xxhash_detects (hlength : data.length = data'.length) :
    (∀ seed, (hashXxhash data seed).1 = (hashXxhash data' seed).1 →
      (∀ k < data.length / 4, (∀ i, i / 4 ≠ k → data[i]? = data'[i]?) → data = data') ∧
      (∀ k, 4 * (data.length / 4) ≤ k → (∀ i, i ≠ k → data[i]? = data'[i]?) → data = data')) ∧
    (data.length < 16 → Function.Injective fun seed => (hashXxhash data seed).1) := by
  refine ⟨?_, ?_⟩
  · intro seed hhash
    rw [hashXxhash_eq, hashXxhash_eq] at hhash
    exact ⟨fun k hk hsame => xxh32_word hlength hk hsame hhash,
      fun k hk hsame => xxh32_byte hlength hk hsame hhash⟩
  · intro hshort seed seed' hhash
    replace hhash : (hashXxhash data seed).1 = (hashXxhash data seed').1 := hhash
    rw [hashXxhash_eq, hashXxhash_eq] at hhash
    exact xxh32_seed hshort hhash

/-- Two bytes of the first word, the other way round. -/
theorem hash_xxhash_detects_swap :
    (hashXxhash [1, 2, 3, 4, 5] 0).1 ≠ (hashXxhash [1, 3, 2, 4, 5] 0).1 := by
  intro h
  have hlength : ([1, 2, 3, 4, 5] : List UInt8).length = [1, 3, 2, 4, 5].length := by decide
  have hsame := ((hash_xxhash_detects hlength).1 0 h).1 0 (by decide) fun i hi => by
    match i with
    | 0 | 1 | 2 | 3 => exact absurd rfl hi
    | i + 4 => rfl
  exact absurd hsame (by decide)

end DataOps

end IACore
