import IACore.HttpCommon

/-!
# Percent encoding

`url_encode` writes each byte on its own (`urlEncode_eq`), and `url_decode` reads that back
(`urlDecode_urlEncode`).  On other texts the decoder takes whatever two characters follow a `%`:
`strtol` gives the byte of two digits (`strtol_digits`) and a number below sixteen, up to its sign,
for anything else (`strtol_lt`).  So it reads the escapes of a text, and only these, exactly if
every `%` with two characters behind it is an escape (`urlDecode_eq_iff`).
-/

namespace IACore

/-! ### `std::strtol` on two characters -/

section

variable {d e : UInt8} {x y : ℕ}

theorem takeSign_sublist (s : Text) : (takeSign s).2.Sublist s := by
  cases s with
  | nil => exact .refl _
  | cons c s =>
    rw [takeSign]
    split_ifs
    · exact List.sublist_cons_self c s
    · exact List.sublist_cons_self c s
    · exact .refl _

/-- A text of two characters has no room for a prefix. -/
theorem dropPrefix_of_length {s : Text} (h : s.length ≤ 2) : dropPrefix s = s := by
  match s with
  | [] => rfl
  | [_] => rfl
  | [_, _] => rfl
  | _ :: _ :: _ :: _ => simp at h

/-- A digit is no end of a string, no white space and no sign. -/
theorem isHexDigit_stays (h : isHexDigit d = true) :
    d ≠ 0 ∧ isSpace d = false ∧ d ≠ '-'.toUInt8 ∧ d ≠ '+'.toUInt8 ∧ d ≠ '%'.toUInt8 :=
  forall_byte (P := fun d => isHexDigit d = true → d ≠ 0 ∧ isSpace d = false ∧
    d ≠ '-'.toUInt8 ∧ d ≠ '+'.toUInt8 ∧ d ≠ '%'.toUInt8) (by decide +kernel) d h

theorem strtol_digits (hd : hexValue d = some x) (he : hexValue e = some y) :
    strtol [d, e] = 16 * x + y := by
  have hdigit : isHexDigit d = true := by rw [isHexDigit, hd]; rfl
  have hdigit' : isHexDigit e = true := by rw [isHexDigit, he]; rfl
  obtain ⟨hd0, hdspace, hdminus, hdplus, -⟩ := isHexDigit_stays hdigit
  have he0 := (isHexDigit_stays hdigit').1
  have hstring : cString [d, e] = [d, e] := by simp [cString, hd0, he0]
  have hsign : takeSign [d, e] = (false, [d, e]) := by
    rw [takeSign, if_neg hdminus, if_neg hdplus]
  have hspace : [d, e].dropWhile isSpace = [d, e] := by simp [List.dropWhile, hdspace]
  have hdigits : [d, e].takeWhile isHexDigit = [d, e] := by simp [hdigit, hdigit']
  have hprefix : dropPrefix [d, e] = [d, e] := rfl
  simp only [strtol, hstring, hspace, hsign, hprefix, hdigits]
  simp [hd, he]

/-- Unless both are digits, at most one digit is read. -/
theorem strtol_lt (h : ¬ (isHexDigit d = true ∧ isHexDigit e = true)) :
    -16 < strtol [d, e] ∧ strtol [d, e] < 16 := by
  set s := (takeSign ((cString [d, e]).dropWhile isSpace)).2 with hs
  have hsub : s.Sublist [d, e] :=
    (takeSign_sublist _).trans ((List.dropWhile_sublist _).trans (List.takeWhile_sublist _))
  have hprefix : dropPrefix s = s := dropPrefix_of_length hsub.length_le
  set digits := s.takeWhile isHexDigit with hdigits
  have hall : ∀ c ∈ digits, isHexDigit c = true := fun c hc => List.mem_takeWhile_imp hc
  have hlength : digits.length ≤ 1 := by
    by_contra hlong
    have hsub' : digits.Sublist [d, e] := (List.takeWhile_sublist _).trans hsub
    have hle : digits.length ≤ 2 := hsub'.length_le
    have hboth : digits = [d, e] := hsub'.eq_of_length (by simp; omega)
    rw [hboth] at hall
    exact h ⟨hall d (by simp), hall e (by simp)⟩
  have hvalue : digits.foldl (fun n c => 16 * n + (hexValue c).getD 0) 0 < 16 := by
    match hone : digits with
    | [] => decide
    | [c] =>
      have hc : isHexDigit c = true := hall c (by simp)
      obtain ⟨n, hn⟩ := Option.isSome_iff_exists.mp hc
      simpa [hn] using (hexDigits_hexValue hn).1
    | _ :: _ :: _ => simp at hlength
  unfold strtol
  simp only [← hs, hprefix, ← hdigits]
  split_ifs <;> omega

end

namespace HttpCommon

/-! ### The encoder -/

/-- What `url_encode` writes for a byte. -/
def encoded (c : UInt8) : Text := if isUnreserved c then [c] else '%'.toUInt8 :: hexPair c

/-- The formatting that the encoder sets stays as it is from turn to turn. -/
structure Formatted (escaped : StringStream) : Prop where
  fill : escaped.fill = '0'.toUInt8
  hex : escaped.hex = true
  uppercase : escaped.uppercase = true
  width : escaped.width = 0

theorem Formatted.encodeTurn {escaped : StringStream} (h : Formatted escaped) (c : UInt8) :
    Formatted (encodeTurn escaped c) ∧
      (HttpCommon.encodeTurn escaped c).str = escaped.str ++ encoded c := by
  obtain ⟨str, fill, hex, uppercase, width⟩ := escaped
  obtain ⟨rfl, rfl, rfl, rfl⟩ := h
  have hpair : ∀ c : UInt8, let digits := ((Nat.toDigits 16 c.toNat).map Char.toUInt8).map toUpper
      List.replicate (2 - digits.length) '0'.toUInt8 ++ digits = hexPair c :=
    forall_byte (by decide +kernel)
  unfold HttpCommon.encodeTurn encoded
  split_ifs
  · refine ⟨⟨rfl, rfl, rfl, rfl⟩, ?_⟩
    simp [StringStream.putChar, StringStream.put]
  · refine ⟨⟨rfl, rfl, rfl, rfl⟩, ?_⟩
    rw [← hpair c]
    simp [StringStream.putChar, StringStream.put, StringStream.setw, StringStream.putInt]

theorem urlEncode_eq (value : Text) : urlEncode value = value.flatMap encoded := by
  have hfold : ∀ escaped, Formatted escaped →
      (value.foldl HttpCommon.encodeTurn escaped).str = escaped.str ++ value.flatMap encoded := by
    induction value with
    | nil => simp
    | cons c value ih =>
      intro escaped h
      obtain ⟨hturn, hstr⟩ := h.encodeTurn c
      rw [List.foldl_cons, ih _ hturn, hstr, List.flatMap_cons, List.append_assoc]
  exact hfold _ ⟨rfl, rfl, rfl, rfl⟩

/-! ### The decoder -/

variable {c d e : UInt8} {x y : ℕ} {value : Text}

/-- What is decoded is appended. -/
theorem urlDecodeFrom_append (before result value : Text) :
    urlDecodeFrom (before ++ result) value = before ++ urlDecodeFrom result value := by
  fun_induction urlDecodeFrom result value with
  | case1 result => rw [urlDecodeFrom]
  | case2 result c _ => simp [urlDecodeFrom]
  | case3 result c d _ => simp [urlDecodeFrom]
  | case4 result d e value ih => rw [urlDecodeFrom, if_pos rfl, ← ih, List.append_assoc]
  | case5 result c d e value hc ih => rw [urlDecodeFrom, if_neg hc, ← ih, List.append_assoc]

theorem urlDecodeFrom_singleton (b : UInt8) (value : Text) :
    urlDecodeFrom [b] value = b :: urlDecode value := urlDecodeFrom_append [b] [] value

/-- Two characters behind a `%` are taken. -/
theorem urlDecode_percent :
    urlDecode ('%'.toUInt8 :: d :: e :: value) =
      ⟨BitVec.ofInt 8 (strtol [d, e])⟩ :: urlDecode value := by
  rw [urlDecode, urlDecodeFrom, if_pos rfl]
  exact urlDecodeFrom_singleton _ _

/-- Every other character is read on its own. -/
theorem urlDecode_plain (h : c ≠ '%'.toUInt8) :
    urlDecode (c :: value) = plain c :: urlDecode value := by
  match value with
  | [] => rfl
  | [d] => rfl
  | d :: e :: value =>
    rw [urlDecode, urlDecodeFrom, if_neg h]
    exact urlDecodeFrom_singleton _ _

/-- The byte of an escape. -/
theorem urlDecode_escape (hd : hexValue d = some x) (he : hexValue e = some y) :
    urlDecode ('%'.toUInt8 :: d :: e :: value) = UInt8.ofNat (16 * x + y) :: urlDecode value := by
  rw [urlDecode_percent, strtol_digits hd he]
  rfl

/-- A byte that is no digit's value is not `%`. -/
theorem byte_ne_percent (h : ¬ (isHexDigit d = true ∧ isHexDigit e = true)) :
    (⟨BitVec.ofInt 8 (strtol [d, e])⟩ : UInt8) ≠ '%'.toUInt8 := by
  obtain ⟨hlow, hhigh⟩ := strtol_lt h
  intro heq
  have hbits : BitVec.ofInt 8 (strtol [d, e]) = 37 := congrArg UInt8.toBitVec heq
  have hint := congrArg BitVec.toInt hbits
  rw [BitVec.toInt_ofInt, Int.bmod_eq_of_le (by omega) (by omega)] at hint
  have h37 : (37 : BitVec 8).toInt = 37 := by decide
  omega

/-- For all bytes, decoding the encoding gives them back, and the encoding is made of unreserved
characters and escapes with upper-case digits. -/
theorem urlDecode_urlEncode (x : Text) : urlDecode (urlEncode x) = x ∧ Escaped (urlEncode x) := by
  rw [urlEncode_eq]
  constructor
  · induction x with
    | nil => rfl
    | cons c x ih =>
      rw [List.flatMap_cons]
      by_cases hc : isUnreserved c = true
      · have hplain : ∀ c, isUnreserved c = true → c ≠ '%'.toUInt8 ∧ plain c = c :=
          forall_byte (by decide +kernel)
        obtain ⟨hpercent, hsame⟩ := hplain c hc
        rw [encoded, if_pos hc, List.singleton_append, urlDecode_plain hpercent, hsame, ih]
      · rw [encoded, if_neg hc, hexPair, List.cons_append, List.cons_append, List.cons_append,
          List.nil_append, urlDecode_escape (hexValue_hexDigits _ (div_lt_sixteen c))
            (hexValue_hexDigits _ (mod_lt_sixteen c)), ih, Nat.div_add_mod, UInt8.ofNat_toNat]
  · refine ⟨x.map encoded, List.flatMap_def .., ?_⟩
    intro part hpart
    obtain ⟨c, -, rfl⟩ := List.mem_map.mp hpart
    unfold encoded
    split_ifs with hc
    · exact .inl ⟨c, hc, rfl⟩
    · exact .inr ⟨_, hexDigits_mem _ (div_lt_sixteen c), _, hexDigits_mem _ (mod_lt_sixteen c), rfl⟩

/-! ### Escapes -/

/-- **The decoder reads the escapes of a text, and nothing else, exactly if every `%` with two
characters behind it is an escape.** -/
theorem urlDecode_eq_iff (value : Text) :
    urlDecode value = decodeEscapes value ↔ WellFormedEscapes value := by
  fun_induction decodeEscapes value with
  | case1 => simp [WellFormedEscapes, urlDecode, urlDecodeFrom]
  | case2 c => simp [WellFormedEscapes, urlDecode, urlDecodeFrom]
  | case3 c d _ => simp [WellFormedEscapes, urlDecode, urlDecodeFrom, decodeEscapes]
  | case4 d e value x y hy hx ih =>
    rw [urlDecode_escape hx hy, WellFormedEscapes, if_pos rfl, List.cons.injEq, ← ih]
    simp [isHexDigit, hx, hy]
  | case5 d e value hbad _ =>
    have hdigits : ¬ (isHexDigit d = true ∧ isHexDigit e = true) := by
      rintro ⟨hd, he⟩
      obtain ⟨x, hx⟩ := Option.isSome_iff_exists.mp hd
      obtain ⟨y, hy⟩ := Option.isSome_iff_exists.mp he
      exact hbad x y hx hy
    rw [urlDecode_percent, WellFormedEscapes, if_pos rfl, List.cons.injEq]
    constructor
    · intro h
      exact absurd h.1 (byte_ne_percent hdigits)
    · intro h
      exact absurd ⟨h.1, h.2.1⟩ hdigits
  | case6 c d e value hc ih =>
    rw [urlDecode_plain hc, WellFormedEscapes, if_neg hc, List.cons.injEq, ← ih]
    simp

/-- A `%` with two letters behind it that are no digits is taken for an escaped NUL. -/
theorem urlDecode_zz : urlDecode (text "%zz") = [0] ∧ decodeEscapes (text "%zz") = text "%zz" ∧
    urlDecode (text "%zz") ≠ decodeEscapes (text "%zz") := by decide

end HttpCommon

end IACore
