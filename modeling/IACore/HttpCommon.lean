import IACore.Hex

/-!
# `HttpCommon`

The codec of URLs and the names of headers.  The encoder writes to a `std::stringstream`, whose
formatting is modelled as far as the encoder uses it; the decoder reads an escape with
`std::strtol`.  The locale is `"C"`.
-/

namespace IACore

/-! ### `std::stringstream` -/

/-- What is written, and the state of the formatting. -/
structure StringStream where
  str : Text
  fill : UInt8
  hex : Bool
  uppercase : Bool
  width : ℕ
  deriving DecidableEq, Repr

namespace StringStream

def start : StringStream := ⟨[], ' '.toUInt8, false, false, 0⟩

/-- A formatted output: filled up on the left to the width, which is zero afterwards. -/
def put (s : StringStream) (t : Text) : StringStream :=
  { s with str := s.str ++ List.replicate (s.width - t.length) s.fill ++ t, width := 0 }

/-- `<<` of a `char`. -/
def putChar (s : StringStream) (c : UInt8) : StringStream := s.put [c]

/-- `<<` of an `int` that is not negative. -/
def putInt (s : StringStream) (n : ℕ) : StringStream :=
  let digits := (Nat.toDigits (if s.hex then 16 else 10) n).map Char.toUInt8
  s.put (if s.uppercase then digits.map toUpper else digits)

/-- `<< std::setw(n)`. -/
def setw (s : StringStream) (n : ℕ) : StringStream := { s with width := n }

end StringStream

/-! ### `std::strtol` -/

/-- `std::isspace`. -/
def isSpace (c : UInt8) : Bool := c = ' '.toUInt8 || (9 ≤ c && c ≤ 13)

/-- The sign of a number, and what follows it. -/
def takeSign : Text → Bool × Text
  | [] => (false, [])
  | c :: s =>
    if c = '-'.toUInt8 then (true, s) else if c = '+'.toUInt8 then (false, s) else (false, c :: s)

/-- An optional prefix `0x` or `0X`, which is one only if a digit follows. -/
def dropPrefix : Text → Text
  | zero :: x :: digit :: s =>
    if zero = '0'.toUInt8 ∧ (x = 'x'.toUInt8 ∨ x = 'X'.toUInt8) ∧ isHexDigit digit then digit :: s
    else zero :: x :: digit :: s
  | s => s

/-- `std::strtol(s, nullptr, 16)` of a number that has a place in a `long`: white space, a sign, a
prefix and the longest run of digits; zero if there are none. -/
def strtol (s : Text) : ℤ :=
  let (negative, s) := takeSign ((cString s).dropWhile isSpace)
  let digits := (dropPrefix s).takeWhile isHexDigit
  let value := digits.foldl (fun n c => 16 * n + (hexValue c).getD 0) 0
  if negative then -value else value

/-! ### The codec -/

namespace HttpCommon

/-- `std::isalnum`. -/
def isAlnum (c : UInt8) : Bool :=
  isDigit c || ('A'.toUInt8 ≤ c && c ≤ 'Z'.toUInt8) || ('a'.toUInt8 ≤ c && c ≤ 'z'.toUInt8)

/-- The characters that `url_encode` leaves as they are. -/
def isUnreserved (c : UInt8) : Bool :=
  isAlnum c || c = '-'.toUInt8 || c = '_'.toUInt8 || c = '.'.toUInt8 || c = '~'.toUInt8

/-- One turn of the loop of `url_encode`. -/
def encodeTurn (escaped : StringStream) (c : UInt8) : StringStream :=
  if isUnreserved c then escaped.putChar c
  else ((escaped.putChar '%'.toUInt8).setw 2).putInt c.toNat

/-- `url_encode`. -/
def urlEncode (value : Text) : Text :=
  (value.foldl encodeTurn
    { StringStream.start with fill := '0'.toUInt8, hex := true, uppercase := true }).str

/-- A character outside an escape. -/
def plain (c : UInt8) : UInt8 := if c = '+'.toUInt8 then ' '.toUInt8 else c

/-- The loop of `url_decode` over what is left of `value`. -/
def urlDecodeFrom (result : Text) : Text → Text
  | [] => result
  | [c] => urlDecodeFrom (result ++ [plain c]) []
  | [c, d] => urlDecodeFrom (result ++ [plain c]) [d]
  -- `i + 2 < value.length()`
  | c :: d :: e :: value =>
    if c = '%'.toUInt8 then
      urlDecodeFrom (result ++ [⟨BitVec.ofInt 8 (strtol [d, e])⟩]) value
    else urlDecodeFrom (result ++ [plain c]) (d :: e :: value)

/-- `url_decode`. -/
def urlDecode (value : Text) : Text := urlDecodeFrom [] value

/-! ### Escapes -/

/-- Every escape and every `+` replaced by what it stands for, every other character as it is. -/
def decodeEscapes : Text → Text
  | [] => []
  | [c] => [plain c]
  | [c, d] => plain c :: decodeEscapes [d]
  | c :: d :: e :: value =>
    if c = '%'.toUInt8 then
      match hexValue d, hexValue e with
      | some x, some y => UInt8.ofNat (16 * x + y) :: decodeEscapes value
      | _, _ => c :: decodeEscapes (d :: e :: value)
    else plain c :: decodeEscapes (d :: e :: value)

/-- From left to right, every `%` that two characters follow is followed by two digits. -/
def WellFormedEscapes : Text → Prop
  | c :: d :: e :: value =>
    if c = '%'.toUInt8 then
      isHexDigit d = true ∧ isHexDigit e = true ∧ WellFormedEscapes value
    else WellFormedEscapes (d :: e :: value)
  | _ => True

/-- Unreserved characters, and `%` with two upper-case digits. -/
def Escaped (t : Text) : Prop :=
  ∃ parts : List Text, t = parts.flatten ∧ ∀ part ∈ parts,
    (∃ c, isUnreserved c = true ∧ part = [c]) ∨
      ∃ d ∈ hexDigits, ∃ e ∈ hexDigits, part = ['%'.toUInt8, d, e]

/-! ### The names of headers -/

/-- `EHeaderType`. -/
inductive EHeaderType
  | accept | acceptCharset | acceptEncoding | acceptLanguage | authorization | cacheControl
  | connection | contentLength | contentType | cookie | date | expect | host | ifMatch
  | ifModifiedSince | ifNoneMatch | origin | pragma | proxyAuthorization | range | referer | te
  | upgrade | userAgent | via | warning
  deriving DecidableEq, Repr

/-- `header_type_to_string`. -/
def headerTypeToString : EHeaderType → Text
  | .accept => text "Accept"
  | .acceptCharset => text "Accept-Charset"
  | .acceptEncoding => text "Accept-Encoding"
  | .acceptLanguage => text "Accept-Language"
  | .authorization => text "Authorization"
  | .cacheControl => text "Cache-Control"
  | .connection => text "Connection"
  | .contentLength => text "Content-Length"
  | .contentType => text "Content-Type"
  | .cookie => text "Cookie"
  | .date => text "Date"
  | .expect => text "Expect"
  | .host => text "Host"
  | .ifMatch => text "If-Match"
  | .ifModifiedSince => text "If-Modified-Since"
  | .ifNoneMatch => text "If-None-Match"
  | .origin => text "Origin"
  | .pragma => text "Pragma"
  | .proxyAuthorization => text "Proxy-Authorization"
  | .range => text "Range"
  | .referer => text "Referer"
  | .te => text "TE"
  | .upgrade => text "Upgrade"
  | .userAgent => text "User-Agent"
  | .via => text "Via"
  | .warning => text "Warning"

/-- `Header`: a key and a value. -/
abbrev Header := Text × Text

/-- `create_header` for a key of the enumeration. -/
def createHeader (key : EHeaderType) (value : Text) : Header := (headerTypeToString key, value)

/-- The names of headers are compared without regard to the case of their letters. -/
def SameName (name name' : Text) : Prop := name.map toUpper = name'.map toUpper

instance (name name' : Text) : Decidable (SameName name name') :=
  inferInstanceAs (Decidable (_ = _))

end HttpCommon

end IACore
