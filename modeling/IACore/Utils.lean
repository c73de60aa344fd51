import IACore.Text

/-!
# The hexadecimal codec of `Utils`
-/

namespace IACore

namespace Utils

/-- `LUT`. -/
def lut : Text := text "0123456789ABCDEF"

/-- `binary_to_hex_string`. -/
def binaryToHexString (data : List UInt8) : Text :=
  data.foldl (fun (res : Text) (b : UInt8) =>
    res ++ [lut.getD ((b >>> 4) &&& 0x0F).toNat 0] ++ [lut.getD (b &&& 0x0F).toNat 0]) []

/-- `from_hex_char`; a `char` is promoted to `i32`. -/
def fromHexChar (c : UInt8) : BitVec 32 :=
  if '0'.toUInt8 ≤ c ∧ c ≤ '9'.toUInt8 then c.toBitVec.signExtend 32 - 48
  else if 'A'.toUInt8 ≤ c ∧ c ≤ 'F'.toUInt8 then c.toBitVec.signExtend 32 - 65 + 10
  else if 'a'.toUInt8 ≤ c ∧ c ≤ 'f'.toUInt8 then c.toBitVec.signExtend 32 - 97 + 10
  else -1

/-- The loop of `hex_string_to_binary` over what is left of `hex`, an even number of characters. -/
def hexStringFrom (out : List UInt8) : Text → Except String (List UInt8)
  | high :: low :: hex =>
    let h := fromHexChar high
    let l := fromHexChar low
    if h = -1 ∨ l = -1 then .error "Invalid hex character found"
    else hexStringFrom (out ++ [⟨((h <<< 4) ||| l).setWidth 8⟩]) hex
  | _ => .ok out

/-- `hex_string_to_binary`. -/
def hexStringToBinary (hex : Text) : Except String (List UInt8) :=
  if hex.length % 2 ≠ 0 then .error "Hex string must have even length" else hexStringFrom [] hex

end Utils

end IACore
