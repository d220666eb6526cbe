/-!
# UTF-16

Bytes read in pairs as units of 16 bits: a unit is a character, or one half of a
character above U+FFFF.  A half without the other one, and a byte without its
pair, stands for U+FFFD.
-/

namespace ChatGateway

namespace Text

namespace Utf16

/-- A unit from its two bytes in the order of arrival. -/
def unit (bigEndian : Bool) (first second : UInt8) : Nat :=
  if bigEndian then first.toNat * 0x100 + second.toNat
  else second.toNat * 0x100 + first.toNat

def isHigh (unit : Nat) : Bool := 0xD800 ≤ unit && unit < 0xDC00

def isLow (unit : Nat) : Bool := 0xDC00 ≤ unit && unit < 0xE000

def join (high low : Nat) : Char :=
  Char.ofNat (0x10000 + (high - 0xD800) * 0x400 + (low - 0xDC00))

/-- The characters of a byte string after the first half `high`, if one is held. -/
def pieces (bigEndian : Bool) : Option Nat -> List UInt8 -> List Char
  | none, [] => []
  | some _, [] | _, [_] => ['\uFFFD']
  | held, first :: second :: rest =>
      let unit := unit bigEndian first second
      match held with
      | some high =>
          if isLow unit then join high unit :: pieces bigEndian none rest
          else if isHigh unit then '\uFFFD' :: pieces bigEndian (some unit) rest
          else '\uFFFD' :: Char.ofNat unit :: pieces bigEndian none rest
      | none =>
          if isHigh unit then pieces bigEndian (some unit) rest
          else if isLow unit then '\uFFFD' :: pieces bigEndian none rest
          else Char.ofNat unit :: pieces bigEndian none rest

/-- The text of any byte string. -/
def decodeLossy (bigEndian : Bool) (bytes : List UInt8) : String :=
  String.ofList (pieces bigEndian none bytes)

end Utf16

end Text

end ChatGateway
