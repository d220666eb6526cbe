import ChatGateway.Text.Utf8

/-!
# Percent-encoding

Any text as one part of a URL: letters, digits and `-`, `.`, `_`, `~` stand for
themselves, every other byte is written as `%` and two digits.
-/

namespace ChatGateway

namespace Text

namespace Percent

/-- The upper-case hexadecimal digit of a number below sixteen. -/
def digit (n : Nat) : Char :=
  if n < 10 then Char.ofNat (0x30 + n) else Char.ofNat (0x37 + n)

/-- The value of a hexadecimal digit in either case. -/
def digit? (byte : UInt8) : Option Nat :=
  let v := byte.toNat
  if 0x30 ≤ v ∧ v ≤ 0x39 then some (v - 0x30)
  else if 0x41 ≤ v ∧ v ≤ 0x46 then some (v - 0x37)
  else if 0x61 ≤ v ∧ v ≤ 0x66 then some (v - 0x57)
  else none

/-- A byte that stands for itself. -/
def isUnreserved (byte : UInt8) : Bool :=
  let v := byte.toNat
  (0x30 ≤ v && v ≤ 0x39) || (0x41 ≤ v && v ≤ 0x5A) || (0x61 ≤ v && v ≤ 0x7A) ||
    v = 0x2D || v = 0x2E || v = 0x5F || v = 0x7E

def encodeByte (byte : UInt8) : List Char :=
  if isUnreserved byte then [Char.ofNat byte.toNat]
  else ['%', digit (byte.toNat / 0x10), digit (byte.toNat % 0x10)]

/-- The text with every byte that is reserved encoded. -/
def encode (text : String) : String :=
  String.ofList ((Text.bytes text).flatMap encodeByte)

/-- The byte that two digits at the front stand for. -/
def pair? : List UInt8 -> Option UInt8
  | high :: low :: _ =>
      match digit? high, digit? low with
      | some high, some low => some (UInt8.ofNat (high * 0x10 + low))
      | _, _ => none
  | _ => none

/-- The decoded bytes, where the first `skipped` belong to what is decoded already. -/
def decodeFrom : Nat -> List UInt8 -> List UInt8
  | _, [] => []
  | skipped + 1, _ :: rest => decodeFrom skipped rest
  | 0, byte :: rest =>
      match if byte = 0x25 then pair? rest else none with
      | some value => value :: decodeFrom 2 rest
      | none => byte :: decodeFrom 0 rest

/-- The bytes with every `%` and two digits decoded; a `%` without them stands for itself. -/
def decode (input : List UInt8) : List UInt8 :=
  decodeFrom 0 input

end Percent

end Text

end ChatGateway
