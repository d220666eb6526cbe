/-!
# Base64url

Bytes as letters, digits, `-` and `_`, six bits each, without padding.
-/

namespace ChatGateway

namespace Text

namespace Base64Url

def digit (n : Nat) : Char :=
  if n < 26 then Char.ofNat (0x41 + n)
  else if n < 52 then Char.ofNat (0x61 + (n - 26))
  else if n < 62 then Char.ofNat (0x30 + (n - 52))
  else if n = 62 then '-'
  else '_'

/-- Three bytes give four characters; one or two left over give two or three. -/
def encode : List UInt8 -> List Char
  | [] => []
  | [a] =>
      let bits := a.toNat * 0x10
      [digit (bits / 0x40), digit (bits % 0x40)]
  | [a, b] =>
      let bits := (a.toNat * 0x100 + b.toNat) * 4
      [digit (bits / 0x1000), digit (bits / 0x40 % 0x40), digit (bits % 0x40)]
  | a :: b :: c :: rest =>
      let bits := (a.toNat * 0x100 + b.toNat) * 0x100 + c.toNat
      digit (bits / 0x40000) :: digit (bits / 0x1000 % 0x40) ::
        digit (bits / 0x40 % 0x40) :: digit (bits % 0x40) :: encode rest

end Base64Url

end Text

end ChatGateway
