/-!
# Whole numbers in texts

Digits after a sign or none, read as a number below a limit.
-/

namespace ChatGateway

namespace Text

/-- The number that ASCII digits write, the highest first; `none` for any other text. -/
def digits? (text : List Char) : Option Nat :=
  if text.isEmpty || text.any (fun c => !c.isDigit) then none
  else some (text.foldl (fun value c => value * 10 + (c.toNat - 0x30)) 0)

/-- A number below `limit`, with a plus sign or no sign. -/
def unsignedBelow? (limit : Nat) (text : List Char) : Option Nat :=
  let written := match text with
    | '+' :: rest => rest
    | _ => text
  (digits? written).filter fun value => value < limit

/-- A number below `limit` with any sign; the only one with a minus sign is zero. -/
def signedBelow? (limit : Nat) : List Char -> Option Nat
  | '-' :: rest => (digits? rest).filter fun value => value = 0
  | text => unsignedBelow? limit text

end Text

end ChatGateway
