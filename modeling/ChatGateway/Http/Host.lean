import ChatGateway.Text.Percent
import ChatGateway.Text.Split

/-!
# Hosts in URLs

A host is a name or an address.  Addresses of both versions are read in every
form that the URL standard admits, and written in one.
-/

namespace ChatGateway

namespace Http

inductive Host where
  | name (text : String)
  | ipv4 (address : Nat)
  | ipv6 (pieces : List Nat)
  deriving DecidableEq, Repr

namespace Host

def isForbidden (c : Char) : Bool :=
  "\x00\t\n\r #/:<>?@[\\]^|".toList.contains c

def isForbiddenInName (c : Char) : Bool :=
  isForbidden c || c.toNat < 0x20 || c = '%' || c.toNat = 0x7F

def digit? (base : Nat) (c : Char) : Option Nat :=
  ((Text.Percent.digit? (UInt8.ofNat c.toNat)).filter fun value => value < base).filter
    fun _ => c.toNat < 0x80

/-- The number that digits of the given base write; none at all write zero. -/
def number? (base : Nat) : List Char -> Option Nat
  | digits => digits.foldlM (fun value c => (digit? base c).map (value * base + ·)) 0

/-! ## Addresses of version 4 -/

/-- One part of an address: a zero before it makes it octal, `0x` hexadecimal. -/
def part? : List Char -> Option Nat
  | [] => none
  | '0' :: 'x' :: digits | '0' :: 'X' :: digits => number? 16 digits
  | '0' :: c :: digits => number? 8 (c :: digits)
  | digits => number? 10 digits

/-- The parts of a name, without the empty one after a dot at its end. -/
def parts (name : List Char) : List (List Char) :=
  let all := Text.splitAll '.' name
  if all.getLast? = some [] then all.dropLast else all

/-- A name whose last part is a number is an address or nothing. -/
def endsInNumber (name : List Char) : Bool :=
  match (parts name).getLast? with
  | none => false
  | some last => (!last.isEmpty && last.all Char.isDigit) || (part? last).isSome

/-- The address of its parts: all but the last are bytes, the last fills what is left. -/
def address? (numbers : List Nat) : Option Nat :=
  match numbers.getLast? with
  | none => none
  | some last =>
      let bytes := numbers.dropLast
      if 4 < numbers.length || bytes.any (fun byte => 255 < byte) ||
          Nat.pow 256 (4 - bytes.length) ≤ last then none
      else some (bytes.foldr (fun byte high => high / 256 + byte * Nat.pow 256 3) 0 + last)

def ipv4? (name : List Char) : Option Nat :=
  ((parts name).mapM part?).bind address?

def writeIpv4 (address : Nat) : String :=
  Text.join "." ([3, 2, 1, 0].map fun place => toString (address / Nat.pow 256 place % 256))

/-! ## Addresses of version 6 -/

/-- One byte of a dotted ending, in its shortest form. -/
def dottedByte? (digits : List Char) : Option Nat :=
  if digits.isEmpty || (1 < digits.length && digits.head? = some '0') then none
  else (number? 10 digits).filter fun value => value < 256

/-- The two pieces of an ending like `1.2.3.4`. -/
def dotted? (text : List Char) : Option (List Nat) :=
  match (Text.splitAll '.' text).mapM dottedByte? with
  | some [a, b, c, d] => some [a * 256 + b, c * 256 + d]
  | _ => none

def piece? (digits : List Char) : Option Nat :=
  if digits.isEmpty || 4 < digits.length then none else number? 16 digits

/-- The pieces of a list of groups; only the last group may be dotted, if any may. -/
def pieces? (dottedEnd : Bool) : List (List Char) -> Option (List Nat)
  | [] => some []
  | [last] =>
      if dottedEnd && last.contains '.' then dotted? last else (piece? last).map fun n => [n]
  | group :: rest => do
      let piece ← piece? group
      let pieces ← pieces? dottedEnd rest
      return piece :: pieces

/-- The pieces between colons; an empty text has none. -/
def groups? (dottedEnd : Bool) (text : List Char) : Option (List Nat) :=
  if text.isEmpty then some [] else pieces? dottedEnd (Text.splitAll ':' text)

/-- The text before and after the first two colons in a row. -/
def cutGap (before : List Char) : List Char -> Option (List Char × List Char)
  | ':' :: ':' :: rest => some (before.reverse, rest)
  | c :: rest => cutGap (c :: before) rest
  | [] => none

/-- The eight pieces of an address; two colons stand for the zeros that are left out. -/
def ipv6? (text : List Char) : Option (List Nat) :=
  match cutGap [] text with
  | none => (groups? true text).filter fun pieces => !text.isEmpty && pieces.length = 8
  | some (left, right) => do
      let left ← groups? false left
      let right ← groups? true right
      if left.length + right.length < 8 then
        some (left ++ List.replicate (8 - left.length - right.length) 0 ++ right)
      else none

def zeros (pieces : List Nat) : Nat :=
  (pieces.takeWhile (· = 0)).length

/-- Where the first of the longest runs of zeros begins, and its length. -/
def longestGap (pieces : List Nat) : Nat × Nat :=
  (List.range pieces.length).foldl
    (fun best start =>
      let length := zeros (pieces.drop start)
      if best.2 < length then (start, length) else best)
    (0, 0)

/-- The lower-case hexadecimal digits of a piece. -/
def writePieces (pieces : List Nat) : String :=
  Text.join ":" (pieces.map fun piece => String.ofList (Nat.toDigits 16 piece))

/-- The address with its longest gap of two zeros or more left out. -/
def writeIpv6 (pieces : List Nat) : String :=
  let (start, length) := longestGap pieces
  if length < 2 then writePieces pieces
  else writePieces (pieces.take start) ++ "::" ++ writePieces (pieces.drop (start + length))

/-! ## Hosts -/

def bracketed? : List Char -> Option (List Char)
  | '[' :: rest => Text.dropEnd? [']'] rest
  | _ => none

def lowerAscii (c : Char) : Char := c.toLower

/-- A host of a scheme that is known to be on the network. -/
def ofNetwork? (text : List Char) : Option Host :=
  if text.head? = some '[' then ((bracketed? text).bind ipv6?).map .ipv6
  else do
    let decoded ← Text.Utf8.decode? (Text.Percent.decode (Text.Utf8.encode text))
    let name := decoded.toList.map lowerAscii
    if name.isEmpty || name.any isForbiddenInName then none
    else if endsInNumber name then (ipv4? name).map .ipv4
    else some (.name (String.ofList name))

/-- A host of any other scheme, which is kept as it is. -/
def ofOther? (text : List Char) : Option Host :=
  if text.head? = some '[' then ((bracketed? text).bind ipv6?).map .ipv6
  else if text.any isForbidden then none
  else some (.name (String.ofList text))

def write : Host -> String
  | .name text => text
  | .ipv4 address => writeIpv4 address
  | .ipv6 pieces => "[" ++ writeIpv6 pieces ++ "]"

end Host

end Http

end ChatGateway
