import ChatGateway.Decimal.Layout
import ChatGateway.Json.Value

/-!
# JSON text

The compact text of a JSON value, and the text with one member a line.  Control
characters are always escaped, so a text never holds a line break of its own.
-/

namespace ChatGateway

namespace Json

def writeNumber : Number -> List Char
  | .int value => (toString value).toList
  | .double value => Decimal.writeDouble value
  | .single value => Decimal.writeSingle value

/-- The lower-case hexadecimal digit of a number below sixteen. -/
def hexDigit (n : Nat) : Char :=
  if n < 10 then Char.ofNat (0x30 + n) else Char.ofNat (0x57 + n)

def escape (c : Char) : List Char :=
  if c = '"' then ['\\', '"']
  else if c = '\\' then ['\\', '\\']
  else if c = '\n' then ['\\', 'n']
  else if c = '\r' then ['\\', 'r']
  else if c = '\t' then ['\\', 't']
  else if c = '\x08' then ['\\', 'b']
  else if c = '\x0c' then ['\\', 'f']
  else if c.toNat < 0x20 then
    ['\\', 'u', '0', '0', hexDigit (c.toNat / 0x10), hexDigit (c.toNat % 0x10)]
  else [c]

def quote (value : String) : List Char :=
  '"' :: (value.toList.flatMap escape ++ ['"'])

mutual

def write : Json -> List Char
  | .null => ['n', 'u', 'l', 'l']
  | .bool true => ['t', 'r', 'u', 'e']
  | .bool false => ['f', 'a', 'l', 's', 'e']
  | .number value => writeNumber value
  | .text value => quote value
  | .array items => '[' :: (writeItems items ++ [']'])
  | .object members => '{' :: (writeMembers members ++ ['}'])

/-- The items of an array with commas between them. -/
def writeItems : List Json -> List Char
  | [] => []
  | [item] => write item
  | item :: next :: rest => write item ++ ',' :: writeItems (next :: rest)

/-- The members of an object with commas between them. -/
def writeMembers : List (String × Json) -> List Char
  | [] => []
  | [(name, value)] => quote name ++ ':' :: write value
  | (name, value) :: next :: rest =>
      quote name ++ ':' :: (write value ++ ',' :: writeMembers (next :: rest))

end

/-- The compact text of a value. -/
def render (value : Json) : String :=
  String.ofList value.write

/-- An object with one member a line, two blanks before each, and its values in compact text. -/
def renderLines (members : List (String × Json)) : String :=
  let line (member : String × Json) : String :=
    String.ofList (' ' :: ' ' :: (quote member.1 ++ ':' :: ' ' :: member.2.write))
  let lines := (members.map line).intersperse ",\n"
  "\x7b\n" ++ lines.foldr (· ++ ·) "" ++ "\n\x7d"

end Json

end ChatGateway
