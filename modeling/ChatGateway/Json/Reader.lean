import ChatGateway.Text.Split
import ChatGateway.Text.Utf8
import ChatGateway.Json.Number

/-!
# Reading JSON text

Readers take a value off the front of a byte string.  A fault is either text
that is no JSON or JSON of another type than the one read for; the first fault
in the text is reported.  A value may open at most `nesting` brackets inside one
another; a value that is skipped may open any number.
-/

namespace ChatGateway

namespace Json

/-- Why a text could not be read as a value of a type. -/
inductive Fault where
  | malformed
  /-- The text is JSON so far, but not of the type. -/
  | mistyped
  deriving DecidableEq, Repr

def Fault.message : Fault -> String
  | .malformed => "the text is not JSON"
  | .mistyped => "the JSON has another type"

/-- Takes a value off the front of a byte string. -/
abbrev Reader (α : Type) := StateT (List UInt8) (Except Fault) α

/-- The greatest number of brackets open at once. -/
def nesting : Nat := 127

namespace Reader

def malformed : Reader α := fun _ => .error .malformed

def mistyped : Reader α := fun _ => .error .mistyped

/-- Blank, tab, line feed and carriage return. -/
def isBlank (byte : UInt8) : Bool :=
  byte = 0x20 || byte = 0x09 || byte = 0x0A || byte = 0x0D

/-- Skips blanks and looks at the next byte, which has to exist. -/
def peek : Reader UInt8 := fun input =>
  match input.dropWhile isBlank with
  | [] => .error .malformed
  | byte :: rest => .ok (byte, byte :: rest)

def drop : Reader Unit := fun input => .ok ((), input.drop 1)

/-- Skips blanks and takes a byte that has to be the given one. -/
def expect (wanted : UInt8) : Reader Unit := do
  let byte ← peek
  if byte = wanted then drop else malformed

def word (letters : String) : Reader Unit := fun input =>
  match Text.dropStart? (Text.ascii letters) input with
  | some rest => .ok ((), rest)
  | none => .error .malformed

/-! ## Texts -/

def quoteMark : UInt8 := 0x22
def backslash : UInt8 := 0x5C

def hexValue (byte : UInt8) : Option Nat :=
  let v := byte.toNat
  if 0x30 ≤ v ∧ v ≤ 0x39 then some (v - 0x30)
  else if 0x41 ≤ v ∧ v ≤ 0x46 then some (v - 0x37)
  else if 0x61 ≤ v ∧ v ≤ 0x66 then some (v - 0x57)
  else none

/-- Where a scan between quotes stands. -/
inductive Inside where
  | plain
  /-- After a backslash; `lead` is the leading surrogate that has to be completed. -/
  | escape (lead : Option Nat)
  /-- Inside `\u`, with `owed` digits to come and the value of those read. -/
  | digits (lead : Option Nat) (owed : Nat) (value : Nat)
  | halved (lead : Nat)
  deriving DecidableEq, Repr

def isLeading (unit : Nat) : Bool := 0xD800 ≤ unit && unit ≤ 0xDBFF
def isTrailing (unit : Nat) : Bool := 0xDC00 ≤ unit && unit ≤ 0xDFFF

def shortEscape (byte : UInt8) : Option UInt8 :=
  if byte = 0x22 ∨ byte = 0x5C ∨ byte = 0x2F then some byte
  else if byte = 0x62 then some 0x08
  else if byte = 0x66 then some 0x0C
  else if byte = 0x6E then some 0x0A
  else if byte = 0x72 then some 0x0D
  else if byte = 0x74 then some 0x09
  else none

/--
The four digits of an escape are complete.  A leading surrogate needs a trailing
one after it, and a trailing one a leading one before it.
-/
def completeUnit (lead : Option Nat) (unit : Nat) : Option (Inside × List UInt8) :=
  match lead with
  | some high =>
      if isTrailing unit then
        some (.plain, Text.Utf8.encodeChar
          (Char.ofNat (0x10000 + (high - 0xD800) * 0x400 + (unit - 0xDC00))))
      else none
  | none =>
      if isTrailing unit then none
      else if isLeading unit then some (.halved unit, [])
      else some (.plain, Text.Utf8.encodeChar (Char.ofNat unit))

/--
One byte between quotes, other than the closing one: the state after it and the
bytes it adds.  With `paired` false, surrogates are not checked and escapes add
nothing.
-/
def Inside.next (paired : Bool) (state : Inside) (byte : UInt8) : Option (Inside × List UInt8) :=
  match state with
  | .plain =>
      if byte = backslash then some (.escape none, [])
      else if byte < 0x20 then none
      else some (.plain, [byte])
  | .escape lead =>
      if byte = 0x75 then some (.digits lead 4 0, [])
      else if lead.isSome then none
      else (shortEscape byte).map fun meant => (.plain, [meant])
  | .digits lead owed value =>
      match hexValue byte with
      | none => none
      | some digit =>
          let value := value * 16 + digit
          if 1 < owed then some (.digits lead (owed - 1) value, [])
          else if paired then completeUnit lead value
          else some (.plain, [])
  | .halved lead =>
      if byte = backslash then some (.escape (some lead), []) else none

/-- Scans to the closing quote, collecting bytes in reverse. -/
def scanText (paired : Bool) : Inside -> List UInt8 -> List UInt8 ->
    Except Fault (List UInt8 × List UInt8)
  | _, _, [] => .error .malformed
  | state, held, byte :: rest =>
      if state = .plain ∧ byte = quoteMark then .ok (held.reverse, rest)
      else
        match state.next paired byte with
        | some (after, added) => scanText paired after (added.reverse ++ held) rest
        | none => .error .malformed

/-- The text whose opening quote has been taken. -/
def quoted : Reader String := fun input =>
  match scanText true .plain [] input with
  | .error fault => .error fault
  | .ok (held, rest) =>
      match Text.Utf8.decode? held with
      | some value => .ok (value, rest)
      | none => .error .malformed

/-- Passes over a text whose opening quote has been taken; its bytes may be anything. -/
def skipQuoted : Reader Unit := fun input =>
  match scanText false .plain [] input with
  | .error fault => .error fault
  | .ok (_, rest) => .ok ((), rest)

/-! ## Numbers -/

def isDigit (byte : UInt8) : Bool := 0x30 ≤ byte && byte ≤ 0x39

def digitValue (byte : UInt8) : Nat := byte.toNat - 0x30

def digits : Reader (List Nat) := fun input =>
  .ok ((input.takeWhile isDigit).map digitValue, input.dropWhile isDigit)

def someDigits : Reader (List Nat) := do
  let found ← digits
  if found.isEmpty then malformed else pure found

def takeIf (test : UInt8 -> Bool) : Reader (Option UInt8) := fun input =>
  match input with
  | byte :: rest => if test byte then .ok (some byte, rest) else .ok (none, input)
  | [] => .ok (none, input)

/-- The parts of a number as they are written: no zero before other digits of the whole part. -/
def numeral : Reader Numeral := do
  let sign ← takeIf (· = 0x2D)
  let whole ← someDigits
  if whole.head? = some 0 ∧ 1 < whole.length then malformed
  else
    let point ← takeIf (· = 0x2E)
    let fraction ← if point.isSome then some <$> someDigits else pure none
    let mark ← takeIf fun byte => byte = 0x65 || byte = 0x45
    let exponent ←
      if mark.isSome then do
        let signed ← takeIf fun byte => byte = 0x2B || byte = 0x2D
        let power ← someDigits
        pure (some (decide (signed = some 0x2D), power))
      else pure none
    pure { negative := sign.isSome, whole, fraction, exponent }

/-- A number; one above the greatest double is no JSON. -/
def number : Reader Number := do
  let written ← numeral
  match written.value? with
  | some value => pure value
  | none => malformed

/-! ## Brackets -/

/-- Folds over items with commas between them and takes the closing bracket. -/
def foldItems (close : UInt8) (step : σ -> Reader σ) : Nat -> σ -> Reader σ
  | 0, _ => malformed
  | fuel + 1, state => do
      let state ← step state
      let byte ← peek
      if byte = close then do
        drop
        pure state
      else if byte = 0x2C then do
        drop
        foldItems close step fuel state
      else malformed

/-- Folds over the items of a bracket just opened; each takes at least one byte. -/
def items (close : UInt8) (step : σ -> Reader σ) (state : σ) : Reader σ := do
  let byte ← peek
  if byte = close then do
    drop
    pure state
  else fun input => foldItems close step input.length state input

def name : Reader String := do
  expect quoteMark
  let name ← quoted
  expect 0x3A
  pure name

/-! ## Whole values -/

def arrayOf (inside : Reader α) : Reader (List α) := do
  drop
  let found ← items 0x5D (fun held => do
    let item ← inside
    pure (item :: held)) []
  pure found.reverse

/-- The members of an object whose bracket comes next, in the order of the text. -/
def objectOf (inside : Reader α) : Reader (List (String × α)) := do
  drop
  let found ← items 0x7D (fun held => do
    let name ← name
    let item ← inside
    pure ((name, item) :: held)) []
  pure found.reverse

/-- A value of any type; `inside` reads the values inside its brackets. -/
def valueWith (inside : Reader Json) : Reader Json := do
  let byte ← peek
  if byte = 0x6E then do
    word "null"
    pure .null
  else if byte = 0x74 then do
    word "true"
    pure (.bool true)
  else if byte = 0x66 then do
    word "false"
    pure (.bool false)
  else if byte = quoteMark then do
    drop
    .text <$> quoted
  else if byte = 0x2D || isDigit byte then
    .number <$> number
  else if byte = 0x5B then
    .array <$> arrayOf inside
  else if byte = 0x7B then
    .object <$> objectOf inside
  else malformed

def flat : Reader Json := do
  let byte ← peek
  if byte = 0x5B || byte = 0x7B then malformed else valueWith malformed

/-- A value of any type that opens at most `depth` brackets inside one another. -/
def value : Nat -> Reader Json
  | 0 => flat
  | depth + 1 => valueWith (value depth)

/-! ## Skipping -/

inductive Skip where
  | value
  | opened
  | ended
  deriving DecidableEq, Repr

def skipName : Reader Unit := do
  expect quoteMark
  skipQuoted
  expect 0x3A

/-- Passes over one value; `open` holds the closing bytes of the brackets it is inside. -/
def skipFrom : Nat -> Skip -> List UInt8 -> Reader Unit
  | 0, _, _ => malformed
  | _ + 1, .ended, [] => pure ()
  | fuel + 1, .ended, close :: outer => do
      let byte ← peek
      if byte = close then do
        drop
        skipFrom fuel .ended outer
      else if byte = 0x2C then do
        drop
        if close = 0x7D then skipName else pure ()
        skipFrom fuel .value (close :: outer)
      else malformed
  | _ + 1, .opened, [] => malformed
  | fuel + 1, .opened, close :: outer => do
      let byte ← peek
      if byte = close then do
        drop
        skipFrom fuel .ended outer
      else do
        if close = 0x7D then skipName else pure ()
        skipFrom fuel .value (close :: outer)
  | fuel + 1, .value, outer => do
      let byte ← peek
      if byte = 0x5B then do
        drop
        skipFrom fuel .opened (0x5D :: outer)
      else if byte = 0x7B then do
        drop
        skipFrom fuel .opened (0x7D :: outer)
      else do
        if byte = 0x6E then word "null"
        else if byte = 0x74 then word "true"
        else if byte = 0x66 then word "false"
        else if byte = quoteMark then do
          drop
          skipQuoted
        else if byte = 0x2D || isDigit byte then do
          let _ ← numeral
        else malformed
        skipFrom fuel .ended outer

def skip : Reader Unit := fun input =>
  skipFrom (2 * input.length + 2) .value [] input

/-- Reads a whole byte string: one value with only blanks around it. -/
def run (reader : Nat -> Reader α) (input : List UInt8) : Except Fault α :=
  match reader nesting input with
  | .error fault => .error fault
  | .ok (found, rest) => if rest.all isBlank then .ok found else .error .malformed

end Reader

def read (input : List UInt8) : Except Fault Json :=
  Reader.run Reader.value input

end Json

end ChatGateway
