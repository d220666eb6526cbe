/-!
# UTF-8

Characters as bytes and back.  Reading keeps one machine for both readings of a
byte string: every byte that begins or continues no character becomes a stray
piece, `decode?` refuses strays and `decodeLossy` writes U+FFFD for each.
-/

namespace ChatGateway

namespace Text

namespace Utf8

/-- The bytes of one character, by the four ranges of its code point. -/
def encodeChar (c : Char) : List UInt8 :=
  let v := c.toNat
  if v < 0x80 then
    [UInt8.ofNat v]
  else if v < 0x800 then
    [UInt8.ofNat (0xC0 + v / 0x40), UInt8.ofNat (0x80 + v % 0x40)]
  else if v < 0x10000 then
    [UInt8.ofNat (0xE0 + v / 0x1000), UInt8.ofNat (0x80 + v / 0x40 % 0x40),
      UInt8.ofNat (0x80 + v % 0x40)]
  else
    [UInt8.ofNat (0xF0 + v / 0x40000), UInt8.ofNat (0x80 + v / 0x1000 % 0x40),
      UInt8.ofNat (0x80 + v / 0x40 % 0x40), UInt8.ofNat (0x80 + v % 0x40)]

def encode (text : List Char) : List UInt8 :=
  text.flatMap encodeChar

@[simp] theorem encode_nil : encode [] = [] := rfl

@[simp] theorem encode_cons (c : Char) (text : List Char) :
    encode (c :: text) = encodeChar c ++ encode text := by
  simp [encode]

@[simp] theorem encode_append (left right : List Char) :
    encode (left ++ right) = encode left ++ encode right := by
  simp [encode]

/-- Where a reader stands: between characters, or inside one that is still owed bytes. -/
inductive Place where
  | between
  /-- The next byte lies in `low`..`high`; `value` holds the bits read so far. -/
  | inside (owed : Nat) (low high : Nat) (value : Nat)
  deriving DecidableEq, Repr

/-- What one byte does between characters; `none` for a byte that begins no character. -/
def Place.begin (byte : Nat) : Option (Place × Option Char) :=
  if byte < 0x80 then
    some (.between, some (Char.ofNat byte))
  else if byte < 0xC2 then
    none
  else if byte < 0xE0 then
    some (.inside 1 0x80 0xBF (byte - 0xC0), none)
  else if byte < 0xF0 then
    let low := if byte = 0xE0 then 0xA0 else 0x80
    let high := if byte = 0xED then 0x9F else 0xBF
    some (.inside 2 low high (byte - 0xE0), none)
  else if byte < 0xF5 then
    let low := if byte = 0xF0 then 0x90 else 0x80
    let high := if byte = 0xF4 then 0x8F else 0xBF
    some (.inside 3 low high (byte - 0xF0), none)
  else
    none

/-- What one byte does inside a character; `none` for a byte that cannot continue it. -/
def Place.continue (owed low high value byte : Nat) : Option (Place × Option Char) :=
  if low ≤ byte ∧ byte ≤ high then
    let value := value * 0x40 + (byte - 0x80)
    if owed ≤ 1 then
      some (.between, some (Char.ofNat value))
    else
      some (.inside (owed - 1) 0x80 0xBF value, none)
  else
    none

/--
One byte: the place after it and the pieces it completes.  A byte that cannot
continue a character leaves a stray piece and is then read as a beginning.
-/
def Place.next (place : Place) (byte : UInt8) : Place × List (Option Char) :=
  let fresh : Place × List (Option Char) :=
    match Place.begin byte.toNat with
    | some (after, done) => (after, done.toList.map some)
    | none => (.between, [none])
  match place with
  | .between => fresh
  | .inside owed low high value =>
      match Place.continue owed low high value byte.toNat with
      | some (after, done) => (after, done.toList.map some)
      | none => (fresh.1, none :: fresh.2)

/-- The pieces of a byte string after those in `done`, which is reversed. -/
def piecesFrom : Place -> List (Option Char) -> List UInt8 -> List (Option Char)
  | .between, done, [] => done.reverse
  | .inside _ _ _ _, done, [] => (none :: done).reverse
  | place, done, byte :: rest =>
      let (after, pieces) := place.next byte
      piecesFrom after (pieces.reverse ++ done) rest

/-- The characters of a byte string, with `none` for each stray run of bytes. -/
def pieces (bytes : List UInt8) : List (Option Char) :=
  piecesFrom .between [] bytes

/-- The text of a byte string that is UTF-8 throughout. -/
def decode? (bytes : List UInt8) : Option String :=
  let found := pieces bytes
  if found.all Option.isSome then
    some (String.ofList (found.filterMap id))
  else
    none

/-- Where the first stray run of bytes begins, and its length if more bytes follow it. -/
structure Stray where
  start : Nat
  length : Option Nat
  deriving DecidableEq, Repr

/-- The first stray run of what is left at `position`; the character read began at `start`. -/
def strayFrom : Place -> Nat -> Nat -> List UInt8 -> Option Stray
  | .between, _, _, [] => none
  | .inside _ _ _ _, start, _, [] => some ⟨start, none⟩
  | .between, _, position, byte :: rest =>
      match Place.begin byte.toNat with
      | some (after, _) => strayFrom after position (position + 1) rest
      | none => some ⟨position, some 1⟩
  | .inside owed low high value, start, position, byte :: rest =>
      match Place.continue owed low high value byte.toNat with
      | some (after, _) => strayFrom after start (position + 1) rest
      | none => some ⟨start, some (position - start)⟩

def Stray.message (stray : Stray) : String :=
  match stray.length with
  | some length =>
      "invalid utf-8 sequence of " ++ toString length ++ " bytes from index " ++
        toString stray.start
  | none => "incomplete utf-8 byte sequence from index " ++ toString stray.start

/-- Why a byte string is no text; empty for one that is a text. -/
def fault (bytes : List UInt8) : String :=
  ((strayFrom .between 0 0 bytes).map Stray.message).getD ""

/-- The text of any byte string, with U+FFFD for each stray run of bytes. -/
def decodeLossy (bytes : List UInt8) : String :=
  String.ofList ((pieces bytes).map fun piece => piece.getD '\uFFFD')

end Utf8

def bytes (text : String) : List UInt8 :=
  Utf8.encode text.toList

@[simp] theorem bytes_append (left right : String) :
    bytes (left ++ right) = bytes left ++ bytes right := by
  simp [bytes]

end Text

end ChatGateway
