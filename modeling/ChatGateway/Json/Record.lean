import ChatGateway.Json.Reader

/-!
# Records in JSON text

Typed readers.  A record is read from an object, or from an array of its fields
in the order of their declaration.  In an object each field may stand once,
members of other names are skipped, and a field that is not there keeps what the
blank record holds if it may be left out.  In an array only a field with a
default may be left out, and nothing may follow the last field.
-/

namespace ChatGateway

namespace Json

inductive Presence where
  | required
  /-- It may be missing in an object, not in an array. -/
  | optional
  /-- It may be missing in both, and then has the blank record's value. -/
  | defaulted
  deriving DecidableEq, Repr

/-- A field of a record: its name, where it may be left out, and how its value is taken. -/
structure Field (ρ : Type) where
  name : String
  presence : Presence
  take : ρ

namespace Reader

/-- A value of the wrong type: a fault of the text if it does not even end well. -/
def wrongType : Reader α := do
  let byte ← peek
  if byte = 0x6E then do
    word "null"
    mistyped
  else if byte = 0x74 then do
    word "true"
    mistyped
  else if byte = 0x66 then do
    word "false"
    mistyped
  else if byte = quoteMark then do
    drop
    let _ ← quoted
    mistyped
  else if byte = 0x2D || isDigit byte then do
    let _ ← number
    mistyped
  else if byte = 0x5B || byte = 0x7B then mistyped
  else malformed

/-- Reads a value of one type that opens at most so many brackets inside one another. -/
abbrev Typed (α : Type) := Nat -> Reader α

def text : Typed String := fun _ => do
  let byte ← peek
  if byte = quoteMark then do
    drop
    quoted
  else wrongType

def bool : Typed Bool := fun _ => do
  let byte ← peek
  if byte = 0x74 then do
    word "true"
    pure true
  else if byte = 0x66 then do
    word "false"
    pure false
  else wrongType

def numberAs (convert : Number -> Option α) : Typed α := fun _ => do
  let byte ← peek
  if byte = 0x2D || isDigit byte then do
    let found ← number
    match convert found with
    | some value => pure value
    | none => mistyped
  else wrongType

def uint32 : Typed UInt32 := numberAs Number.uint32?

def uint64 : Typed UInt64 := numberAs Number.uint64?

/-- A number, rounded to single precision. -/
def single : Typed Single := numberAs fun found => some found.toSingle

def nullable (inner : Typed α) : Typed (Option α) := fun depth => do
  let byte ← peek
  if byte = 0x6E then do
    word "null"
    pure none
  else some <$> inner depth

def listOf (inner : Typed α) : Typed (List α) := fun depth => do
  let byte ← peek
  if byte = 0x5B then
    match depth with
    | 0 => malformed
    | depth + 1 => arrayOf (inner depth)
  else wrongType

/-- A value that is read whole first and then taken as one of a type. -/
def via (convert : Json -> Option α) : Typed α := fun depth => do
  let found ← value depth
  match convert found with
  | some result => pure result
  | none => mistyped

def free : Typed Json := fun depth =>
  canonical <$> value depth

/-- A field of a record read from text: it stores its value in the record. -/
abbrev TextField (σ : Type) := Field (Typed (σ -> σ))

def TextField.required (name : String) (inner : Typed α) (store : α -> σ -> σ) : TextField σ :=
  ⟨name, .required, fun depth => store <$> inner depth⟩

/-- A field that may be null or missing. -/
def TextField.optional (name : String) (inner : Typed α) (store : Option α -> σ -> σ) :
    TextField σ :=
  ⟨name, .optional, fun depth => store <$> nullable inner depth⟩

/-- A field that may be missing but not null. -/
def TextField.defaulted (name : String) (inner : Typed α) (store : α -> σ -> σ) : TextField σ :=
  ⟨name, .defaulted, fun depth => store <$> inner depth⟩

/-- One member of the object of a record; `seen` holds the names of the fields read so far. -/
def member (fields : List (TextField σ)) (depth : Nat) (state : List String × σ) :
    Reader (List String × σ) := do
  expect quoteMark
  let name ← quoted
  match fields.find? (fun field => field.name = name) with
  | none => do
      expect 0x3A
      skip
      pure state
  | some field =>
      if state.1.contains name then mistyped
      else do
        expect 0x3A
        let store ← field.take depth
        pure (name :: state.1, store state.2)

def complete (fields : List (Field ρ)) (seen : List String) : Bool :=
  fields.all fun field => field.presence ≠ .required || seen.contains field.name

/-- Whether another item of an array follows; the comma before it is taken. -/
def hasItem (first : Bool) : Reader Bool := do
  let byte ← peek
  if byte = 0x5D then pure false
  else if first then pure true
  else if byte = 0x2C then do
    drop
    let next ← peek
    if next = 0x5D then malformed else pure true
  else malformed

def positional (depth : Nat) : Bool -> List (TextField σ) -> σ -> Reader σ
  | _, [], state => do
      expect 0x5D
      pure state
  | first, field :: rest, state => do
      let there ← hasItem first
      if there then do
        let store ← field.take depth
        positional depth false rest (store state)
      else if field.presence = .defaulted then
        positional depth first rest state
      else mistyped

def record (fields : List (TextField σ)) (blank : σ) : Typed σ := fun depth => do
  let byte ← peek
  if byte = 0x7B then
    match depth with
    | 0 => malformed
    | depth + 1 => do
        drop
        let (seen, state) ← items 0x7D (member fields depth) ([], blank)
        if complete fields seen then pure state else mistyped
  else if byte = 0x5B then
    match depth with
    | 0 => malformed
    | depth + 1 => do
        drop
        positional depth true fields blank
  else wrongType

end Reader

end Json

end ChatGateway
