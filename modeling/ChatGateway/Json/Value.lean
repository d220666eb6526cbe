import ChatGateway.Decimal.Binary

/-!
# JSON values

A JSON document as a tree.  Members stay in the order and number in which they
were written; `canonical` sorts them by name and keeps the last of each name.
-/

namespace ChatGateway

/-- A JSON number: a whole one, or a binary fraction of one of two precisions. -/
inductive Number where
  | int (value : Int)
  | double (value : Decimal.Binary)
  | single (value : Decimal.Binary)
  deriving DecidableEq, Repr

/-- A number in single precision: finite, or beyond the greatest one. -/
inductive Single where
  | finite (value : Decimal.Binary)
  | infinite (negative : Bool)
  deriving DecidableEq, Repr

namespace Number

/-- The number below `limit` that a whole number is. -/
def natBelow? (limit : Nat) : Number -> Option Nat
  | .int value => if 0 ≤ value ∧ value < limit then some value.toNat else none
  | _ => none

def uint32? (number : Number) : Option UInt32 :=
  (number.natBelow? UInt32.size).map UInt32.ofNat

def uint64? (number : Number) : Option UInt64 :=
  (number.natBelow? UInt64.size).map UInt64.ofNat

def toSingle : Number -> Single
  | .int value => rounded (decide (value < 0)) (value.natAbs, 1)
  | .double value => rounded value.negative value.size.ratio
  | .single value => .finite value
where
  rounded (negative : Bool) (ratio : Nat × Nat) : Single :=
    match Decimal.Magnitude.nearest? .single ratio.1 ratio.2 with
    | some size => .finite ⟨negative, size⟩
    | none => .infinite negative

end Number

inductive Json where
  | null
  | bool (value : Bool)
  | number (value : Number)
  | text (value : String)
  | array (items : List Json)
  | object (members : List (String × Json))
  deriving Inhabited

namespace Json

def int (value : Int) : Json :=
  .number (.int value)

def nat (value : Nat) : Json :=
  .number (.int value)

/-- A number of single precision; null stands for one that is not finite. -/
def ofSingle : Single -> Json
  | .finite value => .number (.single value)
  | .infinite _ => .null

def optional (write : α -> Json) : Option α -> Json
  | some value => write value
  | none => .null

/-- A member if there is a value for it, no member otherwise. -/
def member? (name : String) (write : α -> Json) : Option α -> List (String × Json)
  | some value => [(name, write value)]
  | none => []

/-- The first member of a name, if the value is an object that has one. -/
def get? (name : String) : Json -> Option Json
  | .object members => members.lookup name
  | _ => none

def text? : Json -> Option String
  | .text value => some value
  | _ => none

/-- Puts a member at its place in a list of members sorted by name, unless the name is there. -/
def insertMember (name : String) (value : Json) :
    List (String × Json) -> List (String × Json)
  | [] => [(name, value)]
  | (other, held) :: rest =>
      if name = other then (other, held) :: rest
      else if name < other then (name, value) :: (other, held) :: rest
      else (other, held) :: insertMember name value rest

mutual

/-- The value with the members of every object sorted by name, the last of each name kept. -/
def canonical : Json -> Json
  | .array items => .array (canonicalItems items)
  | .object members => .object (canonicalMembers members)
  | other => other

def canonicalItems : List Json -> List Json
  | [] => []
  | item :: rest => canonical item :: canonicalItems rest

/-- The members in canonical form; a later member of a name is inserted before an earlier one. -/
def canonicalMembers : List (String × Json) -> List (String × Json)
  | [] => []
  | (name, value) :: rest => insertMember name (canonical value) (canonicalMembers rest)

end

end Json

end ChatGateway
