import ChatGateway.Json.Record

/-!
# Values of a type from JSON values

The same record rules on a value that has been read already, for the places
where a choice between types needs the whole value first, and the reading of
tagged values: an object with a member `type`, or an array that begins with the
tag.
-/

namespace ChatGateway

namespace Json

abbrev Decode (α : Type) := Json -> Option α

namespace Decode

def numberAs (convert : Number -> Option α) : Decode α
  | .number found => convert found
  | _ => none

def text : Decode String := Json.text?

def uint32 : Decode UInt32 := numberAs Number.uint32?

def nullable (inner : Decode α) : Decode (Option α)
  | .null => some none
  | value => (inner value).map some

def listOf (inner : Decode α) : Decode (List α)
  | .array items => items.mapM inner
  | _ => none

/-- A field of a record read from a JSON value: it stores its value in the record. -/
abbrev ValueField (σ : Type) := Field (Json -> Option (σ -> σ))

def ValueField.required (name : String) (inner : Decode α) (store : α -> σ -> σ) : ValueField σ :=
  ⟨name, .required, fun value => (inner value).map store⟩

/-- A field that may be null or missing. -/
def ValueField.optional (name : String) (inner : Decode α) (store : Option α -> σ -> σ) :
    ValueField σ :=
  ⟨name, .optional, fun value => (nullable inner value).map store⟩

/-- A field that may be missing but not null. -/
def ValueField.defaulted (name : String) (inner : Decode α) (store : α -> σ -> σ) : ValueField σ :=
  ⟨name, .defaulted, fun value => (inner value).map store⟩

/-- One member of the object of a record; `seen` holds the names of the fields read so far. -/
def member (fields : List (ValueField σ)) (state : List String × σ) (member : String × Json) :
    Option (List String × σ) :=
  match fields.find? (fun field => field.name = member.1) with
  | none => some state
  | some field =>
      if state.1.contains member.1 then none
      else (field.take member.2).map fun store => (member.1 :: state.1, store state.2)

def positional : List (ValueField σ) -> List Json -> σ -> Option σ
  | [], [], state => some state
  | [], _ :: _, _ => none
  | field :: rest, [], state =>
      if field.presence = .defaulted then positional rest [] state else none
  | field :: rest, item :: items, state =>
      (field.take item).bind fun store => positional rest items (store state)

def record (fields : List (ValueField σ)) (blank : σ) : Decode σ
  | .object members =>
      (members.foldlM (member fields) ([], blank)).bind fun (seen, state) =>
        if Reader.complete fields seen then some state else none
  | .array items => positional fields items blank
  | _ => none

/-! ## Tagged values -/

/-- The tag of a tagged value and what is left without it. -/
def splitTag : Json -> Option (Json × Json)
  | .object members =>
      match members.filter (fun member => member.1 = "type") with
      | [tag] => some (tag.2, .object (members.filter fun member => member.1 ≠ "type"))
      | _ => none
  | .array (tag :: rest) => some (tag, .array rest)
  | _ => none

/-- What a value with a tag is, when it holds nothing besides the tag that matters. -/
def bare (value : α) : Decode α
  | .object _ => some value
  | .array [] => some value
  | _ => none

inductive TagForm where
  | named
  /-- By its name, or by its position among the known tags. -/
  | namedOrNumbered
  deriving DecidableEq, Repr

/-- The decoder that a tag selects; an unknown tag selects `other`. -/
def select (form : TagForm) (cases : List (String × Decode α)) (other : Decode α) :
    Json -> Option (Decode α)
  | .text name => some ((cases.lookup name).getD other)
  | .number (.int position) =>
      if form = .namedOrNumbered ∧ 0 ≤ position then
        some (((cases[position.toNat]?).map Prod.snd).getD other)
      else none
  | _ => none

def tagged (form : TagForm) (cases : List (String × Decode α)) (other : Decode α) :
    Decode α := fun value =>
  (splitTag value).bind fun (tag, rest) =>
    (select form cases other tag).bind fun chosen => chosen rest

end Decode

end Json

end ChatGateway
