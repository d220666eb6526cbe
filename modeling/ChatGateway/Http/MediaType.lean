import ChatGateway.Text.Split

/-!
# Media types

The value of a `content-type` header: a type, a subtype that may end in a plus
sign and a suffix, and parameters, which are checked and not kept.
-/

namespace ChatGateway

namespace Http

structure MediaType where
  type : List Char
  subtype : List Char
  suffix : Option (List Char)
  deriving DecidableEq, Repr

namespace MediaType

def isToken (c : Char) : Bool :=
  c.isAlphanum || "!#$%&'+-.^_`|~".toList.contains c

def isQuotable (c : Char) : Bool := 0x20 ≤ c.toNat && c.toNat ≠ 0x7F

/-- What may follow a quoted value: blanks, and then the next parameter or nothing. -/
def afterQuoted? (text : List Char) : Option (List Char) :=
  match text.dropWhile (· = ' ') with
  | [] => some []
  | ';' :: rest => some rest
  | _ => none

/--
A value in quotes, whose first quote has been taken: the text after it.  The value
has one character at least, so that a quote right at its front belongs to it.
-/
def quoted? : List Char -> Option (List Char)
  | [] => none
  | first :: text =>
      let content (c : Char) : Bool := c ≠ '"' && isQuotable c
      match text.dropWhile content with
      | '"' :: rest => if isQuotable first then afterQuoted? rest else none
      | _ => none

/-- A value without quotes: the text after it. -/
def bare? (text : List Char) : Option (List Char) :=
  match text.dropWhile isToken with
  | [] => some []
  | ';' :: rest => if (text.takeWhile isToken).isEmpty then none else some rest
  | _ => none

/-- One parameter with blanks before it: the text after it. -/
def parameter? (text : List Char) : Option (List Char) :=
  match text.dropWhile (· = ' ') with
  | [] => some []
  | text =>
      match text.dropWhile isToken with
      | '=' :: '"' :: rest => if (text.takeWhile isToken).isEmpty then none else quoted? rest
      | '=' :: rest => if (text.takeWhile isToken).isEmpty then none else bare? rest
      | _ => none

/-- Parameters up to the end; each takes a character at least. -/
def areParameters : Nat -> List Char -> Bool
  | _, [] => true
  | 0, _ => false
  | fuel + 1, text =>
      match parameter? text with
      | some rest => areParameters fuel rest
      | none => false

/-- A subtype and its suffix, which comes after the last plus sign but the first character. -/
def ofSubtype (type text : List Char) : MediaType :=
  let suffix := (text.reverse.takeWhile (· ≠ '+')).reverse
  let before := text.take (text.length - suffix.length - 1)
  if before.isEmpty then ⟨type, text, none⟩ else ⟨type, before, some suffix⟩

/-- The media type that a text writes, in lower case. -/
def read? (text : String) : Option MediaType :=
  let text := text.toList
  let type := text.takeWhile isToken
  match text.dropWhile isToken with
  | '/' :: rest =>
      let subtype := rest.takeWhile isToken
      let found := ofSubtype (type.map Char.toLower) (subtype.map Char.toLower)
      if type.isEmpty then none
      else
        match rest.dropWhile isToken with
        | [] => some found
        | ';' :: parameters =>
            if !subtype.isEmpty && areParameters (parameters.length + 1) parameters then
              some found
            else none
        | _ => none
  | _ => none

/-- The types of JSON texts: `application/json` and those with the suffix `json`. -/
def isJson (found : MediaType) : Bool :=
  found.type = "application".toList &&
    (found.subtype = "json".toList || found.suffix = some "json".toList)

end MediaType

end Http

end ChatGateway
