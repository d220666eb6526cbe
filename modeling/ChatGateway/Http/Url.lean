import ChatGateway.Http.Host
import ChatGateway.Text.Blank
import ChatGateway.Text.Whole

/-!
# URLs

Absolute URLs, read as the URL standard says.  Only the parts that matter for
where a request goes are kept: a user name, a password and a fragment are read
over.
-/

namespace ChatGateway

namespace Http

/-- How the rest of a URL is read, by its scheme. -/
inductive SchemeKind where
  /-- A scheme of the network, with the number that its servers listen on. -/
  | network (listen : Nat)
  | file
  | other
  deriving DecidableEq, Repr

def SchemeKind.of : String -> SchemeKind
  | "http" | "ws" => .network 80
  | "https" | "wss" => .network 443
  | "ftp" => .network 21
  | "file" => .file
  | _ => .other

structure Url where
  scheme : String
  host : Option Host
  /-- The number of the TCP endpoint, unless it is the scheme's own. -/
  endpoint : Option Nat
  /-- The path and the query as they are sent. -/
  target : String
  deriving DecidableEq, Repr

namespace Url

/-! ## Parts -/

def isSchemeChar (c : Char) : Bool :=
  c.isAlphanum || c = '+' || c = '-' || c = '.'

/-- The scheme in lower case, and what follows its colon. -/
def scheme? (text : List Char) : Option (String × List Char) :=
  match Text.cut ':' text with
  | some (c :: name, rest) =>
      if c.isAlpha && name.all isSchemeChar then
        some (String.ofList ((c :: name).map Char.toLower), rest)
      else none
  | _ => none

def isSlash (c : Char) : Bool := c = '/' || c = '\\'

/-- Where the part with the host ends. -/
def endsAuthority (slashes : Char -> Bool) (c : Char) : Bool :=
  slashes c || c = '?' || c = '#'

def afterUser (authority : List Char) : List Char :=
  (authority.reverse.takeWhile (· ≠ '@')).reverse

/-- The host, up to a colon outside brackets, and what follows that colon if there is one. -/
def cutHost (bracketed : Bool) (host : List Char) : List Char -> List Char × Option (List Char)
  | [] => (host.reverse, none)
  | c :: rest =>
      if c = ':' && !bracketed then (host.reverse, some rest)
      else cutHost (if c = '[' then true else if c = ']' then false else bracketed)
        (c :: host) rest

/-- The number after a host: the one of the scheme itself is left out. -/
def endpoint? (own : Option Nat) : Option (List Char) -> Option (Option Nat)
  | none => some none
  | some digits =>
      if digits.isEmpty then some none
      else (Text.digits? digits).bind fun number =>
        if UInt16.size ≤ number then none
        else some (if own = some number then none else some number)

/-! ## The target -/

def isReservedInPath (byte : UInt8) : Bool :=
  byte.toNat ≤ 0x20 || 0x7E < byte.toNat ||
    "\"#<>?`\x7b\x7d".toList.contains (Char.ofNat byte.toNat)

def isReservedInQuery (byte : UInt8) : Bool :=
  byte.toNat ≤ 0x20 || 0x7E < byte.toNat || "\"#<>'".toList.contains (Char.ofNat byte.toNat)

/-- A text with the reserved bytes percent-encoded. -/
def encodeReserved (reserved : UInt8 -> Bool) (text : List Char) : List Char :=
  (Text.Utf8.encode text).flatMap fun byte =>
    if reserved byte then
      ['%', Text.Percent.digit (byte.toNat / 0x10), Text.Percent.digit (byte.toNat % 0x10)]
    else [Char.ofNat byte.toNat]

/-- The dots that a segment consists of, if it does. -/
def dots? : List Char -> Option Nat
  | [] => some 0
  | '.' :: rest => (dots? rest).map (· + 1)
  | '%' :: '2' :: 'e' :: rest | '%' :: '2' :: 'E' :: rest => (dots? rest).map (· + 1)
  | _ => none

/-- The segments of a path; `above` holds those before, reversed. -/
def resolve (above : List (List Char)) : List (List Char) -> List (List Char)
  | [] => above.reverse
  | segment :: rest =>
      let stay (above : List (List Char)) : List (List Char) :=
        if rest.isEmpty then [] :: above else above
      match dots? segment with
      | some 1 => resolve (stay above) rest
      | some 2 => resolve (stay above.tail) rest
      | _ => resolve (encodeReserved isReservedInPath segment :: above) rest

/-- The parts of a text between the characters that satisfy `p`. -/
def splitWhere (p : Char -> Bool) (text : List Char) : List (List Char) :=
  Text.splitAll '/' (text.map fun c => if p c then '/' else c)

/-- The path of a URL of the network from what follows its host. -/
def path (text : List Char) : String :=
  let segments := match text with
    | c :: rest => if isSlash c then splitWhere isSlash rest else splitWhere isSlash text
    | [] => [[]]
  String.join ((resolve [] segments).map fun segment => "/" ++ String.ofList segment)

/-- The path and the query; the fragment is left out. -/
def targetOf (text : List Char) : String :=
  let text := text.takeWhile (· ≠ '#')
  match Text.cut '?' text with
  | none => path text
  | some (before, query) =>
      path before ++ "?" ++ String.ofList (encodeReserved isReservedInQuery query)

/-! ## Whole URLs -/

/-- A URL of a network scheme from what follows its slashes. -/
def ofNetwork? (scheme : String) (listen : Nat) (text : List Char) : Option Url := do
  let authority := text.takeWhile fun c => !endsAuthority isSlash c
  let rest := text.dropWhile fun c => !endsAuthority isSlash c
  let (host, number) := cutHost false [] (afterUser authority)
  let host ← Host.ofNetwork? host
  let endpoint ← endpoint? (some listen) number
  return ⟨scheme, some host, endpoint, targetOf rest⟩

/-- A URL of an unknown scheme from what follows its two slashes; its target is kept as it is. -/
def ofOther? (scheme : String) (text : List Char) : Option Url := do
  let slash (c : Char) : Bool := c = '/'
  let authority := text.takeWhile fun c => !endsAuthority slash c
  let rest := text.dropWhile fun c => !endsAuthority slash c
  let (host, number) := cutHost false [] (afterUser authority)
  if host.isEmpty && (number.isSome || authority.contains '@') then none
  else
    let host ← Host.ofOther? host
    let endpoint ← endpoint? none number
    return ⟨scheme, some host, endpoint, String.ofList rest⟩

/-- A letter and a colon or a bar: the beginning of a path on a drive, no host. -/
def isDrive : List Char -> Bool
  | [letter, mark] => letter.isAlpha && (mark = ':' || mark = '|')
  | _ => false

/-- The host of a file; the machine itself is none. -/
def fileHost? (text : List Char) : Option (Option Host) :=
  if text.isEmpty || isDrive text then some none
  else match Host.ofNetwork? text with
    | some (.name "localhost") => some none
    | some host => some (some host)
    | none => none

/-- A URL of a file from what follows its scheme. -/
def ofFile? (text : List Char) : Option Url :=
  match text with
  | a :: b :: rest =>
      if isSlash a && isSlash b then do
        let host ← fileHost? (rest.takeWhile fun c => !endsAuthority isSlash c)
        return ⟨"file", host, none,
          targetOf (rest.dropWhile fun c => !endsAuthority isSlash c)⟩
      else some ⟨"file", none, none, targetOf text⟩
  | _ => some ⟨"file", none, none, targetOf text⟩

/-- A character that is dropped from both ends of a URL. -/
def isOuterBlank (c : Char) : Bool := c.toNat ≤ 0x20

/-- A character that is dropped from anywhere in a URL. -/
def isInnerBlank (c : Char) : Bool := c = '\t' || c = '\n' || c = '\r'

def read? (text : String) : Option Url := do
  let trimmed := Text.dropEndWhile isOuterBlank (text.toList.dropWhile isOuterBlank)
  let (scheme, rest) ← scheme? (trimmed.filter fun c => !isInnerBlank c)
  match SchemeKind.of scheme with
  | .network listen => ofNetwork? scheme listen (rest.dropWhile isSlash)
  | .file => ofFile? rest
  | .other =>
      match rest with
      | '/' :: '/' :: rest => ofOther? scheme rest
      | _ => some ⟨scheme, none, none, String.ofList rest⟩

def write (url : Url) : String :=
  let host := match url.host with
    | some host => "//" ++ host.write
    | none => ""
  let endpoint := match url.endpoint with
    | some number => ":" ++ toString number
    | none => ""
  url.scheme ++ ":" ++ host ++ endpoint ++ url.target

def hostText? (url : Url) : Option String :=
  url.host.map Host.write

def isReachable (url : Url) : Bool :=
  (url.scheme = "http" || url.scheme = "https") && url.host.isSome

end Url

end Http

end ChatGateway
