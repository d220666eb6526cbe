import ChatGateway.Http.Exchange
import ChatGateway.Http.Url
import ChatGateway.Json.Value
import ChatGateway.Stream.Encoder

/-!
# Messages

Requests that callers make, the responses they get, and the requests that the
gateway sends.
-/

namespace ChatGateway

namespace Http

structure Request where
  method : String
  /-- The path, and the query after a question mark. -/
  target : String
  /-- Values are bytes, in the order of arrival. -/
  headers : List (String × List UInt8)
  body : List UInt8
  deriving DecidableEq, Repr

/-- The text of a header value that holds visible ASCII characters, blanks and tabs only. -/
def visible? (value : List UInt8) : Option String :=
  if value.all fun byte => (0x20 ≤ byte && byte < 0x7F) || byte = 0x09 then
    some (String.ofList (value.map fun byte => Char.ofNat byte.toNat))
  else none

namespace Request

/-- The first header of a name, whose case does not matter, if its value is visible. -/
def header? (request : Request) (name : String) : Option String :=
  ((request.headers.find? fun header => header.1.toList.map Char.toLower = name.toList).map
    Prod.snd).bind visible?

/-- The path, without the query and without what follows a number sign. -/
def path (request : Request) : List Char :=
  request.target.toList.takeWhile fun c => c ≠ '?' && c ≠ '#'

end Request

inductive Content where
  | empty
  | json (value : Json)
  | events (frames : List (Stream.Timed Stream.Outgoing))

structure Response where
  status : Nat
  headers : List (String × String)
  content : Content

namespace Response

def bare (status : Nat) : Response := ⟨status, [], .empty⟩

def ofJson (status : Nat) (value : Json) : Response :=
  ⟨status, [("content-type", "application/json")], .json value⟩

def ofFailure (failure : Failure) : Response :=
  ofJson failure.status failure.body

def ofEvents (frames : List (Stream.Timed Stream.Outgoing)) : Response :=
  ⟨200, [("content-type", "text/event-stream"), ("cache-control", "no-cache")], .events frames⟩

end Response

/-- A request of the gateway, with a JSON value as its body. -/
structure Sent where
  url : String
  headers : List (String × String)
  body : Json

namespace Sent

/-- A header value that can be sent: no control character but the tab. -/
def isSendableValue (value : String) : Bool :=
  value.toList.all fun c => (0x20 ≤ c.toNat && c.toNat ≠ 0x7F) || c = '\t'

/-- The address of a request that can be sent at all. -/
def address? (sent : Sent) : Option Url :=
  if sent.headers.all fun header => isSendableValue header.2 then
    (Url.read? sent.url).filter Url.isReachable
  else none

end Sent

end Http

end ChatGateway
