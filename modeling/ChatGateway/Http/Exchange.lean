import ChatGateway.Text.Utf16
import ChatGateway.Text.Utf8

/-!
# Exchanges with a server

What becomes of a request that the gateway sends: it may fail or stay without an
answer, and the body of an answer may break off or stop coming.
-/

namespace ChatGateway

namespace Http

/-- How the body of an answer arrives. -/
inductive Arrival where
  | whole (bytes : List UInt8)
  /-- Reading fails after some bytes. -/
  | broken (bytes : List UInt8) (reason : String)
  | stalled (bytes : List UInt8)
  deriving DecidableEq, Repr

inductive Exchange where
  /-- The request cannot be sent, or the connection fails. -/
  | failed (reason : String)
  | silent
  | answered (status : Nat) (body : Arrival)
  deriving DecidableEq, Repr

/-- An answer as it is received: two statuses never come with a body. -/
def Exchange.ofAnswer (status : Nat) (body : Arrival) : Exchange :=
  .answered status (if status = 204 ∨ status = 304 then .whole [] else body)

/-- The text of a body, without the byte order mark at its front, which tells the encoding. -/
def textOf : List UInt8 -> String
  | 0xEF :: 0xBB :: 0xBF :: rest => Text.Utf8.decodeLossy rest
  | 0xFE :: 0xFF :: rest => Text.Utf16.decodeLossy true rest
  | 0xFF :: 0xFE :: rest => Text.Utf16.decodeLossy false rest
  | bytes => Text.Utf8.decodeLossy bytes

/-- The text of a body; one that does not arrive whole counts as empty. -/
def Arrival.text : Arrival -> String
  | .whole bytes => textOf bytes
  | .broken _ _ | .stalled _ => ""

def isSuccess (status : Nat) : Bool := 200 ≤ status && status < 300

def isClientError (status : Nat) : Bool := 400 ≤ status && status < 500

end Http

end ChatGateway
