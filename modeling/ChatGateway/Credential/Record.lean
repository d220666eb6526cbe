import ChatGateway.Failure

/-!
# Credential records

The credential that the gateway acts with, and the grants of the token endpoint
from which records are made.
-/

namespace ChatGateway

namespace Credential

structure Record where
  accessToken : String
  refreshToken : String
  tokenType : String
  expiresAt : UInt64
  deriving DecidableEq, Repr

/-- The type of a token that names none. -/
def defaultTokenType : String := "Bearer"

namespace Record

/-- The seconds until the record expires; none are left once it has. -/
def remaining (record : Record) (now : UInt64) : UInt64 :=
  if record.expiresAt ≤ now then 0 else record.expiresAt - now

/-- More seconds are left than the margin. -/
def isFresh (record : Record) (now margin : UInt64) : Bool :=
  margin < record.remaining now

/-- Tokens with no more seconds than this are refreshed before they are used. -/
def safetyMargin : UInt64 := 60

open Json.Reader in
def reader : Typed Record :=
  Json.Reader.record [
    .required "access_token" text fun accessToken record => { record with accessToken },
    .required "refresh_token" text fun refreshToken record => { record with refreshToken },
    .defaulted "token_type" text fun tokenType record => { record with tokenType },
    .required "expires_at" uint64 fun expiresAt record => { record with expiresAt }]
    ⟨"", "", defaultTokenType, 0⟩

def read (bytes : List UInt8) : Except Json.Fault Record :=
  Json.Reader.run reader bytes

def members (record : Record) : List (String × Json) := [
  ("access_token", .text record.accessToken),
  ("refresh_token", .text record.refreshToken),
  ("token_type", .text record.tokenType),
  ("expires_at", .nat record.expiresAt.toNat)]

def toJson (record : Record) : Json :=
  .object record.members

/-- The text of a stored record, one member a line. -/
def render (record : Record) : String :=
  Json.renderLines record.members

end Record

structure Grant where
  accessToken : String
  refreshToken : Option String
  /-- The seconds that the access token is good for. -/
  expiresIn : UInt64
  tokenType : Option String
  deriving DecidableEq, Repr

namespace Grant

open Json.Reader in
def reader : Typed Grant :=
  Json.Reader.record [
    .required "access_token" text fun accessToken grant => { grant with accessToken },
    .optional "refresh_token" text fun refreshToken grant => { grant with refreshToken },
    .required "expires_in" uint64 fun expiresIn grant => { grant with expiresIn },
    .optional "token_type" text fun tokenType grant => { grant with tokenType }]
    ⟨"", none, 0, none⟩

def read (bytes : List UInt8) : Except Json.Fault Grant :=
  Json.Reader.run reader bytes

/-- The failure of a grant without a refresh token that was asked for with none. -/
def tokenless : Failure :=
  .exchangeFailed "token response has no refresh_token"

/--
When a grant that came at `now` expires, which is a second later at least; there is no such
time if it does not fit into 64 bits.
-/
def expiry? (grant : Grant) (now : UInt64) : Option UInt64 :=
  if now.toNat + max grant.expiresIn.toNat 1 < UInt64.size then
    some (now + max grant.expiresIn 1)
  else none

/--
The record of a grant that came at `now`; a grant without a refresh token keeps
the one that was used for it.  Making it breaks off if there is no time for its
end.
-/
def toRecord (grant : Grant) (used : Option String) (now : UInt64) :
    Option (Except Failure Record) :=
  match grant.refreshToken <|> used with
  | none => some (.error tokenless)
  | some refreshToken => (grant.expiry? now).map fun expiresAt => .ok {
      accessToken := grant.accessToken
      refreshToken
      tokenType := grant.tokenType.getD defaultTokenType
      expiresAt }

end Grant

end Credential

end ChatGateway
