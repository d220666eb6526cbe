import ChatGateway.Credential.Flow
import ChatGateway.Credential.Record

/-!
# The session

What the gateway remembers of its credential between calls, what it tells the
operator about it, and what a caller gets from it.
-/

namespace ChatGateway

namespace Credential

structure Session where
  record : Option Record
  /-- The flow that is waiting for its code. -/
  pending : Option Flow
  /-- Why the credential was lost, if the provider rejected its refresh. -/
  refreshFailure : Option String
  /-- Why the record could not be stored, while the stored one differs from it. -/
  persistFailure : Option String
  deriving DecidableEq, Repr

namespace Session

def empty : Session := ⟨none, none, none, none⟩

/-- The session that a stored record begins. -/
def ofStored (record : Option Record) : Session := { empty with record }

/-- The failure of a call that needs a record when there is none. -/
def missing (session : Session) : Failure :=
  match session.refreshFailure, session.pending with
  | some reason, _ => .refreshFailed reason
  | none, some _ => .authRequired .callback
  | none, none => .authRequired .start

/-- What a session has for a caller who needs a token. -/
inductive Supply where
  | fresh (token : String)
  /-- The record has to be refreshed first. -/
  | stale (record : Record)
  | absent (failure : Failure)
  deriving DecidableEq, Repr

def supply (session : Session) (now : UInt64) : Supply :=
  match session.record with
  | none => .absent session.missing
  | some record =>
      if record.isFresh now Record.safetyMargin then .fresh record.accessToken
      else .stale record

/-- A new flow takes the place of the pending one. -/
def begin (session : Session) (flow : Flow) : Session :=
  { session with pending := some flow, refreshFailure := none }

/-- An exchanged record, stored already. -/
def adopt (session : Session) (record : Record) : Session :=
  { session with
    record := some record, pending := none, refreshFailure := none, persistFailure := none }

/-- A refreshed record, and whether it could be stored. -/
def renew (session : Session) (record : Record) (stored : Except Failure Unit) : Session :=
  { session with
    record := some record
    persistFailure := match stored with
      | .ok _ => none
      | .error failure => some failure.message }

/-- The outcome of storing the record once more. -/
def persisted (session : Session) (stored : Except Failure Unit) : Session :=
  { session with
    persistFailure := match stored with
      | .ok _ => none
      | .error failure => some failure.message }

/-- The provider rejected the refresh: the credential and any flow are gone. -/
def reject (session : Session) (reason : String) : Session :=
  { session with
    record := none, pending := none, refreshFailure := some reason, persistFailure := none }

end Session

inductive AuthState where
  | unauthenticated
  | pendingAuthorization
  | authenticated
  deriving DecidableEq, Repr

def AuthState.name : AuthState -> String
  | .unauthenticated => "unauthenticated"
  | .pendingAuthorization => "pending_authorization"
  | .authenticated => "authenticated"

/-- The state that a session is in; a pending flow hides the record. -/
def Session.state (session : Session) : AuthState :=
  if session.pending.isSome then .pendingAuthorization
  else if session.record.isSome then .authenticated
  else .unauthenticated

structure Status where
  state : AuthState
  authenticated : Bool
  expiresAt : Option UInt64
  remaining : Option UInt64
  isExpired : Option Bool
  persistFailure : Option String
  deriving DecidableEq, Repr

def Session.status (session : Session) (now : UInt64) : Status := {
  state := session.state
  authenticated := session.record.isSome
  expiresAt := session.record.map Record.expiresAt
  remaining := session.record.map fun record => record.remaining now
  isExpired := session.record.map fun record => !record.isFresh now Record.safetyMargin
  persistFailure := session.persistFailure }

def Status.toJson (status : Status) : Json :=
  .object ([
    ("state", .text status.state.name),
    ("authenticated", .bool status.authenticated)] ++
    Json.member? "expires_at" (fun time => .nat time.toNat) status.expiresAt ++
    Json.member? "expires_in_secs" (fun time => .nat time.toNat) status.remaining ++
    Json.member? "is_expired" .bool status.isExpired ++
    Json.member? "persist_error" .text status.persistFailure)

end Credential

end ChatGateway
