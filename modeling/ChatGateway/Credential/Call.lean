import ChatGateway.Credential.Session
import ChatGateway.Credential.TokenReply

/-!
# Calls on the credential

Calls run side by side and share one keeper.  A call goes through stages; each
step between two of them reads or writes the keeper at one moment, and other
calls may step in between.  Changes to the credential are made behind a gate
that one call holds at a time.

A caller who finds the record stale waits at the gate.  If a refresh finished
since the caller looked, its outcome is the caller's too, so that one refresh
serves everyone who saw the same stale record.

A call whose grant has no time for its end breaks off: it leaves the gate if it
is inside, and changes nothing else.
-/

namespace ChatGateway

namespace Credential

/-- What the calls share. -/
structure Keeper where
  session : Session
  /-- A call holds the gate. -/
  gate : Bool
  /-- The outcome of the last refresh. -/
  lastRefresh : Option (Except Failure String)
  /-- The number of refreshes so far, which wraps around. -/
  generation : UInt64

namespace Keeper

/-- The keeper at the start, with the stored record if there is one. -/
def initial (stored : Option Record) : Keeper :=
  ⟨.ofStored stored, false, none, 0⟩

def withSession (keeper : Keeper) (session : Session) : Keeper :=
  { keeper with session }

def release (keeper : Keeper) : Keeper :=
  { keeper with gate := false }

/-- A refresh has finished; the next call at the gate can see its outcome. -/
def settle (keeper : Keeper) (outcome : Except Failure String) : Keeper :=
  { keeper with
    gate := false, lastRefresh := some outcome, generation := keeper.generation + 1 }

end Keeper

inductive Call where
  /-- Start a flow, which is freshly made. -/
  | start (flow : Flow)
  /-- Exchange what the operator pasted for a credential. -/
  | complete (pasted : String)
  | token
  | logout
  deriving DecidableEq, Repr

inductive Answer where
  | started (flow : Flow)
  | completed (record : Record)
  | token (value : String)
  | loggedOut
  | refused (failure : Failure)
  deriving DecidableEq, Repr

/-- The answer that hands out the outcome of a refresh. -/
def Answer.ofRefresh : Except Failure String -> Answer
  | .ok value => .token value
  | .error failure => .refused failure

/-- Where a call stands.  A stage marked as inside holds the gate. -/
inductive Stage where
  | starting (flow : Flow)
  | completing (pasted : String)
  /-- The exchange of a flow's code is on its way. -/
  | exchanging (flow : Flow) (code : String)
  /-- At the gate with an exchanged record. -/
  | exchanged (flow : Flow) (record : Record)
  /-- Inside, before the flow is looked at again. -/
  | rechecking (flow : Flow) (record : Record)
  /-- Inside, while the exchanged record is stored. -/
  | exchangeStoring (record : Record)
  /-- Inside, with the exchanged record stored. -/
  | exchangeStored (record : Record)
  /-- Before looking whether the record was stored. -/
  | requesting
  /-- At the gate to store the record once more. -/
  | retryWaiting
  /-- Inside, before the record is looked at. -/
  | retrying
  /-- Inside, while the record is stored once more. -/
  | retryStoring (record : Record)
  /-- Inside, with the outcome of storing it. -/
  | retryStored (stored : Except Failure Unit)
  /-- Before the generation is looked at. -/
  | counting
  /-- Before the session is looked at, with the generation seen. -/
  | looking (seen : UInt64)
  /-- At the gate to refresh, with the generation seen before. -/
  | refreshWaiting (seen : UInt64)
  /-- Inside, before the session is looked at again. -/
  | refreshDeciding (seen : UInt64)
  /-- Inside, while the refresh is on its way. -/
  | refreshing (used : String)
  /-- Inside, while the refreshed record is stored. -/
  | refreshStoring (record : Record)
  /-- Inside, with the outcome of storing it. -/
  | refreshStored (record : Record) (stored : Except Failure Unit)
  /-- Inside, while the rejected record is removed. -/
  | refreshClearing (reason : String)
  /-- Inside, with the rejected record removed if it could be. -/
  | refreshCleared (reason : String)
  /-- Inside, with the outcome of the refresh. -/
  | refreshed (outcome : Except Failure String)
  | logoutWaiting
  /-- Inside, while the stored record is removed. -/
  | logoutClearing
  /-- Inside, with the stored record removed. -/
  | logoutCleared
  | over (answer : Answer)
  /-- The call has broken off, without an answer. -/
  | broken

inductive Wait where
  | turn
  | gate
  | reply (request : TokenRequest)
  | save (record : Record)
  | clear
  | none
  deriving DecidableEq, Repr

/-- What comes to a call that waits. -/
inductive Event where
  | turn
  | reply (reply : TokenReply)
  /-- The outcome of storing or removing the record. -/
  | stored (outcome : Except Failure Unit)

namespace Stage

def ofCall : Call -> Stage
  | .start flow => .starting flow
  | .complete pasted => .completing pasted
  | .token => .requesting
  | .logout => .logoutWaiting

def wait : Stage -> Wait
  | .exchanging flow code => .reply (.exchange code flow.state flow.verifier)
  | .refreshing used => .reply (.refresh used)
  | .exchangeStoring record | .refreshStoring record | .retryStoring record => .save record
  | .refreshClearing _ | .logoutClearing => .clear
  | .exchanged _ _ | .retryWaiting | .refreshWaiting _ | .logoutWaiting => .gate
  | .over _ | .broken => .none
  | _ => .turn

/-- A flow's state does not match the one that is pending. -/
def mismatch : Failure :=
  .exchangeFailed "state does not match the pending authorization flow"

/-- The pending flow changed while its code was exchanged. -/
def restarted : Failure :=
  .exchangeFailed "authorization flow was restarted during the exchange"

/-- The end of a call that is refused outside the gate. -/
def refuse (keeper : Keeper) (failure : Failure) : Keeper × Stage :=
  (keeper, .over (.refused failure))

/-- The end of a call that leaves the gate. -/
def leave (keeper : Keeper) (answer : Answer) : Keeper × Stage :=
  (keeper.release, .over answer)

/-- A pasted code: it has to belong to the pending flow. -/
def complete (keeper : Keeper) (pasted : String) : Keeper × Stage :=
  match Pasted.read pasted with
  | .error failure => refuse keeper failure
  | .ok pasted =>
      match keeper.session.pending with
      | none => refuse keeper (.authRequired .start)
      | some flow =>
          if pasted.state = flow.state then (keeper, .exchanging flow pasted.code)
          else refuse keeper mismatch

def exchange (now : UInt64) (keeper : Keeper) (flow : Flow) : TokenReply -> Keeper × Stage
  | .rejected status body =>
      refuse keeper (.exchangeFailed (TokenReply.rejection status body))
  | .failed failure => refuse keeper failure
  | .granted grant =>
      match grant.toRecord none now with
      | some (.ok record) => (keeper, .exchanged flow record)
      | some (.error failure) => refuse keeper failure
      | none => (keeper, .broken)

/-- The exchanged record is taken only if its flow is still the pending one. -/
def recheck (keeper : Keeper) (flow : Flow) (record : Record) : Keeper × Stage :=
  if keeper.session.pending.map Flow.state = some flow.state then
    (keeper, .exchangeStoring record)
  else leave keeper (.refused restarted)

/-- A record that could not be stored before is stored once more. -/
def retry (keeper : Keeper) : Keeper × Stage :=
  match keeper.session.persistFailure, keeper.session.record with
  | some _, some record => (keeper, .retryStoring record)
  | _, _ => (keeper.release, .counting)

def look (now : UInt64) (keeper : Keeper) (seen : UInt64) : Keeper × Stage :=
  match keeper.session.supply now with
  | .fresh token => (keeper, .over (.token token))
  | .absent failure => refuse keeper failure
  | .stale _ => (keeper, .refreshWaiting seen)

/-- A look at the session inside the gate: a refresh since `seen` is not repeated. -/
def decide (now : UInt64) (keeper : Keeper) (seen : UInt64) : Keeper × Stage :=
  match keeper.session.supply now with
  | .fresh token => leave keeper (.token token)
  | .absent failure => leave keeper (.refused failure)
  | .stale record =>
      match if keeper.generation = seen then none else keeper.lastRefresh with
      | some outcome => leave keeper (.ofRefresh outcome)
      | none => (keeper, .refreshing record.refreshToken)

/-- The reply to a refresh; a call that breaks off leaves the gate and settles nothing. -/
def refresh (now : UInt64) (keeper : Keeper) (used : String) : TokenReply -> Keeper × Stage
  | .rejected status body => (keeper, .refreshClearing (TokenReply.rejection status body))
  | .failed failure => (keeper, .refreshed (.error failure))
  | .granted grant =>
      match grant.toRecord (some used) now with
      | some (.ok record) => (keeper, .refreshStoring record)
      | some (.error failure) => (keeper, .refreshed (.error failure))
      | none => (keeper.release, .broken)

/-- One step of a call; an event that its stage does not wait for changes nothing. -/
def step (now : UInt64) (keeper : Keeper) : Stage -> Event -> Keeper × Stage
  | .starting flow, .turn =>
      (keeper.withSession (keeper.session.begin flow), .over (.started flow))
  | .completing pasted, .turn => complete keeper pasted
  | .exchanging flow _, .reply reply => exchange now keeper flow reply
  | .exchanged flow record, .turn => ({ keeper with gate := true }, .rechecking flow record)
  | .rechecking flow record, .turn => recheck keeper flow record
  | .exchangeStoring record, .stored (.ok _) => (keeper, .exchangeStored record)
  | .exchangeStoring _, .stored (.error failure) => leave keeper (.refused failure)
  | .exchangeStored record, .turn =>
      leave (keeper.withSession (keeper.session.adopt record)) (.completed record)
  | .requesting, .turn =>
      (keeper, if keeper.session.persistFailure.isSome then .retryWaiting else .counting)
  | .retryWaiting, .turn => ({ keeper with gate := true }, .retrying)
  | .retrying, .turn => retry keeper
  | .retryStoring _, .stored outcome => (keeper, .retryStored outcome)
  | .retryStored outcome, .turn =>
      ((keeper.withSession (keeper.session.persisted outcome)).release, .counting)
  | .counting, .turn => (keeper, .looking keeper.generation)
  | .looking seen, .turn => look now keeper seen
  | .refreshWaiting seen, .turn => ({ keeper with gate := true }, .refreshDeciding seen)
  | .refreshDeciding seen, .turn => decide now keeper seen
  | .refreshing used, .reply reply => refresh now keeper used reply
  | .refreshStoring record, .stored outcome => (keeper, .refreshStored record outcome)
  | .refreshStored record outcome, .turn =>
      (keeper.withSession (keeper.session.renew record outcome),
        .refreshed (.ok record.accessToken))
  | .refreshClearing reason, .stored _ => (keeper, .refreshCleared reason)
  | .refreshCleared reason, .turn =>
      (keeper.withSession (keeper.session.reject reason),
        .refreshed (.error (.refreshFailed reason)))
  | .refreshed outcome, .turn => (keeper.settle outcome, .over (.ofRefresh outcome))
  | .logoutWaiting, .turn => ({ keeper with gate := true }, .logoutClearing)
  | .logoutClearing, .stored (.ok _) => (keeper, .logoutCleared)
  | .logoutClearing, .stored (.error failure) => leave keeper (.refused failure)
  | .logoutCleared, .turn => leave (keeper.withSession .empty) .loggedOut
  | stage, _ => (keeper, stage)

end Stage

end Credential

end ChatGateway
