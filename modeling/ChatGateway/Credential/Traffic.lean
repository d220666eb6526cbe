import ChatGateway.Credential.Call
import ChatGateway.Credential.Store

/-!
# Traffic

Calls side by side, with the keeper and the disk that they share.  At each moment a call
comes, or one of those under way goes on.  Which one that is, what the token endpoint
replies, what the clock shows and where the machine under the store fails is all left open.
-/

namespace ChatGateway

namespace Credential

/--
A fault of the machine at a step of saving, which then has no effect.  It is assumed that the
step itself reports the fault.  A write may be taken over to be carried out in the background,
and that it failed may be reported only with the next one; saving writes once and then
synchronizes the draft.  A failure that is not reported by then is left out here.
-/
structure Mishap where
  step : Store.SaveStep
  message : String
  deriving DecidableEq, Repr

namespace Store

/-- Saving on a machine that may fail at one step; the steps before it have taken place. -/
def saveAmid (store : Store) (record : Record) (disk : Disk) :
    Option Mishap -> Disk × Except Failure Unit
  | none => store.save record disk
  | some mishap =>
      match store.saveSteps record disk (SaveStep.all.takeWhile (· ≠ mishap.step)) with
      | (disk, .ok _) => (store.abandon disk mishap.step, .error (.storage mishap.message))
      | (disk, .error fault) => (disk, .error (failure fault))

/-- Removing the record on a machine that may fail. -/
def clearAmid (store : Store) (disk : Disk) : Option Mishap -> Disk × Except Failure Unit
  | none => store.clear disk
  | some mishap => (disk, .error (.storage mishap.message))

end Store

/-- A call under way, with what was asked for. -/
structure Caller where
  call : Call
  stage : Stage

/-- What a call that waits is given. -/
inductive Input where
  | turn
  | reply (reply : TokenReply)
  /-- The store does what the call waits for, unless the machine fails. -/
  | store (mishap : Option Mishap)
  deriving DecidableEq, Repr

inductive Action where
  | begin (call : Call)
  /-- The call with this number goes on. -/
  | advance (index : Nat) (input : Input)
  deriving DecidableEq, Repr

/-- An action with what the clock shows. -/
structure Moment where
  now : UInt64
  action : Action
  deriving DecidableEq, Repr

structure Traffic where
  keeper : Keeper
  disk : Disk
  /-- All calls so far, numbered in the order in which they came. -/
  calls : List Caller
  /-- The requests sent to the token endpoint, each with the call that sent it. -/
  sent : List (Nat × TokenRequest)
  /-- The refreshes that are finished, each with its call and its outcome. -/
  settled : List (Nat × Except Failure String)

namespace Stage

/-- The request that a call sends as it comes to this stage. -/
def request? (stage : Stage) : Option TokenRequest :=
  match stage.wait with
  | .reply request => some request
  | _ => none

/-- The outcome that a call at this stage settles a refresh with. -/
def settling? : Stage -> Option (Except Failure String)
  | .refreshed outcome => some outcome
  | _ => none

end Stage

namespace Traffic

/-- No call has come yet, and the keeper knows the stored record. -/
def opened (store : Store) (disk : Disk) : Except Failure Traffic :=
  (store.load disk).map fun stored => ⟨.initial stored, disk, [], [], []⟩

/--
The event that an input brings to a call that waits, and the disk after it.  The gate lets
one call in at a time; an input that a call does not wait for brings nothing.
-/
def event? (store : Store) (traffic : Traffic) : Wait -> Input -> Option (Disk × Event)
  | .turn, .turn => some (traffic.disk, .turn)
  | .gate, .turn => if traffic.keeper.gate then none else some (traffic.disk, .turn)
  | .reply _, .reply reply => some (traffic.disk, .reply reply)
  | .save record, .store mishap =>
      let (disk, outcome) := store.saveAmid record traffic.disk mishap
      some (disk, .stored outcome)
  | .clear, .store mishap =>
      let (disk, outcome) := store.clearAmid traffic.disk mishap
      some (disk, .stored outcome)
  | _, _ => none

def arrive (traffic : Traffic) (call : Call) : Traffic :=
  { traffic with calls := traffic.calls ++ [⟨call, .ofCall call⟩] }

/-- A call comes to its next stage. -/
def put (traffic : Traffic) (index : Nat) (caller : Caller) (disk : Disk)
    (next : Keeper × Stage) : Traffic where
  keeper := next.1
  disk := disk
  calls := traffic.calls.set index ⟨caller.call, next.2⟩
  sent := traffic.sent ++ next.2.request?.toList.map fun request => (index, request)
  settled := traffic.settled ++ caller.stage.settling?.toList.map fun outcome => (index, outcome)

/-- What one moment changes; nothing can happen that no call waits for. -/
def step (store : Store) (traffic : Traffic) (moment : Moment) : Option Traffic :=
  match moment.action with
  | .begin call => some (traffic.arrive call)
  | .advance index input => do
      let caller ← traffic.calls[index]?
      let (disk, event) ← traffic.event? store caller.stage.wait input
      some (traffic.put index caller disk (caller.stage.step moment.now traffic.keeper event))

def run (store : Store) : Traffic -> List Moment -> Option Traffic
  | traffic, [] => some traffic
  | traffic, moment :: rest => do
      let next ← traffic.step store moment
      run store next rest

end Traffic

end Credential

end ChatGateway
