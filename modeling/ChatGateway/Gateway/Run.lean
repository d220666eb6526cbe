import ChatGateway.Credential.Store
import ChatGateway.Gateway.Answering

/-!
# Running orders side by side

Orders are calls on the credential and requests of callers.  All of them begin
in the order given, each going on until it has to wait; then whatever was begun
first ends first, but for exchanges without an answer, which end last.  Calls
take the gate in the order in which they came to it.

The run is against a disk and a provider whose answers are known beforehand, so
that its result is a function of them.
-/

namespace ChatGateway

namespace Gateway

inductive Order where
  | start
  | call (call : Credential.Call)
  /-- Whether there is a credential. -/
  | isAuthenticated
  | serve (request : Http.Request)

inductive Outcome where
  | answer (answer : Credential.Answer)
  | flag (value : Bool)
  | response (response : Http.Response)

/-- A request that reached the provider. -/
structure Seen where
  address : Http.Url
  sent : Http.Sent

structure World where
  keeper : Credential.Keeper
  disk : Disk
  /-- The number of flows started so far. -/
  flows : Nat
  /-- What the provider's next answers bring. -/
  exchanges : List Http.Exchange
  /-- The requests that reached the provider, the last one first. -/
  seen : List Seen

structure Conditions where
  setup : Setup
  store : Credential.Store
  now : UInt64
  /-- The longest wait for the next piece of a stream, in milliseconds. -/
  idle : Nat
  flow : Nat -> Credential.Flow
  /-- The name of a stream to which the provider gives none. -/
  streamId : String
  /-- What a request brings when no exchange is left. -/
  otherwise : Http.Exchange

inductive Task where
  | ordered (order : Order)
  | calling (stage : Credential.Stage)
  /-- A call for a caller. -/
  | serving (request : Http.Request) (errand : Errand) (stage : Credential.Stage)
  /-- With a token, before the request for a message is sent. -/
  | asking (request : Http.Request) (plan : Plan) (token : String)
  /-- While the request for a message is on its way. -/
  | asked (request : Http.Request) (plan : Plan)
  | over (outcome : Outcome)
  /-- Broken off, without an outcome. -/
  | broken

/-- What an order waits for outside of the gateway. -/
inductive Outside where
  | exchange (exchange : Http.Exchange)
  | save (record : Credential.Record)
  | clear

/-- It ends only when the longest wait is over. -/
def Outside.isLate : Outside -> Bool
  | .exchange .silent | .exchange (.answered _ (.stalled _)) => true
  | _ => false

structure Run where
  world : World
  tasks : List Task
  /-- The tasks that can go on; the first one does. -/
  ready : List Nat
  atGate : List Nat
  due : List (Nat × Outside)
  /-- What ends after everything else. -/
  late : List (Nat × Outside)

namespace Run

variable (conditions : Conditions)

/-- Sends a request: one that cannot be sent fails and reaches nobody. -/
def send (world : World) (sent : Http.Sent) : World × Http.Exchange :=
  match sent.address? with
  | none => (world, .failed "the request cannot be sent")
  | some address =>
      let seen := ⟨address, sent⟩ :: world.seen
      match world.exchanges with
      | [] => ({ world with seen }, conditions.otherwise)
      | exchange :: exchanges => ({ world with seen, exchanges }, exchange)

def put (run : Run) (index : Nat) (task : Task) : Run :=
  { run with tasks := run.tasks.set index task }

/-- The first ready task goes on waiting. -/
def pause (run : Run) : Run :=
  { run with ready := run.ready.tail }

/-- The first ready task waits for something outside. -/
def await (run : Run) (index : Nat) (outside : Outside) : Run :=
  let run := run.pause
  if outside.isLate then { run with late := run.late ++ [(index, outside)] }
  else { run with due := run.due ++ [(index, outside)] }

/-- Sends a request for a task, which waits for what it brings. -/
def dispatch (run : Run) (index : Nat) (sent : Http.Sent) : Run :=
  let (world, exchange) := send conditions run.world sent
  { run with world }.await index (.exchange exchange)

def stage? : Task -> Option Credential.Stage
  | .calling stage | .serving _ _ stage => some stage
  | _ => none

def withStage (stage : Credential.Stage) : Task -> Task
  | .calling _ => .calling stage
  | .serving request errand _ => .serving request errand stage
  | task => task

/-- One step of a task's call. -/
def stepCall (run : Run) (index : Nat) (event : Credential.Event) : Run :=
  match (run.tasks[index]?).bind stage? with
  | none => run
  | some stage =>
      let (keeper, stage) := stage.step conditions.now run.world.keeper event
      { run with
        world := { run.world with keeper }
        tasks := run.tasks.modify index (withStage stage) }

/-- If the gate is open, the first task that waits for it goes in. -/
def enterNext (run : Run) : Run :=
  if run.world.keeper.gate then run
  else
    match run.atGate with
    | [] => run
    | index :: atGate =>
        { run with atGate, ready := run.ready ++ [index] }.stepCall conditions index .turn

def respond (run : Run) (index : Nat) (request : Http.Request) (response : Http.Response) : Run :=
  run.put index
    (.over (.response (dress conditions.setup.settings.origins request response)))

def begin (run : Run) (index : Nat) : Order -> Run
  | .start =>
      let flow := conditions.flow run.world.flows
      { run with world := { run.world with flows := run.world.flows + 1 } }.put index
        (.calling (.ofCall (.start flow)))
  | .call call => run.put index (.calling (.ofCall call))
  | .isAuthenticated =>
      run.put index (.over (.flag run.world.keeper.session.record.isSome))
  | .serve request =>
      match assess conditions.setup request with
      | .page page => run.respond conditions index request
          (respondNow conditions.setup run.world.keeper.session conditions.now page)
      | .errand errand =>
          let flow := conditions.flow run.world.flows
          let flows := match errand with
            | .start => run.world.flows + 1
            | _ => run.world.flows
          { run with world := { run.world with flows } }.put index
            (.serving request errand (.ofCall (callOf flow errand)))

/-- What a task does with the answer of its call. -/
def conclude (run : Run) (index : Nat) (answer : Credential.Answer) : Task -> Run
  | .serving request (.chat plan) _ =>
      match answer with
      | .token token => run.put index (.asking request plan token)
      | answer => run.respond conditions index request (respondAfter conditions.setup answer)
  | .serving request _ _ =>
      run.respond conditions index request (respondAfter conditions.setup answer)
  | _ => run.put index (.over (.answer answer))

/-- The first ready task, at a stage of its call, goes on. -/
def proceed (run : Run) (index : Nat) (task : Task) (stage : Credential.Stage) : Run :=
  match stage, stage.wait with
  | .over answer, _ => run.conclude conditions index answer task
  | .broken, _ => run.put index .broken
  | _, .turn => (run.stepCall conditions index .turn).enterNext conditions
  | _, .gate =>
      if run.world.keeper.gate then { run.pause with atGate := run.atGate ++ [index] }
      else run.stepCall conditions index .turn
  | _, .reply request => run.dispatch conditions index (tokenRequest conditions.setup request)
  | _, .save record => run.await index (.save record)
  | _, .clear => run.await index .clear
  | _, .none => run.pause

def move (run : Run) (index : Nat) : Run :=
  match run.tasks[index]? with
  | some (.ordered order) => run.begin conditions index order
  | some (.calling stage) => run.proceed conditions index (.calling stage) stage
  | some (.serving request errand stage) =>
      run.proceed conditions index (.serving request errand stage) stage
  | some (.asking request plan token) =>
      (run.put index (.asked request plan)).dispatch conditions index
        (messageRequest conditions.setup plan token)
  | _ => run.pause

/-- Something outside ends, and the task that waited for it can go on. -/
def finish (run : Run) (index : Nat) (outside : Outside) : Run :=
  let run := { run with ready := [index] }
  match outside with
  | .save record =>
      let (disk, outcome) := conditions.store.save record run.world.disk
      ({ run with world := { run.world with disk } }.stepCall conditions index
        (.stored outcome)).enterNext conditions
  | .clear =>
      let (disk, outcome) := conditions.store.clear run.world.disk
      ({ run with world := { run.world with disk } }.stepCall conditions index
        (.stored outcome)).enterNext conditions
  | .exchange exchange =>
      match (run.tasks[index]? : Option Task) with
      | some (.asked request plan) =>
          match respondWith plan conditions.now conditions.streamId conditions.idle exchange with
          | some response => run.respond conditions index request response
          | none => run.put index .broken
      | _ => (run.stepCall conditions index (.reply (.ofExchange exchange))).enterNext conditions

def next (run : Run) : Option Run :=
  match run.ready, run.due, run.late with
  | index :: _, _, _ => some (run.move conditions index)
  | [], (index, outside) :: due, _ => some ({ run with due }.finish conditions index outside)
  | [], [], (index, outside) :: late => some ({ run with late }.finish conditions index outside)
  | [], [], [] => none

def moves : Nat -> Run -> Run
  | 0, run => run
  | fuel + 1, run =>
      match run.next conditions with
      | some run => moves fuel run
      | none => run

/-- The most moves that one order takes. -/
def movesPerOrder : Nat := 64

def ofOrders (world : World) (orders : List Order) : Run where
  world := world
  tasks := orders.map .ordered
  ready := List.range orders.length
  atGate := []
  due := []
  late := []

def outcome? : Task -> Option Outcome
  | .over outcome => some outcome
  | _ => none

/-- Runs orders side by side: the world after them, and the outcomes of those that have one. -/
def all (world : World) (orders : List Order) : World × List (Option Outcome) :=
  let run := (ofOrders world orders).moves conditions (movesPerOrder * orders.length)
  (run.world, run.tasks.map outcome?)

end Run

end Gateway

end ChatGateway
