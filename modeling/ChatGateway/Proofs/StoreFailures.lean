import ChatGateway.Proofs.AuthHistory
import ChatGateway.Proofs.Persistence

/-!
# Failures of the store

What callers are told does not depend on whether the store could keep a refreshed record.  A
call by itself is a machine without a store: it hears what the clock shows, what the endpoint
replies and how the store ends an exchange or a logout, and that alone settles its answer and
the session it leaves, but for the note that a record is not stored.  A call for a token whose
every access to the store succeeds leaves no such note; if it stored or removed anything, what
is stored is what is in memory.
-/

namespace ChatGateway

namespace Credential

/-! ## Calls without a store -/

/-- The session, but for whether its record could be stored. -/
def Session.told (session : Session) : Session :=
  { session with persistFailure := none }

@[simp] theorem Session.told_record (session : Session) :
    session.told.record = session.record := rfl

/-- What a call hears, apart from what the store does for a refresh. -/
inductive Note where
  /-- The clock, as a call with a record at hand looks at it. -/
  | clock (now : UInt64)
  | granted (grant : Grant) (now : UInt64)
  | rejected (status : Nat) (body : String)
  | failed (failure : Failure)
  /-- How the store ends an exchange or a logout. -/
  | stored (outcome : Except Failure Unit)

def TokenReply.note (now : UInt64) : TokenReply → Note
  | .granted grant => .granted grant now
  | .rejected status body => .rejected status body
  | .failed failure => .failed failure

/-- What a call waits to hear. -/
inductive Course where
  | look
  | decide
  | refresh (used : String)
  | exchange
  | store (record : Record)
  | clear
  /-- The call has ended, without an answer if it broke off. -/
  | over (answer : Option Answer)

/-- A call as it can be told from outside, with the session. -/
structure Sight where
  session : Session
  course : Course

namespace Sight

def refuse (session : Session) (failure : Failure) : Sight :=
  ⟨session, .over (some (.refused failure))⟩

/-- A call for a token goes on with a record only. -/
def ofToken (session : Session) (course : Course) : Sight :=
  if session.record.isSome then ⟨session, course⟩ else refuse session session.missing

theorem ofToken_of_record {session : Session} {record : Record}
    (h : session.record = some record) (course : Course) :
    ofToken session course = ⟨session, course⟩ := by
  rw [ofToken, h]
  rfl

theorem ofToken_of_none {session : Session} (h : session.record = none) (course : Course) :
    ofToken session course = refuse session session.missing := by
  rw [ofToken, h]
  rfl

/-- A call that completes a flow, with the text that is pasted for it. -/
def ofPasted (session : Session) (pasted : String) : Sight :=
  match Pasted.read pasted, session.pending with
  | .error failure, _ => refuse session failure
  | .ok _, none => refuse session (.authRequired .start)
  | .ok read, some flow =>
      if read.state = flow.state then ⟨session, .exchange⟩ else refuse session Stage.mismatch

/-- What a call at a stage is on its way to. -/
def of (session : Session) : Stage → Sight
  | .starting flow => ⟨session.begin flow, .over (some (.started flow))⟩
  | .completing pasted => ofPasted session pasted
  | .exchanging _ _ => ⟨session, .exchange⟩
  | .exchanged _ record | .rechecking _ record | .exchangeStoring record =>
      ⟨session, .store record⟩
  | .exchangeStored record => ⟨session.adopt record, .over (some (.completed record))⟩
  | .requesting | .retryWaiting | .retrying | .retryStoring _ | .retryStored _ | .counting
  | .looking _ => ofToken session .look
  | .refreshWaiting _ | .refreshDeciding _ => ofToken session .decide
  | .refreshing used => ⟨session, .refresh used⟩
  | .refreshStoring record | .refreshStored record _ =>
      ⟨session.renew record (.ok ()), .over (some (.token record.accessToken))⟩
  | .refreshClearing reason | .refreshCleared reason =>
      refuse (session.reject reason) (.refreshFailed reason)
  | .refreshed outcome => ⟨session, .over (some (.ofRefresh outcome))⟩
  | .logoutWaiting | .logoutClearing => ⟨session, .clear⟩
  | .logoutCleared => ⟨.empty, .over (some .loggedOut)⟩
  | .over answer => ⟨session, .over (some answer)⟩
  | .broken => ⟨session, .over none⟩

theorem of_ended (session : Session) (answer : Option Answer) :
    of session (.ended answer) = ⟨session, .over answer⟩ := by
  cases answer <;> rfl

/-- How a call goes on from what it hears. -/
def hear : Sight → Note → Sight
  | ⟨session, .look⟩, .clock now => match session.supply now with
    | .fresh token => ⟨session, .over (some (.token token))⟩
    | .stale _ => ⟨session, .decide⟩
    | .absent failure => refuse session failure
  | ⟨session, .decide⟩, .clock now => match session.supply now with
    | .fresh token => ⟨session, .over (some (.token token))⟩
    | .stale record => ⟨session, .refresh record.refreshToken⟩
    | .absent failure => refuse session failure
  | ⟨session, .refresh used⟩, .granted grant now => match grant.toRecord (some used) now with
    | some (.ok record) =>
        ⟨session.renew record (.ok ()), .over (some (.token record.accessToken))⟩
    | some (.error failure) => refuse session failure
    | none => ⟨session, .over none⟩
  | ⟨session, .refresh _⟩, .rejected status body =>
      let reason := TokenReply.rejection status body
      refuse (session.reject reason) (.refreshFailed reason)
  | ⟨session, .refresh _⟩, .failed failure => refuse session failure
  | ⟨session, .exchange⟩, .granted grant now => match grant.toRecord none now with
    | some (.ok record) => ⟨session, .store record⟩
    | some (.error failure) => refuse session failure
    | none => ⟨session, .over none⟩
  | ⟨session, .exchange⟩, .rejected status body =>
      refuse session (.exchangeFailed (TokenReply.rejection status body))
  | ⟨session, .exchange⟩, .failed failure => refuse session failure
  | ⟨session, .store record⟩, .stored (.ok _) =>
      ⟨session.adopt record, .over (some (.completed record))⟩
  | ⟨session, .store _⟩, .stored (.error failure) => refuse session failure
  | ⟨_, .clear⟩, .stored (.ok _) => ⟨.empty, .over (some .loggedOut)⟩
  | ⟨session, .clear⟩, .stored (.error failure) => refuse session failure
  | sight, _ => sight

def Settled (sight : Sight) : Prop :=
  ∃ answer, sight.course = .over answer

/-- The call hears the notes, and no answer is settled before the last of them. -/
def Hears (sight : Sight) : List Note → Sight → Prop
  | [], last => sight = last
  | note :: rest, last => ¬ sight.Settled ∧ (sight.hear note).Hears rest last

theorem Hears.append {sight between last : Sight} {notes rest : List Note}
    (h : sight.Hears notes between) (hrest : between.Hears rest last) :
    sight.Hears (notes ++ rest) last := by
  induction notes generalizing sight with
  | nil =>
      cases h
      exact hrest
  | cons note notes ih => exact ⟨h.1, ih h.2⟩

/-- Two calls that are given the same hear equally much of it, and end alike. -/
theorem Hears.unique {sight last other : Sight} {notes others given : List Note}
    (h : sight.Hears notes last) (hother : sight.Hears others other) (hlast : last.Settled)
    (hsettled : other.Settled) (hnotes : notes <+: given) (hothers : others <+: given) :
    last = other := by
  induction notes generalizing sight others given with
  | nil =>
      cases h
      cases others with
      | nil => exact hother
      | cons note rest => exact (hother.1 hlast).elim
  | cons note rest ih =>
      cases others with
      | nil =>
          cases hother
          exact (h.1 hsettled).elim
      | cons first more =>
          obtain ⟨tail, rfl⟩ := hnotes
          rw [List.cons_append, List.cons_prefix_cons] at hothers
          obtain ⟨rfl, hmore⟩ := hothers
          exact ih h.2 hother.2 (List.prefix_append rest tail) hmore

end Sight

namespace Stage

variable {now : UInt64} {keeper : Keeper} {stage next : Stage} {event : Event}

/-- What a call at a stage hears of an event. -/
def note? (session : Session) (now : UInt64) : Stage → Event → Option Note
  | .looking _, .turn | .refreshDeciding _, .turn => session.record.map fun _ => .clock now
  | .exchanging _ _, .reply reply | .refreshing _, .reply reply => some (reply.note now)
  | .exchangeStoring _, .stored outcome | .logoutClearing, .stored outcome =>
      some (.stored outcome)
  | _, _ => none

theorem sight_complete (keeper : Keeper) (pasted : String) :
    Sight.of (complete keeper pasted).1.session.told (complete keeper pasted).2 =
      Sight.ofPasted keeper.session.told pasted := by
  have hpending : keeper.session.told.pending = keeper.session.pending := rfl
  rw [complete, Sight.ofPasted, hpending]
  cases Pasted.read pasted with
  | error failure => rfl
  | ok read =>
      cases keeper.session.pending with
      | none => rfl
      | some flow =>
          by_cases hstate : read.state = flow.state
          · simp only [hstate, if_true]
            rfl
          · simp only [hstate, if_false]
            rfl

theorem sight_exchange (now : UInt64) (keeper : Keeper) (flow : Flow) (reply : TokenReply) :
    Sight.of (exchange now keeper flow reply).1.session.told (exchange now keeper flow reply).2 =
      Sight.hear ⟨keeper.session.told, .exchange⟩ (reply.note now) := by
  cases reply with
  | rejected status body => rfl
  | failed failure => rfl
  | granted grant =>
      simp only [exchange, TokenReply.note, Sight.hear]
      cases grant.toRecord none now with
      | none => rfl
      | some made => cases made <;> rfl

theorem sight_refresh (now : UInt64) (keeper : Keeper) (used : String) (reply : TokenReply) :
    Sight.of (refresh now keeper used reply).1.session.told (refresh now keeper used reply).2 =
      Sight.hear ⟨keeper.session.told, .refresh used⟩ (reply.note now) := by
  cases reply with
  | rejected status body => rfl
  | failed failure => rfl
  | granted grant =>
      simp only [refresh, TokenReply.note, Sight.hear]
      rcases grant.toRecord_some used now with ⟨-, hmade⟩ | ⟨record, hmade, -, -⟩ <;>
        · rw [hmade]
          rfl

/-- Without a record nothing is heard at a look. -/
theorem sight_of_absent {next : Stage} {course : Course} (hrecord : keeper.session.record = none)
    (h : next = .over (.refused keeper.session.missing)) :
    Sight.of keeper.session.told next =
      (keeper.session.record.map fun _ => Note.clock now).toList.foldl Sight.hear
        (Sight.ofToken keeper.session.told course) := by
  have htold : keeper.session.told.record = none := hrecord
  rw [h, hrecord, Sight.ofToken_of_none htold]
  rfl

/-- With a record the look at the clock is heard. -/
theorem sight_of_record {record : Record} {course : Course} {sight : Sight}
    (hrecord : keeper.session.record = some record)
    (h : sight = Sight.hear ⟨keeper.session.told, course⟩ (.clock now)) :
    sight = (keeper.session.record.map fun _ => Note.clock now).toList.foldl Sight.hear
      (Sight.ofToken keeper.session.told course) := by
  have htold : keeper.session.told.record = some record := hrecord
  rw [h, hrecord, Sight.ofToken_of_record htold]
  rfl

theorem sight_look (now : UInt64) (keeper : Keeper) (seen : UInt64) :
    Sight.of (look now keeper seen).1.session.told (look now keeper seen).2 =
      (keeper.session.record.map fun _ => Note.clock now).toList.foldl Sight.hear
        (Sight.ofToken keeper.session.told .look) := by
  rcases look_cases now keeper seen with
    ⟨record, hrecord, hfresh, heq⟩ | ⟨hrecord, heq⟩ | ⟨record, hrecord, hfresh, heq⟩ <;> rw [heq]
  · refine sight_of_record hrecord ?_
    simp [Sight.hear, Session.supply, hrecord, hfresh, Sight.of]
  · exact sight_of_absent hrecord rfl
  · have htold : keeper.session.told.record = some record := hrecord
    refine sight_of_record hrecord ?_
    simp [Sight.hear, Session.supply, hrecord, hfresh, Sight.of, Sight.ofToken_of_record htold]

theorem sight_decide {seen : UInt64} (h : keeper.generation = seen) (now : UInt64) :
    Sight.of (decide now keeper seen).1.session.told (decide now keeper seen).2 =
      (keeper.session.record.map fun _ => Note.clock now).toList.foldl Sight.hear
        (Sight.ofToken keeper.session.told .decide) := by
  rcases decide_cases now keeper seen with ⟨record, hrecord, hfresh, heq⟩ | ⟨hrecord, heq⟩ |
    ⟨record, hrecord, hfresh, ⟨outcome, hseen, -, heq⟩ | ⟨-, heq⟩⟩
  · rw [heq]
    refine sight_of_record hrecord ?_
    simp [Sight.hear, Session.supply, hrecord, hfresh, Sight.of, leave, Keeper.release]
  · rw [heq]
    exact sight_of_absent hrecord rfl
  · exact (hseen h).elim
  · rw [heq]
    refine sight_of_record hrecord ?_
    simp [Sight.hear, Session.supply, hrecord, hfresh, Sight.of]

/-- A step of a call by itself changes what it is on its way to only by what it hears. -/
theorem sight_step (h : stage.Undisturbed keeper) (now : UInt64)
    (hadmits : stage.wait.Admits event) :
    Sight.of (stage.step now keeper event).1.session.told (stage.step now keeper event).2 =
      ((stage.note? keeper.session now event).toList.foldl Sight.hear
        (Sight.of keeper.session.told stage)) := by
  cases stage <;> cases event <;> try exact hadmits.elim
  case completing.turn pasted => exact sight_complete keeper pasted
  case exchanging.reply flow code reply => exact sight_exchange now keeper flow reply
  case rechecking.turn flow record =>
    have hsame : keeper.session.pending.map Flow.state = some flow.state :=
      congrArg (Option.map Flow.state) h
    rw [step, recheck, if_pos hsame]
    rfl
  case exchangeStoring.stored record stored => cases stored <;> rfl
  case requesting.turn =>
    rw [step]
    split <;> rfl
  case retrying.turn =>
    rcases retry_cases keeper with heq | ⟨reason, record, -, -, heq⟩ <;>
      · rw [step, heq]
        rfl
  case looking.turn seen => exact sight_look now keeper seen
  case refreshDeciding.turn seen => exact sight_decide h now
  case refreshing.reply used reply => exact sight_refresh now keeper used reply
  case logoutClearing.stored stored => cases stored <;> rfl
  all_goals rfl

/-- Whoever hears anything has no answer settled yet. -/
theorem not_settled_of_note? {note : Note} (h : stage.note? keeper.session now event = some note) :
    ¬ (Sight.of keeper.session.told stage).Settled := by
  cases stage <;> cases event <;> try cases h
  case looking.turn | refreshDeciding.turn =>
    obtain ⟨record, hrecord, -⟩ := Option.map_eq_some_iff.1 h
    have htold : keeper.session.told.record = some record := hrecord
    rw [Sight.of, Sight.ofToken_of_record htold]
    exact nofun
  all_goals exact nofun

theorem hears_step (h : stage.Undisturbed keeper) (now : UInt64)
    (hadmits : stage.wait.Admits event) :
    (Sight.of keeper.session.told stage).Hears (stage.note? keeper.session now event).toList
      (Sight.of (stage.step now keeper event).1.session.told (stage.step now keeper event).2) := by
  rw [sight_step h now hadmits]
  cases hnote : stage.note? keeper.session now event with
  | none => rfl
  | some note => exact ⟨not_settled_of_note? hnote, rfl⟩

end Stage

/-! ## What a call hears -/

/-- How an access to the store ended. -/
def Event.outcome? : Event → Option (Except Failure Unit)
  | .stored outcome => some outcome
  | _ => none

/-- An event that comes to a call, with what it comes to. -/
structure Occurrence where
  session : Session
  stage : Stage
  now : UInt64
  event : Event

def Occurrence.note? (occurrence : Occurrence) : Option Note :=
  occurrence.stage.note? occurrence.session occurrence.now occurrence.event

namespace Traffic

variable {store : Store} {disk after : Disk} {stored : Option Record} {past : List Moment}
  {traffic next between : Traffic} {call : Call} {inputs : List (UInt64 × Input)} {visit : Visit}

/-- What a moment brings to a call. -/
def occurrence? (store : Store) (traffic : Traffic) (moment : Moment) : Option Occurrence :=
  match moment.action with
  | .begin _ => none
  | .advance index input => do
      let caller ← traffic.calls[index]?
      let (_, event) ← traffic.event? store caller.stage.wait input
      some ⟨traffic.keeper.session, caller.stage, moment.now, event⟩

/-- All that comes to calls in a run. -/
def occurrences (store : Store) : Traffic → List Moment → List Occurrence
  | _, [] => []
  | traffic, moment :: rest =>
      (traffic.occurrence? store moment).toList ++
        match traffic.step store moment with
        | some next => occurrences store next rest
        | none => []

theorem occurrences_concat (moment : Moment) (h : traffic.run store past = some between) :
    traffic.occurrences store (past ++ [moment]) =
      traffic.occurrences store past ++ (between.occurrence? store moment).toList := by
  induction past generalizing traffic with
  | nil =>
      cases h
      cases hstep : between.step store moment <;> simp [occurrences, hstep]
  | cons first rest ih =>
      rw [run_cons] at h
      obtain ⟨next, hfirst, hrest⟩ := Option.bind_eq_some_iff.1 h
      rw [List.cons_append, occurrences, occurrences, hfirst, List.append_assoc]
      exact congrArg _ (ih hrest)

/-- All that comes to a call that is given the inputs. -/
def occurring (store : Store) (traffic : Traffic) (call : Call) (inputs : List (UInt64 × Input)) :
    List Occurrence :=
  (traffic.arrive call).occurrences store (advances traffic.calls.length inputs)

/-- What a call hears that is given the inputs. -/
def notes (store : Store) (traffic : Traffic) (call : Call) (inputs : List (UInt64 × Input)) :
    List Note :=
  (traffic.occurring store call inputs).filterMap Occurrence.note?

/-- How the accesses of a call to the store ended. -/
def outcomes (store : Store) (traffic : Traffic) (call : Call) (inputs : List (UInt64 × Input)) :
    List (Except Failure Unit) :=
  (traffic.occurring store call inputs).filterMap fun occurrence => occurrence.event.outcome?

section Concat

variable {stage : Stage} {input : Input} {event : Event} (now : UInt64)
  (hrun : (traffic.arrive call).run store (advances traffic.calls.length inputs) = some between)
  (hcaller : between.calls[traffic.calls.length]? = some ⟨call, stage⟩)
  (hevent : between.event? store stage.wait input = some (after, event))

include hrun hcaller hevent

theorem occurring_concat :
    traffic.occurring store call (inputs ++ [(now, input)]) =
      traffic.occurring store call inputs ++ [⟨between.keeper.session, stage, now, event⟩] := by
  rw [occurring, advances_append]
  refine (occurrences_concat _ hrun).trans (congrArg _ ?_)
  simp [occurrence?, hcaller, hevent]

theorem notes_concat :
    traffic.notes store call (inputs ++ [(now, input)]) =
      traffic.notes store call inputs ++ (stage.note? between.keeper.session now event).toList := by
  rw [notes, occurring_concat now hrun hcaller hevent, List.filterMap_append, notes]
  cases hnote : stage.note? between.keeper.session now event <;> simp [Occurrence.note?, hnote]

end Concat

/-- A call comes to its end by what it hears. -/
theorem Visits.hears (h : traffic.Visits store visit next) :
    (Sight.of traffic.keeper.session.told (.ofCall visit.call)).Hears
      (traffic.notes store visit.call visit.inputs)
      ⟨next.keeper.session.told, .over visit.answer⟩ := by
  rw [← Sight.of_ended]
  refine h.induction_alone
    (P := fun inputs between stage => (Sight.of traffic.keeper.session.told
      (.ofCall visit.call)).Hears (traffic.notes store visit.call inputs)
        (Sight.of between.keeper.session.told stage)) rfl ?_
  intro inputs between stage now input after event hrun hcaller _ hfound hbefore hevent
  rw [notes_concat now hrun hcaller hevent]
  exact hbefore.append (Stage.hears_step hfound now (admits_of_event? hevent).1)

/-! ## Calls that are given the same -/

/--
Two runs of the same calls, one after the other.  Each call is given the same in both, and it
hears as much of that as it asks for.
-/
inductive Matched (store : Store) (disk : Disk) (stored : Option Record) :
    List Visit → Traffic → List Visit → Traffic → Prop
  | opening : store.load disk = .ok stored →
      Matched store disk stored [] ⟨.initial stored, disk, [], [], []⟩
        [] ⟨.initial stored, disk, [], [], []⟩
  | next {visits others : List Visit} {traffic other next last : Traffic} {visit held : Visit}
      (given : List Note) :
      Matched store disk stored visits traffic others other →
      traffic.Visits store visit next → other.Visits store held last → visit.call = held.call →
      traffic.notes store visit.call visit.inputs <+: given →
      other.notes store held.call held.inputs <+: given →
      Matched store disk stored (visits ++ [visit]) next (others ++ [held]) last

/-- They answer the same, and they leave the same but for what could be stored. -/
theorem Matched.told {visits others : List Visit} {other : Traffic}
    (h : Matched store disk stored visits traffic others other) :
    visits.map Visit.answer = others.map Visit.answer ∧
      traffic.keeper.session.told = other.keeper.session.told := by
  induction h with
  | opening => exact ⟨rfl, rfl⟩
  | next given _ hvisits hheld hcall hnotes hothers ih =>
      obtain ⟨hanswers, htold⟩ := ih
      have hheard := hvisits.hears
      rw [htold, hcall] at hheard
      rw [hcall] at hnotes
      have hsame := hheard.unique hheld.hears ⟨_, rfl⟩ ⟨_, rfl⟩ hnotes hothers
      obtain ⟨hsession, hanswer⟩ := Sight.mk.inj hsame
      rw [List.map_append, List.map_append, hanswers]
      exact ⟨by simpa using hanswer, hsession⟩

/-! ## Calls for which the store does not fail -/

/-- The stale token is refreshed, with what the store does to the new one. -/
def refreshAmid (expiresIn : UInt64) (mishap : Option Mishap) : Visit :=
  ⟨.token, [.turn, .turn, .turn, .turn, .turn, .reply (.granted ⟨"second", none, expiresIn, none⟩),
    .store mishap, .turn, .turn].map fun input => (1000, input), some (.token "second")⟩

def noSpaceLeft : Mishap :=
  ⟨.writeDraft, "no space left"⟩

/-- The record cannot be stored once more, its refresh is rejected, and it cannot be removed. -/
def lostVisit : Visit :=
  ⟨.token, [.turn, .turn, .turn, .store (some noSpaceLeft), .turn, .turn, .turn, .turn, .turn,
    .reply (.rejected 400 "invalid_grant"), .store (some ⟨.replace, "permission denied"⟩), .turn,
    .turn].map fun input => (1000, input),
    some (.refused (.refreshFailed (TokenReply.rejection 400 "invalid_grant")))⟩

def absentVisit : Visit :=
  ⟨.token, List.replicate 3 (1000, .turn),
    some (.refused (.refreshFailed (TokenReply.rejection 400 "invalid_grant")))⟩

set_option maxRecDepth 8000 in
/--
After a refreshed record could not be stored, a call for which the store does not fail leaves the
record before it stored, which is gone from memory.
-/
theorem unstored_record_lost :
    ∃ refreshed lost next, Visited ⟨["tokens.json"]⟩ .empty none
        [startVisit, exchangeVisit, refreshAmid 30 (some noSpaceLeft)] refreshed ∧
      refreshed.keeper.session.persistFailure = some "Storage error: no space left" ∧
      refreshed.Visits ⟨["tokens.json"]⟩ lostVisit lost ∧
      (∃ failure, .error failure ∈ refreshed.outcomes ⟨["tokens.json"]⟩ .token lostVisit.inputs) ∧
      lost.Visits ⟨["tokens.json"]⟩ absentVisit next ∧
      (∀ outcome ∈ lost.outcomes ⟨["tokens.json"]⟩ .token absentVisit.inputs, outcome = .ok ()) ∧
      next.keeper.session.persistFailure = none ∧ next.keeper.session.record = none ∧
      Store.load ⟨["tokens.json"]⟩ next.disk = .ok (some ⟨"first", "refresh", "Bearer", 1030⟩) := by
  obtain ⟨refreshed, lost, next, hvisited, hfailure, hlost, hfails, hnext, hnothing, hsession,
      hentry⟩ :
      ∃ refreshed lost next, Visited ⟨["tokens.json"]⟩ .empty none
          [startVisit, exchangeVisit, refreshAmid 30 (some noSpaceLeft)] refreshed ∧
        refreshed.keeper.session.persistFailure = some "Storage error: no space left" ∧
        refreshed.Visits ⟨["tokens.json"]⟩ lostVisit lost ∧
        refreshed.outcomes ⟨["tokens.json"]⟩ .token lostVisit.inputs =
          [.error (.storage "no space left"), .error (.storage "permission denied")] ∧
        lost.Visits ⟨["tokens.json"]⟩ absentVisit next ∧
        lost.outcomes ⟨["tokens.json"]⟩ .token absentVisit.inputs = [] ∧
        next.keeper.session =
          ⟨none, none, some (TokenReply.rejection 400 "invalid_grant"), none⟩ ∧
        next.disk.entry? ["tokens.json"] = some (.file 0o600
          (Text.bytes (Record.render ⟨"first", "refresh", "Bearer", 1030⟩))) :=
    ⟨_, _, _, .next (.next (.next (.opening rfl) ⟨rfl, rfl⟩) ⟨rfl, rfl⟩) ⟨rfl, rfl⟩, rfl,
      ⟨rfl, rfl⟩, rfl, ⟨rfl, rfl⟩, rfl, rfl, rfl⟩
  refine ⟨refreshed, lost, next, hvisited, hfailure, hlost,
    ⟨.storage "no space left", by simp [hfails]⟩, hnext, by simp [hnothing], by rw [hsession],
    by rw [hsession], ?_⟩
  obtain ⟨past, hreached⟩ := ((hvisited.next hlost).next hnext).reached
  have hknown := hreached.storeKnown Disk.empty_rooted (Store.draftReadable_of_absent rfl)
  exact Store.load_of_render hknown.usable.rooted hentry rfl

end Traffic

end Credential

end ChatGateway
