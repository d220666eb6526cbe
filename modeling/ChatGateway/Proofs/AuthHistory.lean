import ChatGateway.Proofs.TokenChoice

/-!
# The state of the credential and its history

With calls one after the other, the state of the credential can be read off the last changes of
two kinds.  Whether there is a record is decided by the last change that brings or takes one, and
what the operator has to do next by the last that starts, completes or ends an authorization.
-/

namespace ChatGateway

namespace Credential

/-- What happens to a credential. -/
inductive Change where
  | loaded (stored : Option Record)
  | started
  | exchanged
  | refreshed
  /-- The endpoint rejected a refresh. -/
  | rejected (reason : String)
  | loggedOut
  deriving DecidableEq, Repr

namespace Change

/-- Whether a change leaves a record, if it brings or takes one. -/
def leaves? : Change -> Option Bool
  | .loaded stored => some stored.isSome
  | .exchanged | .refreshed => some true
  | .rejected _ | .loggedOut => some false
  | .started => none

/-- The change starts, completes or ends an authorization. -/
def turns : Change -> Bool
  | .started | .exchanged | .rejected _ | .loggedOut => true
  | .loaded _ | .refreshed => false

/-- The last change that brings or takes a record left one. -/
def leavesRecord (history : List Change) : Bool :=
  (history.filterMap leaves?).getLast? = some true

/-- The last change that starts, completes or ends an authorization. -/
def lastTurn (history : List Change) : Option Change :=
  (history.filter turns).getLast?

/-- The state after the changes: a started authorization hides the record. -/
def stateAfter (history : List Change) : AuthState :=
  if lastTurn history = some .started then .pendingAuthorization
  else if leavesRecord history then .authenticated
  else .unauthenticated

/-- What a caller without a record is told after the changes. -/
def missingAfter (history : List Change) : Failure :=
  match lastTurn history with
  | some (.rejected reason) => .refreshFailed reason
  | some .started => .authRequired .callback
  | _ => .authRequired .start

variable {history : List Change} {change : Change}

theorem leavesRecord_concat (history : List Change) (change : Change) :
    leavesRecord (history ++ [change]) = change.leaves?.getD (leavesRecord history) := by
  cases hleaves : change.leaves? <;> simp [leavesRecord, hleaves]

theorem lastTurn_concat (history : List Change) (change : Change) :
    lastTurn (history ++ [change]) = if change.turns then some change else lastTurn history := by
  cases hturns : change.turns <;> simp [lastTurn, hturns]

end Change

/--
The change that an exchange with the endpoint brings about, if it is for a refresh.  A grant
brings none if there is no time for its end.
-/
def TokenReply.change? (now : UInt64) : TokenReply -> Option Change
  | .granted grant => (grant.expiry? now).map fun _ => .refreshed
  | .rejected status body => some (.rejected (rejection status body))
  | .failed _ => none

def Input.change? (now : UInt64) : Input -> Option Change
  | .reply given => given.change? now
  | _ => none

def Event.change? (now : UInt64) : Event -> Option Change
  | .reply given => given.change? now
  | _ => none

/-- The change that a call brings about whose outcome is its answer. -/
def Answer.change? : Answer -> Option Change
  | .started _ => some .started
  | .completed _ => some .exchanged
  | .loggedOut => some .loggedOut
  | .token _ | .refused _ => none

/-- What a visit for a token changes is what is replied to it, and else the answer tells. -/
def Visit.changes (visit : Visit) : List Change :=
  match visit.call with
  | .token => visit.inputs.filterMap fun given => given.2.change? given.1
  | _ => (visit.answer.bind Answer.change?).toList

/-- The changes since the opening with the stored record. -/
def changes (stored : Option Record) (visits : List Visit) : List Change :=
  .loaded stored :: visits.flatMap Visit.changes

/-! ## What a session tells of its history -/

/-- The session is as the last changes of its history leave it. -/
structure Session.Follows (session : Session) (history : List Change) : Prop where
  record : session.record.isSome = Change.leavesRecord history
  pending : session.pending.isSome = true ↔ Change.lastTurn history = some .started
  lost : ∀ reason,
    session.refreshFailure = some reason ↔ Change.lastTurn history = some (.rejected reason)

namespace Session.Follows

variable {session : Session} {history : List Change}

theorem state (h : session.Follows history) : session.state = Change.stateAfter history := by
  simp only [Session.state, Change.stateAfter, h.pending, h.record]

theorem refreshFailure_eq_none (h : session.Follows history)
    (hlast : ∀ reason, Change.lastTurn history ≠ some (.rejected reason)) :
    session.refreshFailure = none :=
  Option.eq_none_iff_forall_ne_some.2 fun reason hlost => hlast reason ((h.lost reason).1 hlost)

theorem missing (h : session.Follows history) : session.missing = Change.missingAfter history := by
  rw [Change.missingAfter]
  split
  next reason hlast => rw [Session.missing, (h.lost reason).2 hlast]
  next hlast =>
    have hlost := h.refreshFailure_eq_none fun reason => by simp [hlast]
    obtain ⟨flow, hflow⟩ := Option.isSome_iff_exists.1 (h.pending.2 hlast)
    rw [Session.missing, hlost, hflow]
  next hrejected hstarted =>
    have hlost := h.refreshFailure_eq_none hrejected
    have hpending : session.pending = none := by
      simpa using fun hpending => hstarted (h.pending.1 hpending)
    rw [Session.missing, hlost, hpending]

end Session.Follows

namespace Stage

variable {now : UInt64} {keeper : Keeper} {stage next : Stage} {event : Event}

/-- What changes as a call leaves this stage. -/
def change? : Stage -> Option Change
  | .starting _ => some .started
  | .exchangeStored _ => some .exchanged
  | .refreshStored _ _ => some .refreshed
  | .refreshCleared reason => some (.rejected reason)
  | .logoutCleared => some .loggedOut
  | _ => none

/-- What the endpoint's reply is going to change, as soon as the store is done. -/
def owes? : Stage -> Option Change
  | .refreshStoring _ | .refreshStored _ _ => some .refreshed
  | .refreshClearing reason | .refreshCleared reason => some (.rejected reason)
  | _ => none

theorem follows_write {session : Session} {history : List Change} (h : session.Follows history) :
    (stage.write session).Follows (history ++ stage.change?.toList) := by
  have hrecord := h.record
  have hpending := h.pending
  have hlost := h.lost
  cases stage with
  | starting _ | exchangeStored _ | refreshStored _ _ | refreshCleared _ | logoutCleared =>
      constructor <;>
        simp_all [write, change?, Session.begin, Session.adopt, Session.renew, Session.reject,
          Session.empty, Change.leavesRecord_concat, Change.lastTurn_concat, Change.leaves?,
          Change.turns]
  | _ =>
      show Session.Follows _ (history ++ [])
      rw [List.append_nil]
      exact ⟨hrecord, hpending, hlost⟩

/-- What a step of a call adds to its changes. -/
def adds? (call : Call) (now : UInt64) (event : Event) (next : Stage) : Option Change :=
  match call, next with
  | .token, _ => event.change? now
  | _, .over answer => answer.change?
  | _, _ => none

/-- What is added is written as the call leaves its stage, or it is owed from here on. -/
theorem Leads.adds? {call : Call} (h : Leads now keeper stage event next) (hof : stage.Of call) :
    stage.change?.toList ++ next.owes?.toList =
      stage.owes?.toList ++ (Stage.adds? call now event next).toList := by
  cases h with
  | @grant used grant record hmade =>
      obtain ⟨_, _, -, hexpiry, -⟩ := Grant.toRecord_eq_ok.1 hmade
      cases call with
      | token => simp [change?, owes?, Stage.adds?, Event.change?, TokenReply.change?, hexpiry]
      | start | complete | logout => exact hof.elim
  | @breakRefresh used grant hmade =>
      cases call with
      | token =>
          have hexpiry := Grant.expiry?_of_toRecord hmade
          simp [change?, owes?, Stage.adds?, Event.change?, TokenReply.change?, hexpiry]
      | start | complete | logout => exact hof.elim
  | _ => cases call <;> first | exact hof.elim | rfl

theorem write_of_destitute (h : stage.destitute = true) (session : Session) :
    stage.write session = session := by
  cases stage <;> simp_all [destitute, write]

theorem Leads.missing {answer : Answer} (h : Leads now keeper stage event next)
    (hstage : stage.destitute = true) (hrecord : keeper.session.record = none)
    (hnext : next = .over answer) : answer = .refused keeper.session.missing := by
  cases h <;> simp_all [Stage.destitute]

/-- The changes of a call as far as it has come. -/
def changesSoFar (call : Call) (inputs : List (UInt64 × Input)) (stage : Stage) : List Change :=
  match call, stage with
  | .token, _ => inputs.filterMap fun given => given.2.change? given.1
  | _, .over answer => answer.change?.toList
  | _, _ => []

theorem changesSoFar_ended (visit : Visit) :
    changesSoFar visit.call visit.inputs (.ended visit.answer) = visit.changes := by
  rw [Visit.changes]
  cases visit.call <;> cases visit.answer <;> rfl

theorem changesSoFar_ofCall (call : Call) : changesSoFar call [] (.ofCall call) = [] := by
  cases call <;> rfl

theorem Leads.changesSoFar {input : Input} (h : Leads now keeper stage event next)
    (hinput : input.change? now = event.change? now) (call : Call)
    (inputs : List (UInt64 × Input)) :
    Stage.changesSoFar call (inputs ++ [(now, input)]) next =
      Stage.changesSoFar call inputs stage ++ (Stage.adds? call now event next).toList := by
  cases call with
  | token =>
      rw [Stage.changesSoFar, List.filterMap_append, Stage.adds?, ← hinput]
      cases hchange : input.change? now <;> simp [Stage.changesSoFar, hchange]
  | _ =>
      cases stage with
      | «over» answer => exact (h.not_over answer rfl).elim
      | _ => cases next <;> rfl

end Stage

namespace Traffic

variable {store : Store} {disk after : Disk} {stored : Option Record} {traffic next : Traffic}
  {stage : Stage} {input : Input} {event : Event} {visits : List Visit} {visit : Visit}

theorem change?_of_event? {wait : Wait} (now : UInt64)
    (h : traffic.event? store wait input = some (after, event)) :
    input.change? now = event.change? now := by
  rcases event?_cases h with ⟨rfl, rfl, -⟩ | ⟨reply, rfl, rfl, -⟩ | ⟨_, _, -, rfl, rfl, -⟩ |
    ⟨_, -, rfl, rfl, -⟩ <;> rfl

/-- A visit leaves the session as its changes do. -/
theorem Visits.follows {history : List Change} (h : traffic.Visits store visit next)
    (hfollows : traffic.keeper.session.Follows history) :
    next.keeper.session.Follows (history ++ visit.changes) := by
  -- What was written so far and what is still owed are the changes so far.
  obtain ⟨written, hwritten, hsession⟩ := h.induction
    (P := fun inputs between stage => ∃ written : List Change,
      written ++ stage.owes?.toList = Stage.changesSoFar visit.call inputs stage ∧
        between.keeper.session.Follows (history ++ written))
    ⟨[], by rw [Stage.changesSoFar_ofCall]; cases visit.call <;> rfl, by rwa [List.append_nil]⟩
    (by
      intro inputs between stage now input after event _ hof hbefore hevent
      obtain ⟨written, hwritten, hsession⟩ := hbefore
      have hleads := leads_of_event? now hevent
      refine ⟨written ++ stage.change?.toList, ?_, ?_⟩
      · rw [hleads.changesSoFar (change?_of_event? now hevent), ← hwritten, List.append_assoc,
          hleads.adds? hof, List.append_assoc]
      · rw [session_put now _ hevent, ← List.append_assoc]
        exact Stage.follows_write hsession)
  have howes : (Stage.ended visit.answer).owes? = none := by cases visit.answer <;> rfl
  rw [Stage.changesSoFar_ended, howes, Option.toList_none, List.append_nil] at hwritten
  rw [← hwritten]
  exact hsession

theorem changes_concat (stored : Option Record) (visits : List Visit) (visit : Visit) :
    changes stored (visits ++ [visit]) = changes stored visits ++ visit.changes := by
  simp [changes]

/-- After any visits the session is as the changes leave it. -/
theorem Visited.follows (h : Visited store disk stored visits traffic) :
    traffic.keeper.session.Follows (changes stored visits) := by
  induction h with
  | opening =>
      constructor <;>
        simp [Keeper.initial, Session.ofStored, Session.empty, changes, Change.leavesRecord,
          Change.lastTurn, Change.leaves?, Change.turns]
  | next _ hvisits ih =>
      rw [changes_concat]
      exact hvisits.follows ih

/-! ## A call without a record -/

/-- Whoever asks for a token while there is no record is told what is missing. -/
theorem Visits.missing {inputs : List (UInt64 × Input)} {answer : Option Answer}
    (h : traffic.Visits store ⟨.token, inputs, answer⟩ next)
    (hrecord : traffic.keeper.session.record = none)
    (hstored : traffic.keeper.session.persistFailure = none) :
    answer = some (.refused traffic.keeper.session.missing) := by
  obtain ⟨-, hdestitute, hmissing⟩ := h.induction
    (P := fun _ between stage => between.keeper.session = traffic.keeper.session ∧
      stage.destitute = true ∧
        ∀ answer, stage = .over answer → answer = .refused traffic.keeper.session.missing)
    ⟨rfl, rfl, nofun⟩
    (by
      intro inputs between stage now input after event _ _ hbefore hevent
      obtain ⟨hsession, hdestitute, -⟩ := hbefore
      have hleads := leads_of_event? now hevent
      rw [← hsession] at hrecord hstored ⊢
      refine ⟨?_, hleads.destitute hdestitute hrecord hstored, fun answer hnext =>
        hleads.missing hdestitute hrecord hnext⟩
      rw [session_put now _ hevent, Stage.write_of_destitute hdestitute])
  cases answer with
  | none => cases hdestitute
  | some given => rw [hmissing given rfl]

/-- Three turns are enough for a call to be told what is missing. -/
theorem exists_missing (store : Store) (hrecord : traffic.keeper.session.record = none)
    (hstored : traffic.keeper.session.persistFailure = none) (now : UInt64) :
    ∃ next, traffic.Visits store ⟨.token, List.replicate 3 (now, .turn),
      some (.refused traffic.keeper.session.missing)⟩ next := by
  have harrived : (traffic.arrive .token).calls = traffic.calls ++ [⟨.token, .requesting⟩] := rfl
  obtain ⟨first, hfirst, hcalls, hkeeper, -⟩ := step_turn store now harrived rfl rfl
  have hcounting : first.calls = traffic.calls ++ [⟨.token, .counting⟩] := by
    rw [hcalls, arrive, hstored]
    rfl
  have hkept : first.keeper = traffic.keeper := hkeeper
  obtain ⟨second, hsecond, hlooking, hkeeper, -⟩ := step_turn store now hcounting rfl rfl
  obtain ⟨third, hthird, hover, -⟩ := step_turn store now hlooking rfl rfl
  refine ⟨third, ?_, ?_⟩
  · show (traffic.arrive .token).run store [_, _, _] = some third
    rw [run_cons, hfirst]
    show first.run store [_, _] = some third
    rw [run_cons, hsecond]
    show second.run store [_] = some third
    rw [run_cons, hthird]
    rfl
  · rw [getElem?_last hover]
    have hlook : (Stage.look now second.keeper first.keeper.generation).2 =
        .over (.refused traffic.keeper.session.missing) := by
      rw [hkeeper, hkept, Stage.look, Session.supply, hrecord]
      rfl
    exact congrArg (fun stage => some (Caller.mk .token stage)) hlook

/--
After any visits there is a record exactly if the last change that brings or takes one left it,
and the state is pending exactly if the last turn started a flow, and else as the record says.
Without a record a call for a token is told of that turn: of a rejection with its reason, of a
flow that waits for its code, or else to start one.  A visit that starts a flow, or that completes
none, has no influence on the token that the next one is given.
-/
theorem state_follows_history (h : Visited store disk stored visits traffic) :
    traffic.keeper.session.record.isSome = Change.leavesRecord (changes stored visits) ∧
    (∀ now, (traffic.keeper.session.status now).state =
        Change.stateAfter (changes stored visits) ∧
      (traffic.keeper.session.status now).authenticated =
        Change.leavesRecord (changes stored visits)) ∧
    (traffic.keeper.session.record = none →
      (∀ inputs answer next, traffic.Visits store ⟨.token, inputs, answer⟩ next →
        answer = some (.refused (Change.missingAfter (changes stored visits)))) ∧
      ∀ now, ∃ next, traffic.Visits store ⟨.token, List.replicate 3 (now, .turn),
        some (.refused (Change.missingAfter (changes stored visits)))⟩ next) ∧
    ∀ visit next, traffic.Visits store visit next →
      (∃ flow, visit.call = .start flow) ∨
        (∃ pasted, visit.call = .complete pasted ∧
          ∀ record, visit.answer ≠ some (.completed record)) →
      ∀ inputs value, (∃ last, next.Visits store ⟨.token, inputs, some (.token value)⟩ last) ↔
        ∃ last, traffic.Visits store ⟨.token, inputs, some (.token value)⟩ last := by
  have hfollows := h.follows
  refine ⟨hfollows.record, fun now => ⟨hfollows.state, hfollows.record⟩, ?_, ?_⟩
  · intro hrecord
    obtain ⟨past, hreached⟩ := h.reached
    have hstored : traffic.keeper.session.persistFailure = none := by
      by_contra hfailed
      obtain ⟨failure, hfailure⟩ := Option.ne_none_iff_exists'.1 hfailed
      obtain ⟨record, hheld⟩ := hreached.sessionKnown.sound.held hfailure
      rw [hrecord] at hheld
      cases hheld
    rw [← hfollows.missing]
    exact ⟨fun inputs answer next hvisits => hvisits.missing hrecord hstored,
      exists_missing store hrecord hstored⟩
  · intro visit next hvisits hcall inputs value
    have hsame := hvisits.sameTokens hcall
    have hgate : next.keeper.gate = traffic.keeper.gate := (h.next hvisits).gate.trans h.gate.symm
    constructor
    · rintro ⟨last, hlast⟩
      exact hsame.given hgate hlast
    · rintro ⟨last, hlast⟩
      exact hsame.symm.given hgate.symm hlast

def startVisit : Visit :=
  ⟨.start ⟨"verifier", "state"⟩, [(1000, .turn)], some (.started ⟨"verifier", "state"⟩)⟩

/-- A flow is completed with a token for 30 seconds. -/
def exchangeVisit : Visit :=
  ⟨.complete "code#state",
    [.turn, .reply (.granted ⟨"first", some "refresh", 30, none⟩), .turn, .turn, .store none,
      .turn].map fun input => (1000, input),
    some (.completed ⟨"first", "refresh", "Bearer", 1030⟩)⟩

/-- The stale token is refreshed, with this reply and this answer. -/
def refreshVisit (reply : TokenReply) (answer : Answer) : Visit :=
  ⟨.token, [.turn, .turn, .turn, .turn, .turn, .reply reply, .store none, .turn,
    .turn].map fun input => (1000, input), some answer⟩

set_option maxRecDepth 8000 in
theorem state_follows_history_rejected :
    (∃ traffic, Visited ⟨["tokens.json"]⟩ .empty none [startVisit, exchangeVisit,
        refreshVisit (.rejected 400 "invalid_grant")
          (.refused (.refreshFailed (TokenReply.rejection 400 "invalid_grant")))] traffic ∧
      (traffic.keeper.session.status 1000).state = .unauthenticated ∧
      ∀ inputs answer next, traffic.Visits ⟨["tokens.json"]⟩ ⟨.token, inputs, answer⟩ next →
        answer = some (.refused (.refreshFailed (TokenReply.rejection 400 "invalid_grant")))) ∧
    ∃ traffic next, Visited ⟨["tokens.json"]⟩ .empty none [startVisit, exchangeVisit] traffic ∧
      traffic.Visits ⟨["tokens.json"]⟩ startVisit next ∧
      (next.keeper.session.status 1000).state = .pendingAuthorization ∧
      ∃ last, next.Visits ⟨["tokens.json"]⟩
        (refreshVisit (.granted ⟨"second", none, 30, none⟩) (.token "second")) last := by
  obtain ⟨exchanged, hexchanged, hpending, hsecond⟩ :
      ∃ traffic, Visited ⟨["tokens.json"]⟩ .empty none [startVisit, exchangeVisit] traffic ∧
        (∃ next, traffic.Visits ⟨["tokens.json"]⟩ startVisit next) ∧
        ∃ last, traffic.Visits ⟨["tokens.json"]⟩
          (refreshVisit (.granted ⟨"second", none, 30, none⟩) (.token "second")) last :=
    ⟨_, .next (.next (.opening rfl) ⟨rfl, rfl⟩) ⟨rfl, rfl⟩, ⟨_, rfl, rfl⟩, _, rfl, rfl⟩
  constructor
  · obtain ⟨traffic, hvisits, hrecord⟩ :
        ∃ traffic, Visited ⟨["tokens.json"]⟩ .empty none ([startVisit, exchangeVisit] ++
          [refreshVisit (.rejected 400 "invalid_grant")
            (.refused (.refreshFailed (TokenReply.rejection 400 "invalid_grant")))]) traffic ∧
          traffic.keeper.session.record = none :=
      ⟨_, .next (.next (.next (.opening rfl) ⟨rfl, rfl⟩) ⟨rfl, rfl⟩) ⟨rfl, rfl⟩, rfl⟩
    obtain ⟨-, hstatus, hmissing, -⟩ := state_follows_history hvisits
    exact ⟨traffic, hvisits, (hstatus 1000).1, (hmissing hrecord).1⟩
  · obtain ⟨next, hnext⟩ := hpending
    refine ⟨exchanged, next, hexchanged, hnext, ?_, ?_⟩
    · exact ((state_follows_history (hexchanged.next hnext)).2.1 1000).1
    · exact ((state_follows_history hexchanged).2.2.2 startVisit next hnext (.inl ⟨_, rfl⟩) _ _).2
        hsecond

end Traffic

end Credential

end ChatGateway
