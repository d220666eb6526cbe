import ChatGateway.Proofs.AuthHistory
import ChatGateway.Proofs.FailedCalls

/-!
# The step that a failure names

A failure of the authorization names the step to take next: to start a flow, or to post the code
of the pending one.  For a call by itself this is the step that the session asks for as the call
ends, with one exception.  A pasted text that is no code and state is refused before the session
is looked at, so its caller is told to post a code, whether or not a flow waits for one.
-/

namespace ChatGateway

theorem Failure.step?_ofAnswer (status : Nat) (body : String) :
    (ofAnswer status body).step? = none := by
  rw [ofAnswer]
  split <;> rfl

namespace Credential

/-! ## Where a failure comes from -/

/-- A failure of the exchange with the endpoint is none of the authorization. -/
theorem TokenReply.step?_of_failed {exchange : Http.Exchange} {failure : Failure}
    (h : TokenReply.ofExchange exchange = .failed failure) : failure.step? = none := by
  cases exchange with
  | failed reason | silent =>
      cases h
      rfl
  | answered status body =>
      simp only [ofExchange] at h
      split at h
      · cases body with
        | whole bytes =>
            cases hread : Grant.read bytes with
            | ok grant => simp [hread] at h
            | error fault =>
                simp only [hread, TokenReply.failed.injEq] at h
                rw [← h]
                rfl
        | broken bytes reason | stalled bytes =>
            cases h
            rfl
      · split at h
        · cases h
        · cases h
          exact Failure.step?_ofAnswer _ _

theorem Grant.step?_of_toRecord {grant : Grant} {now : UInt64} {failure : Failure}
    (h : grant.toRecord none now = some (.error failure)) : failure.step? = some .callback := by
  rw [toRecord] at h
  split at h
  · cases h
    rfl
  · obtain ⟨_, -, hmade⟩ := Option.map_eq_some_iff.1 h
    cases hmade

namespace Store

variable {store : Store} {disk : Disk} {record : Record} {mishap : Option Mishap}
  {failure : Failure}

theorem step?_of_saveAmid (h : (store.saveAmid record disk mishap).2 = .error failure) :
    failure.step? = none := by
  cases mishap with
  | none =>
      rw [saveAmid, save] at h
      cases hsteps : (store.saveSteps record disk SaveStep.all).2 with
      | ok done => simp [hsteps, Except.mapError] at h
      | error fault =>
          simp only [hsteps, Except.mapError, Except.error.injEq] at h
          rw [← h]
          rfl
  | some mishap =>
      rw [saveAmid] at h
      split at h <;>
        · cases h
          rfl

theorem step?_of_clearAmid (h : (store.clearAmid disk mishap).2 = .error failure) :
    failure.step? = none := by
  cases mishap with
  | none =>
      rw [clearAmid, clear] at h
      split at h <;> cases h
      rfl
  | some mishap =>
      cases h
      rfl

end Store

/-- What comes to a call from outside names no step. -/
def Event.NamesNone : Event → Prop
  | .reply (.failed failure) | .stored (.error failure) => failure.step? = none
  | _ => True

/-- A text that no `#` parts into a code and a state is malformed. -/
theorem Pasted.read_of_not_joins {text : String} (h : ¬ ∃ pasted, Pasted.Joins pasted text) :
    read text = .error malformed := by
  cases hread : read text with
  | ok pasted => exact (h ⟨pasted, read_eq_ok.1 hread⟩).elim
  | error failure =>
      rw [read] at hread
      split at hread
      · split at hread <;> cases hread
        rfl
      · cases hread
        rfl

/-- What is pasted for the call is no code and state. -/
def Call.Unreadable (call : Call) : Prop :=
  ∃ pasted, call = .complete pasted ∧ ¬ ∃ read, Pasted.Joins read pasted

/-! ## What a session asks for -/

/-- The step that brings the authorization on. -/
def Session.nextStep (session : Session) : AuthStep :=
  if session.pending.isSome then .callback else .start

theorem Session.nextStep_of_pending {session : Session} {flow : Flow}
    (h : session.pending = some flow) : session.nextStep = .callback := by
  rw [nextStep, h]
  rfl

theorem Session.nextStep_of_not_pending {session : Session} (h : session.pending = none) :
    session.nextStep = .start := by
  rw [nextStep, h]
  rfl

/-- Without a record a caller is told the step that the session asks for. -/
theorem Session.Sound.step?_missing {session : Session} (h : session.Sound) :
    session.missing.step? = some session.nextStep := by
  rw [Session.missing]
  cases hlost : session.refreshFailure with
  | some reason =>
      rw [Session.nextStep_of_not_pending (h.lost hlost).2]
      rfl
  | none => cases hpending : session.pending <;> simp [Session.nextStep, hpending, Failure.step?]

/-- The failure names no step but the one that the session asks for. -/
def Session.Explains (session : Session) (failure : Failure) : Prop :=
  ∀ step, failure.step? = some step → step = session.nextStep

theorem Session.explains_of_step? {session : Session} {failure : Failure}
    (h : failure.step? = some session.nextStep) : session.Explains failure := by
  intro step hstep
  rw [h] at hstep
  exact (Option.some.inj hstep).symm

theorem Session.explains_of_none {session : Session} {failure : Failure}
    (h : failure.step? = none) : session.Explains failure := by
  intro step hstep
  rw [h] at hstep
  cases hstep

/-! ## A call by itself -/

namespace Stage

variable {now : UInt64} {keeper : Keeper} {stage : Stage} {event : Event}

/-- What is pasted can be read, and a failure that the call ends with explains the session. -/
def Explained (session : Session) : Stage → Prop
  | .completing pasted => ∃ read, Pasted.Joins read pasted
  | .refreshed (.error failure) | .over (.refused failure) => session.Explains failure
  | _ => True

theorem explained_complete {pasted : String} (h : ∃ read, Pasted.Joins read pasted) :
    (complete keeper pasted).2.Explained (complete keeper pasted).1.session := by
  obtain ⟨read, hjoins⟩ := h
  rw [complete, Pasted.read_eq_ok.2 hjoins]
  cases hpending : keeper.session.pending with
  | none =>
      have hstart := (Session.nextStep_of_not_pending hpending).symm
      exact Session.explains_of_step? (congrArg some hstart)
  | some flow =>
      have hcallback := (Session.nextStep_of_pending hpending).symm
      by_cases hstate : read.state = flow.state
      · simp only [hstate, if_true]
        trivial
      · simp only [hstate, if_false]
        exact Session.explains_of_step? (congrArg some hcallback)

theorem explained_exchange {flow : Flow} {reply : TokenReply}
    (h : keeper.session.pending = some flow) (hevent : (Event.reply reply).NamesNone) :
    (exchange now keeper flow reply).2.Explained
      (exchange now keeper flow reply).1.session := by
  have hcallback := (Session.nextStep_of_pending h).symm
  cases reply with
  | rejected status body => exact Session.explains_of_step? (congrArg some hcallback)
  | failed failure => exact Session.explains_of_none hevent
  | granted grant =>
      rw [exchange]
      cases hmade : grant.toRecord none now with
      | none => trivial
      | some made =>
          cases made with
          | ok record => trivial
          | error failure =>
              exact Session.explains_of_step?
                ((Grant.step?_of_toRecord hmade).trans (congrArg some hcallback))

theorem explained_look (hsound : keeper.session.Sound) (seen : UInt64) :
    (look now keeper seen).2.Explained (look now keeper seen).1.session := by
  rcases look_cases now keeper seen with ⟨record, -, -, heq⟩ | ⟨-, heq⟩ | ⟨record, -, -, heq⟩ <;>
    rw [heq]
  · trivial
  · exact Session.explains_of_step? hsound.step?_missing
  · trivial

/-- No refresh is settled while a call goes on by itself, so it shares no outcome. -/
theorem explained_decide {seen : UInt64} (h : keeper.generation = seen)
    (hsound : keeper.session.Sound) :
    (decide now keeper seen).2.Explained (decide now keeper seen).1.session := by
  rcases decide_cases now keeper seen with ⟨record, -, -, heq⟩ | ⟨-, heq⟩ |
    ⟨record, -, -, ⟨outcome, hseen, -, heq⟩ | ⟨-, heq⟩⟩
  · rw [heq]
    trivial
  · rw [heq]
    exact Session.explains_of_step? hsound.step?_missing
  · exact (hseen h).elim
  · rw [heq]
    trivial

theorem Explained.step (h : stage.Explained keeper.session) (hfound : stage.Undisturbed keeper)
    (hsound : keeper.session.Sound) (now : UInt64) (hadmits : stage.wait.Admits event)
    (hevent : event.NamesNone) :
    (stage.step now keeper event).2.Explained (stage.step now keeper event).1.session := by
  cases stage <;> cases event <;> try exact hadmits.elim
  case completing.turn pasted => exact explained_complete h
  case exchanging.reply flow code reply => exact explained_exchange hfound hevent
  case rechecking.turn flow record =>
    have hsame : keeper.session.pending.map Flow.state = some flow.state :=
      congrArg (Option.map Flow.state) hfound
    rw [Stage.step, recheck, if_pos hsame]
    trivial
  case exchangeStoring.stored record stored =>
    cases stored with
    | ok done => trivial
    | error failure => exact Session.explains_of_none hevent
  case requesting.turn => rw [Stage.step]; split <;> trivial
  case retrying.turn =>
    rcases retry_cases keeper with heq | ⟨reason, record, -, -, heq⟩ <;>
      · rw [Stage.step, heq]
        trivial
  case looking.turn seen => exact explained_look hsound seen
  case refreshDeciding.turn seen => exact explained_decide hfound hsound
  case refreshing.reply used reply =>
    rcases refresh_cases now keeper used reply with ⟨status, body, -, heq⟩ | ⟨failure, rfl, heq⟩ |
      ⟨grant, record, -, -, heq⟩ | ⟨grant, -, -, heq⟩ <;> rw [Stage.step, heq]
    · trivial
    · exact Session.explains_of_none hevent
    · trivial
    · trivial
  case refreshCleared.turn reason => exact Session.explains_of_step? rfl
  case refreshed.turn outcome =>
    cases outcome with
    | ok value => trivial
    | error failure => exact h
  case logoutClearing.stored stored =>
    cases stored with
    | ok done => trivial
    | error failure => exact Session.explains_of_none hevent
  all_goals trivial

end Stage

namespace Traffic

variable {store : Store} {disk after : Disk} {past : List Moment} {traffic next : Traffic}
  {visit : Visit} {failure : Failure} {step : AuthStep}

/-- Every reply is what comes of an exchange with the endpoint. -/
def FromEndpoint (inputs : List (UInt64 × Input)) : Prop :=
  ∀ now reply, (now, .reply reply) ∈ inputs → ∃ exchange, reply = .ofExchange exchange

theorem namesNone_of_event? {wait : Wait} {input : Input} {event : Event}
    (h : traffic.event? store wait input = some (after, event))
    (hreply : ∀ reply, input = .reply reply → ∃ exchange, reply = .ofExchange exchange) :
    event.NamesNone := by
  rcases event?_cases h with ⟨-, rfl, -⟩ | ⟨reply, hinput, rfl, -⟩ |
    ⟨record, mishap, -, -, rfl, -⟩ | ⟨mishap, -, -, rfl, -⟩
  · trivial
  · obtain ⟨exchange, rfl⟩ := hreply reply hinput
    cases hfailed : TokenReply.ofExchange exchange with
    | failed failure => exact TokenReply.step?_of_failed hfailed
    | _ => trivial
  · cases hstored : (store.saveAmid record traffic.disk mishap).2 with
    | ok done => trivial
    | error failure => exact Store.step?_of_saveAmid hstored
  · cases hstored : (store.clearAmid traffic.disk mishap).2 with
    | ok done => trivial
    | error failure => exact Store.step?_of_clearAmid hstored

/-- A refused call that could be read names no step but the one that the session asks for. -/
theorem Visits.explains (h : traffic.Visits store visit next)
    (hreached : Reached store disk past traffic) (hreadable : ¬ visit.call.Unreadable)
    (hanswered : FromEndpoint visit.inputs) (hrefused : visit.answer = some (.refused failure)) :
    next.keeper.session.Explains failure := by
  have harrived : Reached store disk (past ++ [⟨0, .begin visit.call⟩]) _ := hreached.step rfl
  have hend := h.induction_alone
    (P := fun inputs between stage => FromEndpoint inputs → stage.Explained between.keeper.session)
    (fun _ => by
      cases hcall : visit.call with
      | complete pasted => exact not_not.1 fun hnone => hreadable ⟨pasted, hcall, hnone⟩
      | _ => trivial)
    (by
      intro inputs between stage now input after event hrun _ _ hfound hbefore hevent hall
      have hsound := (harrived.run hrun).sessionKnown.sound
      have hexplained := hbefore fun time reply hmem =>
        hall time reply (List.mem_append_left _ hmem)
      have hnames := namesNone_of_event? hevent fun reply hreply =>
        hall now reply (by rw [hreply]; simp)
      exact hexplained.step hfound hsound now (admits_of_event? hevent).1 hnames)
  rw [hrefused] at hend
  exact hend hanswered

/-- A text that is no code and state is refused as such, whatever the session. -/
theorem Visits.malformed (h : traffic.Visits store visit next) (hcall : visit.call.Unreadable)
    (hrefused : visit.answer = some (.refused failure)) : failure = Pasted.malformed := by
  obtain ⟨pasted, hcall, hnone⟩ := hcall
  have hend := h.induction
    (P := fun _ _ stage => stage = .completing pasted ∨ stage = .over (.refused Pasted.malformed))
    (.inl (by rw [hcall]; rfl))
    (by
      intro inputs between stage now input after event _ _ hbefore hevent
      rcases hbefore with rfl | rfl
      · right
        have hadmits := (admits_of_event? hevent).1
        cases event with
        | turn =>
            show (Stage.complete between.keeper pasted).2 = _
            rw [Stage.complete, Pasted.read_of_not_joins hnone]
            rfl
        | _ => exact hadmits.elim
      · exact (admits_of_event? hevent).1.elim)
  rw [hrefused] at hend
  rcases hend with hstage | hstage <;> cases hstage
  rfl

/--
The step that the failure of a call by itself names, whatever went on before it.  It is the
callback exactly if a flow is pending as the call ends or the pasted text cannot be read, and to
start exactly if neither is so: but for such a text, the step is the one that makes progress.
-/
theorem refused_step_iff (hreached : Reached store disk past traffic)
    (h : traffic.Visits store visit next) (hanswered : FromEndpoint visit.inputs)
    (hrefused : visit.answer = some (.refused failure)) (hstep : failure.step? = some step) :
    (step = .callback ↔
      next.keeper.session.pending.isSome = true ∨ visit.call.Unreadable) ∧
    (step = .start ↔
      next.keeper.session.pending = none ∧ ¬ visit.call.Unreadable) := by
  by_cases hunreadable : visit.call.Unreadable
  · rw [h.malformed hunreadable hrefused] at hstep
    cases hstep
    simp [hunreadable]
  · have hasked := h.explains hreached hunreadable hanswered hrefused step hstep
    rw [hasked]
    cases hpending : next.keeper.session.pending with
    | none => simp [Session.nextStep_of_not_pending hpending, hunreadable]
    | some flow => simp [Session.nextStep_of_pending hpending]

/-- The endpoint does not accept the code of the pending flow. -/
def codeRejected : Visit :=
  ⟨.complete "code#state",
    [(1000, .turn), (1000, .reply (.ofExchange (.answered 400 (.whole []))))],
    some (.refused (.exchangeFailed (TokenReply.rejection 400 "")))⟩

set_option maxRecDepth 8000 in
theorem refused_step_iff_rejected :
    (∃ traffic next, Visited ⟨["tokens.json"]⟩ .empty none [startVisit] traffic ∧
      traffic.Visits ⟨["tokens.json"]⟩ codeRejected next ∧
      next.keeper.session.pending.isSome = true) ∧
    ∃ traffic next, Visited ⟨["tokens.json"]⟩ .empty none
        [startVisit, exchangeVisit, startVisit] traffic ∧
      traffic.keeper.session.pending.isSome = true ∧
      traffic.Visits ⟨["tokens.json"]⟩
        (refreshVisit (.ofExchange (.answered 401 (.whole [])))
          (.refused (.refreshFailed (TokenReply.rejection 401 "")))) next ∧
      next.keeper.session.pending = none := by
  constructor
  · obtain ⟨traffic, next, hvisited, hvisits⟩ :
        ∃ traffic next, Visited ⟨["tokens.json"]⟩ .empty none [startVisit] traffic ∧
          traffic.Visits ⟨["tokens.json"]⟩ codeRejected next :=
      ⟨_, _, .next (.opening rfl) ⟨rfl, rfl⟩, rfl, rfl⟩
    obtain ⟨past, hreached⟩ := hvisited.reached
    refine ⟨traffic, next, hvisited, hvisits, ?_⟩
    have hendpoint : FromEndpoint codeRejected.inputs := by simp [codeRejected, FromEndpoint]
    have hstep := (refused_step_iff hreached hvisits hendpoint rfl rfl).1.1 rfl
    refine hstep.resolve_right ?_
    rintro ⟨pasted, hcall, hnone⟩
    cases hcall
    exact hnone ⟨⟨"code", "state"⟩, by decide, by decide, by decide⟩
  · obtain ⟨traffic, next, hvisited, hpending, hvisits⟩ :
        ∃ traffic next, Visited ⟨["tokens.json"]⟩ .empty none
            ([startVisit, exchangeVisit] ++ [startVisit]) traffic ∧
          traffic.keeper.session.pending.isSome = true ∧
          traffic.Visits ⟨["tokens.json"]⟩
            (refreshVisit (.ofExchange (.answered 401 (.whole [])))
              (.refused (.refreshFailed (TokenReply.rejection 401 "")))) next :=
      ⟨_, _, .next (.next (.next (.opening rfl) ⟨rfl, rfl⟩) ⟨rfl, rfl⟩) ⟨rfl, rfl⟩, rfl, rfl, rfl⟩
    obtain ⟨past, hreached⟩ := hvisited.reached
    refine ⟨traffic, next, hvisited, hpending, hvisits, ?_⟩
    exact ((refused_step_iff hreached hvisits (by simp [refreshVisit, FromEndpoint]) rfl rfl).2.1
      rfl).1

/-- Without a pending flow a text that is no code is pasted. -/
def nothingToRead : Visit :=
  ⟨.complete "garbage", [(1000, .turn)], some (.refused Pasted.malformed)⟩

/-- Whoever pastes an unreadable text is told to post a code, though no flow waits for one. -/
theorem unreadable_text_named_callback :
    ∃ traffic next, Reached ⟨["tokens.json"]⟩ .empty [] traffic ∧
      traffic.Visits ⟨["tokens.json"]⟩ nothingToRead next ∧
      Pasted.malformed.step? = some .callback ∧ next.keeper.session.pending = none :=
  ⟨_, _, ⟨_, rfl, rfl⟩, ⟨rfl, rfl⟩, rfl, rfl⟩

end Traffic

end Credential

end ChatGateway
