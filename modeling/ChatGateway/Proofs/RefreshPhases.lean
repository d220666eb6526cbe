import ChatGateway.Proofs.TokenSupply

/-!
# The phases of a refresh

Callers who look at one stale record, one after the other or side by side, share one refresh.
From where they begin to where all of them have the outcome there are four phases: nobody has
asked the endpoint, one caller has, that caller has the outcome, and the outcome is settled.
Only a step of a caller leads from one phase to the next.

A caller whose grant has no time for its end breaks off and leaves no outcome.  The phases
begin anew then, with one more caller lost.
-/

namespace ChatGateway

namespace Credential

/-- What a reply to a refresh tells everyone who waits for it. -/
def TokenReply.outcome : TokenReply -> Except Failure String
  | .granted grant => .ok grant.accessToken
  | .rejected status body => .error (.refreshFailed (rejection status body))
  | .failed failure => .error failure

/-- The reply is a grant, and there is no time for its end. -/
def TokenReply.Endless (now : UInt64) (reply : TokenReply) : Prop :=
  ∃ grant, reply = .granted grant ∧ grant.expiry? now = none

def TokenRequest.refresh? : TokenRequest -> Option String
  | .refresh used => some used
  | .exchange _ _ _ => none

namespace Session

/-- What a caller gets from the session without a refresh, if anything. -/
def gives? (session : Session) (now : UInt64) : Option (Except Failure String) :=
  match session.supply now with
  | .fresh token => some (.ok token)
  | .absent failure => some (.error failure)
  | .stale _ => none

/-- Whoever gets anything from the session gets the outcome. -/
def Agrees (session : Session) (now : UInt64) (outcome : Except Failure String) : Prop :=
  ∀ given, session.gives? now = some given → given = outcome

variable {session : Session} {now : UInt64} {record : Record}

theorem gives?_of_stale (hrecord : session.record = some record)
    (hstale : record.isFresh now Record.safetyMargin = false) : session.gives? now = none := by
  simp [gives?, supply, hrecord, hstale]

theorem agrees_of_stale (hrecord : session.record = some record)
    (hstale : record.isFresh now Record.safetyMargin = false) (outcome : Except Failure String) :
    session.Agrees now outcome := by
  intro given hgiven
  rw [gives?_of_stale hrecord hstale] at hgiven
  cases hgiven

theorem renew_agrees (session : Session) (now : UInt64) (record : Record)
    (stored : Except Failure Unit) :
    (session.renew record stored).Agrees now (.ok record.accessToken) := by
  intro given hgiven
  by_cases hfresh : record.isFresh now Record.safetyMargin = true
  · simpa [gives?, supply, renew, hfresh] using hgiven.symm
  · simp [gives?, supply, renew, hfresh] at hgiven

theorem reject_agrees (session : Session) (now : UInt64) (reason : String) :
    (session.reject reason).Agrees now (.error (.refreshFailed reason)) := by
  intro given hgiven
  simpa [gives?, supply, reject, missing] using hgiven.symm

end Session

namespace Stage

variable {now : UInt64} {keeper : Keeper} {stage next : Stage} {event : Event}

/-- A call for a token that has not yet looked at the generation. -/
def early : Stage -> Bool
  | .requesting | .retryWaiting | .retrying | .retryStoring _ | .retryStored _ | .counting => true
  | _ => false

/-- The generation that a call has seen and not yet acted on. -/
def seen? : Stage -> Option UInt64
  | .looking seen | .refreshWaiting seen | .refreshDeciding seen => some seen
  | _ => none

/-- The refresh token that a call at this stage asks the endpoint with. -/
def asks? : Stage -> Option String
  | .refreshing used => some used
  | _ => none

/-- The outcome that a refresh is going to have, once the endpoint has replied to it. -/
def brings? : Stage -> Option (Except Failure String)
  | .refreshStoring record | .refreshStored record _ => some (.ok record.accessToken)
  | .refreshClearing reason | .refreshCleared reason => some (.error (.refreshFailed reason))
  | _ => none

/-- A call that has not seen another generation than this one, and has not acted on it. -/
def UpTo (generation : UInt64) (stage : Stage) : Prop :=
  stage.early = true ∨ stage.seen? = some generation

theorem Leads.not_over (h : Leads now keeper stage event next) (answer : Answer) :
    stage ≠ .over answer := by
  rintro rfl
  exact h.wait_ne_none rfl

theorem Leads.not_broken (h : Leads now keeper stage event next) : stage ≠ .broken := by
  rintro rfl
  exact h.wait_ne_none rfl

/-- A call that goes on is where the others are who have not ended. -/
theorem Leads.resolve {p : Prop} {answer : Answer} (h : Leads now keeper stage event next)
    (hcases : p ∨ stage = .over answer ∨ stage = .broken) : p := by
  rcases hcases with hp | hover | hbroken
  · exact hp
  · exact (h.not_over answer hover).elim
  · exact (h.not_broken hbroken).elim

/-- Only who asks the endpoint breaks off. -/
theorem Leads.ne_broken (h : Leads now keeper stage event next) (hof : stage.Of .token)
    (hasks : stage.asks? = none) : next ≠ .broken := by
  rintro rfl
  cases h with
  | breakExchange => exact hof.elim
  | breakRefresh => cases hasks

theorem Leads.early_of_early (h : Leads now keeper stage event next) (hnext : next.early = true) :
    stage.early = true := by
  cases h <;> simp_all [early]

theorem Leads.of_early (h : Leads now keeper stage event next) (hearly : stage.early = true) :
    next.UpTo keeper.generation := by
  cases h <;> simp_all [early, seen?, UpTo]

/-- Whoever has seen a generation waits, gets what the session gives, shares or asks. -/
theorem Leads.of_seen {seen : UInt64} (h : Leads now keeper stage event next)
    (hseen : stage.seen? = some seen) :
    next.seen? = some seen ∨
    (∃ outcome, keeper.session.gives? now = some outcome ∧ next = .over (.ofRefresh outcome)) ∨
    stage.inside = true ∧ ∃ record, keeper.session.record = some record ∧
      ((∃ outcome, keeper.generation ≠ seen ∧ keeper.lastRefresh = some outcome ∧
        next = .over (.ofRefresh outcome)) ∨
      (keeper.generation = seen ∨ keeper.lastRefresh = none) ∧
        next = .refreshing record.refreshToken) := by
  cases h with
  | lookStale | enterRefresh => exact .inl hseen
  | lookFresh hrecord hfresh | decideFresh hrecord hfresh =>
      refine .inr (.inl ⟨.ok _, ?_, rfl⟩)
      simp [Session.gives?, Session.supply, hrecord, hfresh]
  | lookAbsent hrecord | decideAbsent hrecord =>
      refine .inr (.inl ⟨.error _, ?_, rfl⟩)
      simp [Session.gives?, Session.supply, hrecord]
  | share hrecord _ hne hlast =>
      cases hseen
      exact .inr (.inr ⟨rfl, _, hrecord, .inl ⟨_, hne, hlast, rfl⟩⟩)
  | refresh hrecord _ hfirst =>
      cases hseen
      exact .inr (.inr ⟨rfl, _, hrecord, .inr ⟨hfirst, rfl⟩⟩)
  | _ => cases hseen

theorem Leads.of_upTo (h : Leads now keeper stage event next)
    (hup : stage.UpTo keeper.generation) :
    next.UpTo keeper.generation ∨
    (∃ outcome, keeper.session.gives? now = some outcome ∧ next = .over (.ofRefresh outcome)) ∨
    stage.inside = true ∧ ∃ record, keeper.session.record = some record ∧
      next = .refreshing record.refreshToken := by
  rcases hup with hearly | hseen
  · exact .inl (h.of_early hearly)
  · rcases h.of_seen hseen with hnext | hgiven | ⟨hin, record, hrecord, ⟨_, hne, -⟩ | ⟨-, hnext⟩⟩
    · exact .inl (.inr hnext)
    · exact .inr (.inl hgiven)
    · exact (hne rfl).elim
    · exact .inr (.inr ⟨hin, record, hrecord, hnext⟩)

/-- The reply decides the outcome, unless it is a grant that has no time for its end. -/
theorem Leads.of_asks {used : String} (h : Leads now keeper stage event next)
    (hasks : stage.asks? = some used) :
    ∃ reply, event = .reply reply ∧
      (next.brings? = some reply.outcome ∨ next = .refreshed reply.outcome ∨
        next = .broken ∧ reply.Endless now) := by
  cases h with
  | reject => exact ⟨_, rfl, .inl rfl⟩
  | fail => exact ⟨_, rfl, .inr (.inl rfl)⟩
  | grant hmade =>
      obtain ⟨_, _, -, -, rfl⟩ := Grant.toRecord_eq_ok.1 hmade
      exact ⟨_, rfl, .inl rfl⟩
  | breakRefresh hmade => exact ⟨_, rfl, .inr (.inr ⟨rfl, _, rfl, Grant.expiry?_of_toRecord hmade⟩)⟩
  | _ => cases hasks

/-- From the reply on, the session stays as it is until it agrees with the outcome. -/
theorem Leads.of_brings {outcome : Except Failure String} (h : Leads now keeper stage event next)
    (hbrings : stage.brings? = some outcome) :
    (next.brings? = some outcome ∧ stage.write keeper.session = keeper.session) ∨
    next = .refreshed outcome ∧ (stage.write keeper.session).Agrees now outcome := by
  cases h with
  | storeRefresh | clearRefresh => exact .inl ⟨hbrings, rfl⟩
  | renew =>
      cases hbrings
      exact .inr ⟨rfl, Session.renew_agrees _ _ _ _⟩
  | endSession =>
      cases hbrings
      exact .inr ⟨rfl, Session.reject_agrees keeper.session now _⟩
  | _ => cases hbrings

theorem Leads.of_refreshing {outcome : Except Failure String}
    (h : Leads now keeper stage event next) (hstage : stage = .refreshed outcome) :
    next = .over (.ofRefresh outcome) := by
  subst hstage
  cases h
  rfl

theorem record_write_of_upTo {generation : UInt64} (h : stage.UpTo generation) (session : Session) :
    (stage.write session).record = session.record := by
  cases stage <;> simp_all [UpTo, early, seen?, write, Session.persisted]

theorem write_of_outside (hout : stage.inside = false) (hof : stage.Of .token)
    (session : Session) : stage.write session = session := by
  cases stage <;> simp_all [inside, write, Of]

theorem write_of_seen {seen : UInt64} (h : stage.seen? = some seen) (session : Session) :
    stage.write session = session := by
  cases stage <;> simp_all [seen?, write]

theorem write_of_asks {used : String} (h : stage.asks? = some used) (session : Session) :
    stage.write session = session := by
  cases stage <;> simp_all [asks?, write]

theorem settling?_of_upTo {generation : UInt64} (h : stage.UpTo generation) :
    stage.settling? = none := by
  cases stage <;> simp_all [UpTo, early, seen?, settling?]

theorem asks?_of_upTo {generation : UInt64} (h : stage.UpTo generation) : stage.asks? = none := by
  cases stage <;> simp_all [UpTo, early, seen?, asks?]

theorem wait_ne_none_of_upTo {generation : UInt64} (h : stage.UpTo generation) :
    stage.wait ≠ .none := by
  cases stage <;> simp_all [UpTo, early, seen?, wait]

theorem asks?_of_brings {outcome : Except Failure String} (h : stage.brings? = some outcome) :
    stage.asks? = none ∧ stage.settling? = none ∧ stage.inside = true := by
  cases stage <;> simp_all [brings?, asks?, settling?, inside]

theorem settling?_of_asks {used : String} (h : stage.asks? = some used) :
    stage.settling? = none ∧ stage.inside = true := by
  cases stage <;> simp_all [asks?, settling?, inside]

theorem of_other {call : Call} (hof : stage.Of call) (hne : call ≠ .token) :
    stage.settling? = none ∧ stage.asks? = none := by
  cases call <;> cases stage <;> simp_all [Of, settling?, asks?]

theorem request?_bind_refresh? (stage : Stage) :
    stage.request?.bind TokenRequest.refresh? = stage.asks? := by
  cases stage <;> rfl

end Stage

namespace Traffic

variable {store : Store} {disk : Disk} {traffic next start : Traffic} {past : List Moment}
  {now : UInt64} {record : Record} {first index : Nat} {caller : Caller} {lost : List Nat}

/-- The refreshes that were asked for, each with its call and its refresh token. -/
def refreshes (traffic : Traffic) : List (Nat × String) :=
  traffic.sent.filterMap fun entry => entry.2.refresh?.map fun used => (entry.1, used)

theorem refreshes_put (traffic : Traffic) (index : Nat) (caller : Caller) (disk : Disk)
    (result : Keeper × Stage) :
    (traffic.put index caller disk result).refreshes =
      traffic.refreshes ++ result.2.asks?.toList.map fun used => (index, used) := by
  rw [← Stage.request?_bind_refresh?]
  unfold refreshes put
  rw [List.filterMap_append]
  congr 1
  cases result.2.request? with
  | none => rfl
  | some request => cases request <;> rfl

/-- No refresh is settled between two moments. -/
structure Calm (before after : Traffic) : Prop where
  generation : after.keeper.generation = before.keeper.generation
  last : after.keeper.lastRefresh = before.keeper.lastRefresh
  settled : after.settled = before.settled

theorem Calm.trans {first second third : Traffic} (h : Calm first second)
    (h' : Calm second third) : Calm first third :=
  ⟨h'.generation.trans h.generation, h'.last.trans h.last, h'.settled.trans h.settled⟩

theorem calm_put {input : Input} {event : Event} (now : UInt64) (index : Nat)
    (hevent : traffic.event? store caller.stage.wait input = some (disk, event))
    (hsettling : caller.stage.settling? = none) :
    Calm traffic (traffic.put index caller disk (caller.stage.step now traffic.keeper event)) := by
  have hkeeper := Stage.keeper_step now traffic.keeper (admits_of_event? hevent).1
  rw [hsettling] at hkeeper
  refine ⟨?_, ?_, ?_⟩
  · show (caller.stage.step now traffic.keeper event).1.generation = _
    rw [hkeeper]
    rfl
  · show (caller.stage.step now traffic.keeper event).1.lastRefresh = _
    rw [hkeeper]
    rfl
  · simp [put, hsettling]

/-- A call for a token that is not one of the first calls. -/
structure Newcomer (first : Nat) (traffic : Traffic) (index : Nat) (caller : Caller) : Prop where
  late : first ≤ index
  here : traffic.calls[index]? = some caller
  token : caller.call = .token

theorem Newcomer.put_of_ne {other : Nat} {held : Caller} (h : traffic.Newcomer first other held)
    (hne : index ≠ other) (caller : Caller) (disk : Disk) (result : Keeper × Stage) :
    (traffic.put index caller disk result).Newcomer first other held :=
  ⟨h.late, by rw [getElem?_put_of_ne hne, h.here], h.token⟩

theorem Newcomer.put_self (h : traffic.Newcomer first index caller) (disk : Disk)
    (result : Keeper × Stage) :
    (traffic.put index caller disk result).Newcomer first index ⟨caller.call, result.2⟩ :=
  ⟨h.late, getElem?_put_self h.here disk result, h.token⟩

theorem Newcomer.put (h : traffic.Newcomer first index caller) {other : Nat} {held : Caller}
    (h' : traffic.Newcomer first other held) (disk : Disk) (result : Keeper × Stage) :
    ∃ held, (traffic.put index caller disk result).Newcomer first other held := by
  by_cases hne : index = other
  · subst hne
    exact ⟨_, h.put_self disk result⟩
  · exact ⟨held, h'.put_of_ne hne caller disk result⟩

theorem newcomer_put (hcaller : traffic.calls[index]? = some caller) {disk : Disk}
    {result : Keeper × Stage} {other : Nat} {held : Caller}
    (h : (traffic.put index caller disk result).Newcomer first other held) :
    (index = other ∧ held = ⟨caller.call, result.2⟩) ∨
      index ≠ other ∧ traffic.Newcomer first other held := by
  by_cases hne : index = other
  · subst hne
    have hheld := h.here
    rw [getElem?_put_self hcaller] at hheld
    exact .inl ⟨rfl, (Option.some.inj hheld).symm⟩
  · refine .inr ⟨hne, h.late, ?_, h.token⟩
    rw [← h.here, getElem?_put_of_ne hne]

/-- The endpoint has replied to the call, and the reply means this outcome. -/
def Replied (past : List Moment) (now : UInt64) (index : Nat) (outcome : Except Failure String) :
    Prop :=
  ∃ reply, ⟨now, .advance index (.reply reply)⟩ ∈ past ∧ reply.outcome = outcome

theorem Replied.later {outcome : Except Failure String} (h : Replied past now index outcome)
    (later : List Moment) : Replied (past ++ later) now index outcome := by
  obtain ⟨reply, hreply, houtcome⟩ := h
  exact ⟨reply, List.mem_append_left _ hreply, houtcome⟩

/--
The newcomers that have broken off, in the order in which they asked: each of them was granted
something that has no time for its end.
-/
structure Lost (start : Traffic) (now : UInt64) (past : List Moment) (traffic : Traffic)
    (lost : List Nat) : Prop where
  nodup : lost.Nodup
  broken : ∀ index, index ∈ lost ↔
    ∃ caller, traffic.Newcomer start.calls.length index caller ∧ caller.stage = .broken
  granted : ∀ index ∈ lost, ∃ reply : TokenReply, reply.Endless now ∧
    ⟨now, .advance index (.reply reply)⟩ ∈ past

/-- The refreshes that were asked for before the newcomers came, and those of the lost ones. -/
def askedBy (start : Traffic) (record : Record) (lost : List Nat) : List (Nat × String) :=
  start.refreshes ++ lost.map fun index => (index, record.refreshToken)

theorem askedBy_concat (start : Traffic) (record : Record) (lost : List Nat) (index : Nat) :
    start.askedBy record (lost ++ [index]) =
      start.askedBy record lost ++ [(index, record.refreshToken)] := by
  simp [askedBy]

/--
The phases of the refresh that the newcomers share who look at a stale record, with those lost
who broke off.
-/
inductive Phase (start : Traffic) (record : Record) (now : UInt64) (past : List Moment)
    (traffic : Traffic) (lost : List Nat) : Prop
  /-- Nobody has asked the endpoint but those who are lost. -/
  | waiting (calm : Calm start traffic)
      (kept : traffic.keeper.session.record = some record)
      (asked : traffic.refreshes = start.askedBy record lost)
      (callers : ∀ index caller, traffic.Newcomer start.calls.length index caller →
        caller.stage.UpTo start.keeper.generation ∨ caller.stage = .broken)
  /-- One caller has asked, and it brings the outcome once the endpoint has replied. -/
  | asking (index : Nat) (caller : Caller) (calm : Calm start traffic)
      (kept : traffic.keeper.session.record = some record)
      (asked : traffic.refreshes = start.askedBy record lost ++ [(index, record.refreshToken)])
      (asker : traffic.Newcomer start.calls.length index caller)
      (stage : caller.stage.asks? = some record.refreshToken ∨
        ∃ outcome, caller.stage.brings? = some outcome ∧ Replied past now index outcome)
      (callers : ∀ other held, traffic.Newcomer start.calls.length other held → index ≠ other →
        held.stage.UpTo start.keeper.generation ∨ held.stage = .broken)
  /-- The caller has the outcome, and the session agrees with it. -/
  | answered (index : Nat) (caller : Caller) (outcome : Except Failure String)
      (calm : Calm start traffic)
      (agrees : traffic.keeper.session.Agrees now outcome)
      (asked : traffic.refreshes = start.askedBy record lost ++ [(index, record.refreshToken)])
      (asker : traffic.Newcomer start.calls.length index caller)
      (stage : caller.stage = .refreshed outcome) (replied : Replied past now index outcome)
      (callers : ∀ other held, traffic.Newcomer start.calls.length other held → index ≠ other →
        held.stage.UpTo start.keeper.generation ∨ held.stage = .over (.ofRefresh outcome) ∨
          held.stage = .broken)
  /-- The outcome is there for everyone. -/
  | settled (index : Nat) (outcome : Except Failure String)
      (generation : traffic.keeper.generation = start.keeper.generation + 1)
      (last : traffic.keeper.lastRefresh = some outcome)
      (settled : traffic.settled = start.settled ++ [(index, outcome)])
      (agrees : traffic.keeper.session.Agrees now outcome)
      (asked : traffic.refreshes = start.askedBy record lost ++ [(index, record.refreshToken)])
      (asker : traffic.Newcomer start.calls.length index ⟨.token, .over (.ofRefresh outcome)⟩)
      (replied : Replied past now index outcome)
      (callers : ∀ other held, traffic.Newcomer start.calls.length other held →
        held.stage.seen? = some start.keeper.generation ∨
          held.stage = .over (.ofRefresh outcome) ∨ held.stage = .broken)

/-- What does not touch the refresh keeps the phase; callers may come until it is settled. -/
theorem Phase.of_same (h : Phase start record now past traffic lost) (later : List Moment)
    (hcalm : Calm traffic next) (hsession : next.keeper.session = traffic.keeper.session)
    (hasked : next.refreshes = traffic.refreshes)
    (hkept : ∀ {index caller}, traffic.Newcomer start.calls.length index caller →
      next.Newcomer start.calls.length index caller)
    (hnew : ∀ {index caller}, next.Newcomer start.calls.length index caller →
      traffic.Newcomer start.calls.length index caller ∨
        caller.stage.early = true ∧ next.settled = start.settled) :
    Phase start record now (past ++ later) next lost := by
  cases h with
  | waiting calm kept asked callers =>
      refine .waiting (calm.trans hcalm) (hsession ▸ kept) (hasked.trans asked) ?_
      intro index caller hcaller
      rcases hnew hcaller with hcaller | ⟨hearly, -⟩
      · exact callers index caller hcaller
      · exact .inl (.inl hearly)
  | asking index caller calm kept asked asker stage callers =>
      refine .asking index caller (calm.trans hcalm) (hsession ▸ kept) (hasked.trans asked)
        (hkept asker) ?_ ?_
      · rcases stage with hasks | ⟨outcome, hbrings, hreplied⟩
        · exact .inl hasks
        · exact .inr ⟨outcome, hbrings, hreplied.later later⟩
      · intro other held hheld hne
        rcases hnew hheld with hheld | ⟨hearly, -⟩
        · exact callers other held hheld hne
        · exact .inl (.inl hearly)
  | answered index caller outcome calm agrees asked asker stage replied callers =>
      refine .answered index caller outcome (calm.trans hcalm) (hsession ▸ agrees)
        (hasked.trans asked) (hkept asker) stage (replied.later later) ?_
      intro other held hheld hne
      rcases hnew hheld with hheld | ⟨hearly, -⟩
      · exact callers other held hheld hne
      · exact .inl (.inl hearly)
  | settled index outcome generation last settled agrees asked asker replied callers =>
      refine .settled index outcome (hcalm.generation.trans generation) (hcalm.last.trans last)
        (hcalm.settled.trans settled) (hsession ▸ agrees) (hasked.trans asked)
        (hkept asker) (replied.later later) ?_
      intro other held hheld
      rcases hnew hheld with hheld | ⟨-, hsame⟩
      · exact callers other held hheld
      · rw [hcalm.settled, settled] at hsame
        simp at hsame

/-- What breaks nobody off leaves the lost ones as they are. -/
theorem Lost.of_same (h : Lost start now past traffic lost) (later : List Moment)
    (hkept : ∀ {index caller}, traffic.Newcomer start.calls.length index caller →
      next.Newcomer start.calls.length index caller)
    (hnew : ∀ {index caller}, next.Newcomer start.calls.length index caller →
      traffic.Newcomer start.calls.length index caller ∨
        caller.stage.early = true ∧ next.settled = start.settled) :
    Lost start now (past ++ later) next lost where
  nodup := h.nodup
  broken := by
    intro index
    rw [h.broken index]
    constructor
    · rintro ⟨caller, hcaller, hbroken⟩
      exact ⟨caller, hkept hcaller, hbroken⟩
    · rintro ⟨caller, hcaller, hbroken⟩
      rcases hnew hcaller with hcaller | ⟨hearly, -⟩
      · exact ⟨caller, hcaller, hbroken⟩
      · rw [hbroken] at hearly
        cases hearly
  granted := by
    intro index hindex
    obtain ⟨reply, hendless, hreply⟩ := h.granted index hindex
    exact ⟨reply, hendless, List.mem_append_left _ hreply⟩

/-- Whether another call has broken off does not depend on the call that goes on. -/
theorem broken_put_of_ne (hcaller : traffic.calls[index]? = some caller) (disk : Disk)
    (result : Keeper × Stage) {other : Nat} (hne : index ≠ other) :
    (∃ held, (traffic.put index caller disk result).Newcomer first other held ∧
        held.stage = .broken) ↔
      ∃ held, traffic.Newcomer first other held ∧ held.stage = .broken := by
  constructor
  · rintro ⟨held, hheld, hbroken⟩
    rcases newcomer_put hcaller hheld with ⟨heq, -⟩ | ⟨-, hheld⟩
    · exact (hne heq).elim
    · exact ⟨held, hheld, hbroken⟩
  · rintro ⟨held, hheld, hbroken⟩
    exact ⟨held, hheld.put_of_ne hne _ _ _, hbroken⟩

section Steps

variable {input : Input} {event : Event} {asker : Caller} {outcome : Except Failure String}

theorem Lost.not_mem (h : Lost start now past traffic lost)
    (hcaller : traffic.calls[index]? = some caller)
    (hevent : traffic.event? store caller.stage.wait input = some (disk, event)) :
    index ∉ lost := by
  intro hindex
  obtain ⟨held, hheld, hbroken⟩ := (h.broken index).1 hindex
  have heq : held = caller := Option.some.inj (hheld.here.symm.trans hcaller)
  subst heq
  exact (leads_of_event? now hevent).not_broken hbroken

/-- A call goes on and does not break off. -/
theorem Lost.put (h : Lost start now past traffic lost) (later : List Moment)
    (hcaller : traffic.calls[index]? = some caller)
    (hevent : traffic.event? store caller.stage.wait input = some (disk, event))
    (hnext : (caller.stage.step now traffic.keeper event).2 ≠ .broken) :
    Lost start now (past ++ later)
      (traffic.put index caller disk (caller.stage.step now traffic.keeper event)) lost where
  nodup := h.nodup
  broken := by
    intro other
    by_cases hne : index = other
    · subst hne
      refine iff_of_false (h.not_mem hcaller hevent) ?_
      rintro ⟨held, hheld, hbroken⟩
      rcases newcomer_put hcaller hheld with ⟨-, rfl⟩ | ⟨hne, -⟩
      · exact hnext hbroken
      · exact hne rfl
    · rw [broken_put_of_ne hcaller _ _ hne]
      exact h.broken other
  granted := by
    intro index hindex
    obtain ⟨reply, hendless, hreply⟩ := h.granted index hindex
    exact ⟨reply, hendless, List.mem_append_left _ hreply⟩

/-- A newcomer breaks off. -/
theorem Lost.put_broken (h : Lost start now past traffic lost)
    (hcaller : traffic.Newcomer start.calls.length index caller) {reply : TokenReply}
    (hevent : traffic.event? store caller.stage.wait (.reply reply) = some (disk, event))
    (hnext : (caller.stage.step now traffic.keeper event).2 = .broken)
    (hendless : reply.Endless now) :
    Lost start now (past ++ [⟨now, .advance index (.reply reply)⟩])
      (traffic.put index caller disk (caller.stage.step now traffic.keeper event))
      (lost ++ [index]) where
  nodup := List.nodup_append.2 ⟨h.nodup, List.nodup_singleton index, by
    intro other hother last hlast heq
    rw [List.mem_singleton.1 hlast] at heq
    exact h.not_mem hcaller.here hevent (heq ▸ hother)⟩
  broken := by
    intro other
    rw [List.mem_append, List.mem_singleton]
    by_cases hne : index = other
    · subst hne
      exact iff_of_true (.inr rfl) ⟨_, hcaller.put_self _ _, hnext⟩
    · rw [broken_put_of_ne hcaller.here _ _ hne, ← h.broken other]
      exact or_iff_left (Ne.symm hne)
  granted := by
    intro other hother
    rcases List.mem_append.1 hother with hother | hother
    · obtain ⟨earlier, hearlier, hreply⟩ := h.granted other hother
      exact ⟨earlier, hearlier, List.mem_append_left _ hreply⟩
    · rw [List.mem_singleton.1 hother]
      exact ⟨reply, hendless, List.mem_append_right _ (List.mem_singleton_self _)⟩

/-- The ways on for a caller while another one is inside. -/
theorem Newcomer.of_upTo (now : UInt64) (hguarded : traffic.Guarded) {asking : Nat}
    (hasker : traffic.calls[asking]? = some asker) (hin : asker.stage.inside = true)
    (hne : asking ≠ index) (hcaller : traffic.Newcomer first index caller)
    (hup : caller.stage.UpTo traffic.keeper.generation) (hof : caller.stage.Of .token)
    (hevent : traffic.event? store caller.stage.wait input = some (disk, event)) :
    (traffic.put index caller disk
        (caller.stage.step now traffic.keeper event)).keeper.session = traffic.keeper.session ∧
      ((caller.stage.step now traffic.keeper event).2.UpTo traffic.keeper.generation ∨
      ∃ outcome, traffic.keeper.session.gives? now = some outcome ∧
        (caller.stage.step now traffic.keeper event).2 = .over (.ofRefresh outcome)) := by
  obtain ⟨hout, -⟩ := hguarded.stays_outside now hcaller.here hasker hne.symm hin hevent
  refine ⟨by rw [session_put now index hevent, Stage.write_of_outside hout hof], ?_⟩
  rcases (leads_of_event? now hevent).of_upTo hup with hnext | hgiven | ⟨hinside, -⟩
  · exact .inl hnext
  · exact .inr hgiven
  · rw [hout] at hinside
    cases hinside

/-- The first one at the gate asks. -/
theorem Phase.step_waiting (past : List Moment) (calm : Calm start traffic)
    (kept : traffic.keeper.session.record = some record)
    (asked : traffic.refreshes = start.askedBy record lost)
    (callers : ∀ index caller, traffic.Newcomer start.calls.length index caller →
      caller.stage.UpTo start.keeper.generation ∨ caller.stage = .broken)
    (hstale : record.isFresh now Record.safetyMargin = false)
    (hcaller : traffic.Newcomer start.calls.length index caller)
    (hevent : traffic.event? store caller.stage.wait input = some (disk, event)) :
    Phase start record now past
      (traffic.put index caller disk (caller.stage.step now traffic.keeper event)) lost := by
  have hleads := leads_of_event? now hevent
  have hup := (callers index caller hcaller).resolve_right hleads.not_broken
  have hcalm := calm.trans (calm_put now index hevent (Stage.settling?_of_upTo hup))
  have hkept : (traffic.put index caller disk
      (caller.stage.step now traffic.keeper event)).keeper.session.record = some record := by
    rw [session_put now index hevent, Stage.record_write_of_upTo hup, kept]
  rcases hleads.of_upTo (calm.generation ▸ hup) with
    hnext | ⟨outcome, hgiven, -⟩ | ⟨-, held, hheld, hnext⟩
  · rw [calm.generation] at hnext
    refine .waiting hcalm hkept ?_ ?_
    · rw [refreshes_put, Stage.asks?_of_upTo hnext, asked]
      exact List.append_nil _
    · intro other held hheld
      rcases newcomer_put hcaller.here hheld with ⟨rfl, rfl⟩ | ⟨-, hheld⟩
      · exact .inl hnext
      · exact callers other held hheld
  · rw [Session.gives?_of_stale kept hstale] at hgiven
    cases hgiven
  · rw [kept] at hheld
    cases hheld
    refine .asking index _ hcalm hkept ?_ (hcaller.put_self _ _) (.inl ?_) ?_
    · rw [refreshes_put, hnext, asked]
      rfl
    · show (caller.stage.step now traffic.keeper event).2.asks? = _
      rw [hnext]
      rfl
    · intro other held hheld hne
      rcases newcomer_put hcaller.here hheld with ⟨heq, -⟩ | ⟨-, hheld⟩
      · exact (hne heq).elim
      · exact callers other held hheld

/-- The one who asked breaks off, and it is as if nobody had asked but those who are lost. -/
theorem Phase.step_breaking (past : List Moment) (calm : Calm start traffic)
    (kept : traffic.keeper.session.record = some record)
    (asked : traffic.refreshes = start.askedBy record lost ++ [(index, record.refreshToken)])
    (hcaller : traffic.Newcomer start.calls.length index caller)
    (asks : caller.stage.asks? = some record.refreshToken)
    (callers : ∀ other held, traffic.Newcomer start.calls.length other held → index ≠ other →
      held.stage.UpTo start.keeper.generation ∨ held.stage = .broken)
    (hevent : traffic.event? store caller.stage.wait input = some (disk, event))
    (hnext : (caller.stage.step now traffic.keeper event).2 = .broken) :
    Phase start record now past
      (traffic.put index caller disk (caller.stage.step now traffic.keeper event))
      (lost ++ [index]) := by
  refine .waiting
    (calm.trans (calm_put now index hevent (Stage.settling?_of_asks asks).1)) ?_ ?_ ?_
  · rw [session_put now index hevent, Stage.write_of_asks asks, kept]
  · rw [refreshes_put, hnext, asked, askedBy_concat]
    exact List.append_nil _
  · intro other held hheld
    rcases newcomer_put hcaller.here hheld with ⟨-, rfl⟩ | ⟨hne, hheld⟩
    · exact .inr hnext
    · exact callers other held hheld hne

/-- The one who asked goes on to the outcome, if it does not break off. -/
theorem Phase.step_asking (calm : Calm start traffic)
    (kept : traffic.keeper.session.record = some record)
    (asked : traffic.refreshes = start.askedBy record lost ++ [(index, record.refreshToken)])
    (hcaller : traffic.Newcomer start.calls.length index caller)
    (stage : caller.stage.asks? = some record.refreshToken ∨
      ∃ outcome, caller.stage.brings? = some outcome ∧ Replied past now index outcome)
    (callers : ∀ other held, traffic.Newcomer start.calls.length other held → index ≠ other →
      held.stage.UpTo start.keeper.generation ∨ held.stage = .broken)
    (hstale : record.isFresh now Record.safetyMargin = false)
    (hevent : traffic.event? store caller.stage.wait input = some (disk, event))
    (hgoes : (caller.stage.step now traffic.keeper event).2 ≠ .broken) :
    Phase start record now (past ++ [⟨now, .advance index input⟩])
      (traffic.put index caller disk (caller.stage.step now traffic.keeper event)) lost := by
  have hleads := leads_of_event? now hevent
  have hsettling : caller.stage.settling? = none := by
    rcases stage with hasks | ⟨outcome, hbrings, -⟩
    · exact (Stage.settling?_of_asks hasks).1
    · exact (Stage.asks?_of_brings hbrings).2.1
  have hcalm := calm.trans (calm_put now index hevent hsettling)
  have hothers : ∀ other held, (traffic.put index caller disk
      (caller.stage.step now traffic.keeper event)).Newcomer start.calls.length other held →
      index ≠ other → held.stage.UpTo start.keeper.generation ∨ held.stage = .broken := by
    intro other held hheld hne
    rcases newcomer_put hcaller.here hheld with ⟨heq, -⟩ | ⟨-, hheld⟩
    · exact (hne heq).elim
    · exact callers other held hheld hne
  -- Either way the reply is known: what is left is whether the session has the outcome.
  have hnext : ∃ outcome, Replied (past ++ [⟨now, .advance index input⟩]) now index outcome ∧
      (((caller.stage.step now traffic.keeper event).2.brings? = some outcome ∧
        caller.stage.write traffic.keeper.session = traffic.keeper.session) ∨
      ((caller.stage.step now traffic.keeper event).2 = .refreshed outcome ∧
        (caller.stage.write traffic.keeper.session).Agrees now outcome)) := by
    rcases stage with hasks | ⟨outcome, hbrings, hreplied⟩
    · obtain ⟨reply, rfl, hnext⟩ := hleads.of_asks hasks
      cases input_of_reply hevent
      refine ⟨reply.outcome, ⟨reply, by simp, rfl⟩, ?_⟩
      rw [Stage.write_of_asks hasks]
      rcases hnext with hbrings | hrefreshed | ⟨hbroken, -⟩
      · exact .inl ⟨hbrings, rfl⟩
      · exact .inr ⟨hrefreshed, Session.agrees_of_stale kept hstale _⟩
      · exact (hgoes hbroken).elim
    · exact ⟨outcome, hreplied.later _, hleads.of_brings hbrings⟩
  obtain ⟨outcome, hreplied, ⟨hbrings, hwrite⟩ | ⟨hrefreshed, hagrees⟩⟩ := hnext
  · refine .asking index _ hcalm ?_ ?_ (hcaller.put_self _ _) (.inr ⟨outcome, hbrings, hreplied⟩)
      hothers
    · rw [session_put now index hevent, hwrite, kept]
    · rw [refreshes_put, (Stage.asks?_of_brings hbrings).1, asked]
      exact List.append_nil _
  · refine .answered index _ outcome hcalm ?_ ?_ (hcaller.put_self _ _) hrefreshed hreplied ?_
    · rw [session_put now index hevent]
      exact hagrees
    · rw [refreshes_put, hrefreshed, asked]
      exact List.append_nil _
    · intro other held hheld hne
      exact (hothers other held hheld hne).imp_right .inr

/-- Whoever goes on beside the one who asked waits. -/
theorem Phase.step_beside_asking {asking : Nat} (hguarded : traffic.Guarded)
    (calm : Calm start traffic) (kept : traffic.keeper.session.record = some record)
    (asked : traffic.refreshes = start.askedBy record lost ++ [(asking, record.refreshToken)])
    (hasker : traffic.Newcomer start.calls.length asking asker)
    (stage : asker.stage.asks? = some record.refreshToken ∨
      ∃ outcome, asker.stage.brings? = some outcome ∧ Replied past now asking outcome)
    (callers : ∀ other held, traffic.Newcomer start.calls.length other held → asking ≠ other →
      held.stage.UpTo start.keeper.generation ∨ held.stage = .broken)
    (hstale : record.isFresh now Record.safetyMargin = false)
    (hcaller : traffic.Newcomer start.calls.length index caller) (hne : asking ≠ index)
    (hof : caller.stage.Of .token) (later : List Moment)
    (hevent : traffic.event? store caller.stage.wait input = some (disk, event)) :
    Phase start record now (past ++ later)
      (traffic.put index caller disk (caller.stage.step now traffic.keeper event)) lost := by
  have hin : asker.stage.inside = true := by
    rcases stage with hasks | ⟨outcome, hbrings, -⟩
    · exact (Stage.settling?_of_asks hasks).2
    · exact (Stage.asks?_of_brings hbrings).2.2
  have hup := (callers index caller hcaller hne).resolve_right
    (leads_of_event? now hevent).not_broken
  obtain ⟨hsession, hnext | ⟨outcome, hgiven, -⟩⟩ := hcaller.of_upTo now hguarded hasker.here hin
    hne (calm.generation ▸ hup) hof hevent
  · rw [calm.generation] at hnext
    refine .asking asking asker
      (calm.trans (calm_put now index hevent (Stage.settling?_of_upTo hup)))
      (hsession ▸ kept) ?_ (hasker.put_of_ne (Ne.symm hne) _ _ _) ?_ ?_
    · rw [refreshes_put, Stage.asks?_of_upTo hnext, asked]
      exact List.append_nil _
    · rcases stage with hasks | ⟨outcome, hbrings, hreplied⟩
      · exact .inl hasks
      · exact .inr ⟨outcome, hbrings, hreplied.later _⟩
    · intro other held hheld hother
      rcases newcomer_put hcaller.here hheld with ⟨rfl, rfl⟩ | ⟨-, hheld⟩
      · exact .inl hnext
      · exact callers other held hheld hother
  · rw [Session.gives?_of_stale kept hstale] at hgiven
    cases hgiven

/-- The one who has the outcome settles it, once everyone else has seen the generation. -/
theorem Phase.step_answered (past : List Moment) (calm : Calm start traffic)
    (agrees : traffic.keeper.session.Agrees now outcome)
    (asked : traffic.refreshes = start.askedBy record lost ++ [(index, record.refreshToken)])
    (hcaller : traffic.Newcomer start.calls.length index caller)
    (stage : caller.stage = .refreshed outcome) (replied : Replied past now index outcome)
    (callers : ∀ other held, traffic.Newcomer start.calls.length other held → index ≠ other →
      held.stage.UpTo start.keeper.generation ∨ held.stage = .over (.ofRefresh outcome) ∨
        held.stage = .broken)
    (hcounted : ∀ other held, traffic.Newcomer start.calls.length other held →
      held.stage.early = false)
    (hevent : traffic.event? store caller.stage.wait input = some (disk, event)) :
    Phase start record now past
      (traffic.put index caller disk (caller.stage.step now traffic.keeper event)) lost := by
  have hnext := (leads_of_event? now hevent).of_refreshing stage
  have hsettling := Stage.settling?_eq_some.2 stage
  have hkeeper := Stage.keeper_step now traffic.keeper (admits_of_event? hevent).1
  rw [hsettling] at hkeeper
  have hasker := hcaller.put_self disk (caller.stage.step now traffic.keeper event)
  rw [hnext, hcaller.token] at hasker
  refine .settled index outcome ?_ ?_ ?_ ?_ ?_ hasker replied ?_
  · show (caller.stage.step now traffic.keeper event).1.generation = _
    rw [hkeeper, ← calm.generation]
    rfl
  · show (caller.stage.step now traffic.keeper event).1.lastRefresh = _
    rw [hkeeper]
    rfl
  · rw [← calm.settled]
    simp [put, hsettling]
  · rw [session_put now index hevent, stage]
    exact agrees
  · rw [refreshes_put, hnext, asked]
    exact List.append_nil _
  · intro other held hheld
    rcases newcomer_put hcaller.here hheld with ⟨rfl, rfl⟩ | ⟨hne, hheld⟩
    · exact .inr (.inl hnext)
    · rcases callers other held hheld hne with (hearly | hseen) | hended
      · rw [hcounted other held hheld] at hearly
        cases hearly
      · exact .inl hseen
      · exact .inr hended

/-- Whoever goes on beside the one who has the outcome waits, or finds it in the session. -/
theorem Phase.step_beside_answered {asking : Nat} (past : List Moment) (hguarded : traffic.Guarded)
    (calm : Calm start traffic) (agrees : traffic.keeper.session.Agrees now outcome)
    (asked : traffic.refreshes = start.askedBy record lost ++ [(asking, record.refreshToken)])
    (hasker : traffic.Newcomer start.calls.length asking asker)
    (stage : asker.stage = .refreshed outcome) (replied : Replied past now asking outcome)
    (callers : ∀ other held, traffic.Newcomer start.calls.length other held → asking ≠ other →
      held.stage.UpTo start.keeper.generation ∨ held.stage = .over (.ofRefresh outcome) ∨
        held.stage = .broken)
    (hcaller : traffic.Newcomer start.calls.length index caller) (hne : asking ≠ index)
    (hof : caller.stage.Of .token)
    (hevent : traffic.event? store caller.stage.wait input = some (disk, event)) :
    Phase start record now past
      (traffic.put index caller disk (caller.stage.step now traffic.keeper event)) lost := by
  have hin : asker.stage.inside = true := by
    rw [stage]
    rfl
  have hup := (leads_of_event? now hevent).resolve (callers index caller hcaller hne)
  obtain ⟨hsession, hnext⟩ := hcaller.of_upTo now hguarded hasker.here hin hne
    (calm.generation ▸ hup) hof hevent
  have hnext : (caller.stage.step now traffic.keeper event).2.UpTo start.keeper.generation ∨
      (caller.stage.step now traffic.keeper event).2 = .over (.ofRefresh outcome) := by
    rcases hnext with hnext | ⟨given, hgiven, hnext⟩
    · exact .inl (calm.generation ▸ hnext)
    · exact .inr (agrees given hgiven ▸ hnext)
  refine .answered asking asker outcome
    (calm.trans (calm_put now index hevent (Stage.settling?_of_upTo hup)))
    (hsession ▸ agrees) ?_ (hasker.put_of_ne (Ne.symm hne) _ _ _) stage replied ?_
  · rw [refreshes_put, ← asked]
    rcases hnext with hnext | hnext
    · rw [Stage.asks?_of_upTo hnext]
      exact List.append_nil _
    · rw [hnext]
      exact List.append_nil _
  · intro other held hheld hother
    rcases newcomer_put hcaller.here hheld with ⟨rfl, rfl⟩ | ⟨-, hheld⟩
    · exact hnext.imp_right .inl
    · exact callers other held hheld hother

/-- Whoever comes after it is settled gets the outcome. -/
theorem Phase.step_settled {refreshed : Nat}
    (generation : traffic.keeper.generation = start.keeper.generation + 1)
    (last : traffic.keeper.lastRefresh = some outcome)
    (settled : traffic.settled = start.settled ++ [(refreshed, outcome)])
    (agrees : traffic.keeper.session.Agrees now outcome)
    (asked : traffic.refreshes = start.askedBy record lost ++ [(refreshed, record.refreshToken)])
    (asker : traffic.Newcomer start.calls.length refreshed ⟨.token, .over (.ofRefresh outcome)⟩)
    (replied : Replied past now refreshed outcome)
    (callers : ∀ other held, traffic.Newcomer start.calls.length other held →
      held.stage.seen? = some start.keeper.generation ∨
        held.stage = .over (.ofRefresh outcome) ∨ held.stage = .broken)
    (hcaller : traffic.Newcomer start.calls.length index caller)
    (hevent : traffic.event? store caller.stage.wait input = some (disk, event)) :
    Phase start record now past
      (traffic.put index caller disk (caller.stage.step now traffic.keeper event)) lost := by
  have hleads := leads_of_event? now hevent
  have hseen := hleads.resolve (callers index caller hcaller)
  have hcalm := calm_put now index hevent
    (Stage.settling?_of_upTo (.inr hseen : caller.stage.UpTo start.keeper.generation))
  have hnext : (caller.stage.step now traffic.keeper event).2.seen? =
      some start.keeper.generation ∨
      (caller.stage.step now traffic.keeper event).2 = .over (.ofRefresh outcome) := by
    rcases hleads.of_seen hseen with hnext | ⟨given, hgiven, hnext⟩ |
      ⟨-, held, -, ⟨shared, -, hshared, hnext⟩ | ⟨hfirst | hfirst, -⟩⟩
    · exact .inl hnext
    · exact .inr (agrees given hgiven ▸ hnext)
    · rw [last] at hshared
      cases hshared
      exact .inr hnext
    · rw [generation] at hfirst
      simp at hfirst
    · rw [last] at hfirst
      cases hfirst
  have hne : index ≠ refreshed := by
    rintro rfl
    rw [Option.some.inj (hcaller.here.symm.trans asker.here)] at hseen
    cases hseen
  refine .settled refreshed outcome (hcalm.generation.trans generation) (hcalm.last.trans last)
    (hcalm.settled.trans settled) ?_ ?_ (asker.put_of_ne hne _ _ _) replied ?_
  · rw [session_put now index hevent, Stage.write_of_seen hseen]
    exact agrees
  · rw [refreshes_put, ← asked]
    rcases hnext with hnext | hnext
    · rw [Stage.asks?_of_upTo (.inr hnext : Stage.UpTo start.keeper.generation _)]
      exact List.append_nil _
    · rw [hnext]
      exact List.append_nil _
  · intro other held hheld
    rcases newcomer_put hcaller.here hheld with ⟨rfl, rfl⟩ | ⟨-, hheld⟩
    · exact hnext.imp_right .inl
    · exact callers other held hheld

end Steps

end Traffic

end Credential

end ChatGateway
