import ChatGateway.Credential.Traffic

/-!
# What one step of a call does

A step of a call changes the session only where the call's stage writes to it, the gate only
where the call goes in or out, and the count of refreshes only where a refresh is settled.
A call has only so many steps to go.
-/

namespace ChatGateway

namespace Credential

/-- The event is of the kind that a call waits for. -/
def Wait.Admits : Wait -> Event -> Prop
  | .turn, .turn | .gate, .turn => True
  | .reply _, .reply _ => True
  | .save _, .stored _ | .clear, .stored _ => True
  | _, _ => False

namespace Grant

theorem expiry?_eq_some {grant : Grant} {now expiresAt : UInt64} :
    grant.expiry? now = some expiresAt ↔
      now.toNat + max grant.expiresIn.toNat 1 < UInt64.size ∧
        now + max grant.expiresIn 1 = expiresAt := by
  simp [expiry?]

theorem expiry?_eq_none {grant : Grant} {now : UInt64} :
    grant.expiry? now = none ↔ UInt64.size ≤ now.toNat + max grant.expiresIn.toNat 1 := by
  simp [expiry?]

theorem toRecord_eq_ok {grant : Grant} {used : Option String} {now : UInt64} {record : Record} :
    grant.toRecord used now = some (.ok record) ↔
      ∃ refreshToken expiresAt, (grant.refreshToken <|> used) = some refreshToken ∧
        grant.expiry? now = some expiresAt ∧
        record = ⟨grant.accessToken, refreshToken, grant.tokenType.getD defaultTokenType,
          expiresAt⟩ := by
  rw [toRecord]
  cases grant.refreshToken <|> used with
  | none => simp
  | some refreshToken => simp [Option.map_eq_some_iff, eq_comm (a := record)]

/-- A grant that answers a refresh names a refresh token, if only by the one that was used. -/
theorem toRecord_some (grant : Grant) (used : String) (now : UInt64) :
    (grant.expiry? now = none ∧ grant.toRecord (some used) now = none) ∨
    ∃ record, grant.toRecord (some used) now = some (.ok record) ∧
      record.accessToken = grant.accessToken ∧ grant.expiry? now = some record.expiresAt := by
  have hsome : ∃ refreshToken, (grant.refreshToken <|> some used) = some refreshToken := by
    cases grant.refreshToken <;> exact ⟨_, rfl⟩
  obtain ⟨refreshToken, htoken⟩ := hsome
  cases hexpiry : grant.expiry? now with
  | none => exact .inl ⟨rfl, by simp [toRecord, htoken, hexpiry]⟩
  | some expiresAt =>
      exact .inr ⟨_, toRecord_eq_ok.2 ⟨refreshToken, expiresAt, htoken, hexpiry, rfl⟩, rfl, rfl⟩

theorem expiry?_of_toRecord {grant : Grant} {used : String} {now : UInt64}
    (h : grant.toRecord (some used) now = none) : grant.expiry? now = none := by
  rcases grant.toRecord_some used now with ⟨hexpiry, -⟩ | ⟨record, hmade, -, -⟩
  · exact hexpiry
  · rw [h] at hmade
    cases hmade

end Grant

namespace Stage

/-- A call at this stage holds the gate. -/
def inside : Stage -> Bool
  | .rechecking _ _ | .exchangeStoring _ | .exchangeStored _ => true
  | .retrying | .retryStoring _ | .retryStored _ => true
  | .refreshDeciding _ | .refreshing _ | .refreshStoring _ | .refreshStored _ _ => true
  | .refreshClearing _ | .refreshCleared _ | .refreshed _ => true
  | .logoutClearing | .logoutCleared => true
  | _ => false

/-- What a call does to the session as it leaves this stage. -/
def write : Stage -> Session -> Session
  | .starting flow, session => session.begin flow
  | .exchangeStored record, session => session.adopt record
  | .retryStored stored, session => session.persisted stored
  | .refreshStored record stored, session => session.renew record stored
  | .refreshCleared reason, session => session.reject reason
  | .logoutCleared, _ => .empty
  | _, session => session

/-- A bound on the steps that a call has to go. -/
def rank : Stage -> Nat
  | .requesting => 15
  | .retryWaiting => 14
  | .retrying => 13
  | .retryStoring _ => 12
  | .retryStored _ => 11
  | .counting => 10
  | .looking _ => 9
  | .refreshWaiting _ => 8
  | .refreshDeciding _ => 7
  | .refreshing _ => 6
  | .refreshStoring _ | .refreshClearing _ => 5
  | .refreshStored _ _ | .refreshCleared _ => 4
  | .refreshed _ => 3
  | .completing _ => 6
  | .exchanging _ _ => 5
  | .exchanged _ _ => 4
  | .rechecking _ _ => 3
  | .exchangeStoring _ => 2
  | .exchangeStored _ => 1
  | .logoutWaiting => 3
  | .logoutClearing => 2
  | .logoutCleared => 1
  | .starting _ => 1
  | .over _ | .broken => 0

/-! ## The parts of a step -/

theorem complete_cases (keeper : Keeper) (pasted : String) :
    (∃ failure, complete keeper pasted = refuse keeper failure) ∨
    ∃ read flow, Pasted.read pasted = .ok read ∧ keeper.session.pending = some flow ∧
      read.state = flow.state ∧ complete keeper pasted = (keeper, .exchanging flow read.code) := by
  rw [complete]
  cases hread : Pasted.read pasted with
  | error failure => exact .inl ⟨failure, rfl⟩
  | ok read =>
      cases hpending : keeper.session.pending with
      | none => exact .inl ⟨_, rfl⟩
      | some flow =>
          by_cases hstate : read.state = flow.state
          · exact .inr ⟨read, flow, rfl, rfl, hstate, by simp [hstate]⟩
          · exact .inl ⟨mismatch, by simp [hstate]⟩

theorem exchange_cases (now : UInt64) (keeper : Keeper) (flow : Flow) (reply : TokenReply) :
    (∃ failure, exchange now keeper flow reply = refuse keeper failure) ∨
    (∃ grant record, reply = .granted grant ∧ grant.toRecord none now = some (.ok record) ∧
      exchange now keeper flow reply = (keeper, .exchanged flow record)) ∨
    ∃ grant, reply = .granted grant ∧ grant.toRecord none now = none ∧
      exchange now keeper flow reply = (keeper, .broken) := by
  cases reply with
  | rejected status body => exact .inl ⟨_, rfl⟩
  | failed failure => exact .inl ⟨_, rfl⟩
  | granted grant =>
      rw [exchange]
      cases hmade : grant.toRecord none now with
      | none => exact .inr (.inr ⟨grant, rfl, hmade, rfl⟩)
      | some made =>
          cases made with
          | error failure => exact .inl ⟨_, rfl⟩
          | ok record => exact .inr (.inl ⟨grant, record, rfl, hmade, rfl⟩)

theorem recheck_cases (keeper : Keeper) (flow : Flow) (record : Record) :
    recheck keeper flow record = leave keeper (.refused restarted) ∨
    ∃ pending, keeper.session.pending = some pending ∧ pending.state = flow.state ∧
      recheck keeper flow record = (keeper, .exchangeStoring record) := by
  rw [recheck]
  split
  next h =>
    obtain ⟨pending, hpending, hstate⟩ := Option.map_eq_some_iff.1 h
    exact .inr ⟨pending, hpending, hstate, rfl⟩
  next => exact .inl rfl

theorem retry_cases (keeper : Keeper) :
    retry keeper = (keeper.release, .counting) ∨
    ∃ reason record, keeper.session.persistFailure = some reason ∧
      keeper.session.record = some record ∧ retry keeper = (keeper, .retryStoring record) := by
  rw [retry]
  cases hreason : keeper.session.persistFailure with
  | none => exact .inl rfl
  | some reason =>
      cases hrecord : keeper.session.record with
      | none => exact .inl rfl
      | some record => exact .inr ⟨reason, record, rfl, rfl, rfl⟩

theorem look_cases (now : UInt64) (keeper : Keeper) (seen : UInt64) :
    (∃ record, keeper.session.record = some record ∧
      record.isFresh now Record.safetyMargin = true ∧
      look now keeper seen = (keeper, .over (.token record.accessToken))) ∨
    (keeper.session.record = none ∧ look now keeper seen = refuse keeper keeper.session.missing) ∨
    ∃ record, keeper.session.record = some record ∧
      record.isFresh now Record.safetyMargin = false ∧
      look now keeper seen = (keeper, .refreshWaiting seen) := by
  rw [look, Session.supply]
  cases hrecord : keeper.session.record with
  | none => exact .inr (.inl ⟨rfl, rfl⟩)
  | some record =>
      cases hfresh : record.isFresh now Record.safetyMargin with
      | true => exact .inl ⟨record, rfl, hfresh, by simp [hfresh]⟩
      | false => exact .inr (.inr ⟨record, rfl, hfresh, by simp [hfresh]⟩)

theorem decide_cases (now : UInt64) (keeper : Keeper) (seen : UInt64) :
    (∃ record, keeper.session.record = some record ∧
      record.isFresh now Record.safetyMargin = true ∧
      decide now keeper seen = leave keeper (.token record.accessToken)) ∨
    (keeper.session.record = none ∧
      decide now keeper seen = leave keeper (.refused keeper.session.missing)) ∨
    ∃ record, keeper.session.record = some record ∧
      record.isFresh now Record.safetyMargin = false ∧
      ((∃ outcome, keeper.generation ≠ seen ∧ keeper.lastRefresh = some outcome ∧
        decide now keeper seen = leave keeper (.ofRefresh outcome)) ∨
      ((keeper.generation = seen ∨ keeper.lastRefresh = none) ∧
        decide now keeper seen = (keeper, .refreshing record.refreshToken))) := by
  rw [decide, Session.supply]
  cases hrecord : keeper.session.record with
  | none => exact .inr (.inl ⟨rfl, rfl⟩)
  | some record =>
      cases hfresh : record.isFresh now Record.safetyMargin with
      | true => exact .inl ⟨record, rfl, hfresh, by simp [hfresh]⟩
      | false =>
          refine .inr (.inr ⟨record, rfl, hfresh, ?_⟩)
          by_cases hseen : keeper.generation = seen
          · exact .inr ⟨.inl hseen, by simp [hfresh, hseen]⟩
          · cases hlast : keeper.lastRefresh with
            | none => exact .inr ⟨.inr rfl, by simp [hfresh]⟩
            | some outcome => exact .inl ⟨outcome, hseen, rfl, by simp [hfresh, hseen]⟩

/-- What a refresh brings about, by what the endpoint replies to it. -/
theorem refresh_cases (now : UInt64) (keeper : Keeper) (used : String) (reply : TokenReply) :
    (∃ status body, reply = .rejected status body ∧
      refresh now keeper used reply =
        (keeper, .refreshClearing (TokenReply.rejection status body))) ∨
    (∃ failure, reply = .failed failure ∧
      refresh now keeper used reply = (keeper, .refreshed (.error failure))) ∨
    (∃ grant record, reply = .granted grant ∧ grant.toRecord (some used) now = some (.ok record) ∧
      refresh now keeper used reply = (keeper, .refreshStoring record)) ∨
    ∃ grant, reply = .granted grant ∧ grant.toRecord (some used) now = none ∧
      refresh now keeper used reply = (keeper.release, .broken) := by
  cases reply with
  | rejected status body => exact .inl ⟨status, body, rfl, rfl⟩
  | failed failure => exact .inr (.inl ⟨failure, rfl, rfl⟩)
  | granted grant =>
      rcases grant.toRecord_some used now with ⟨-, hmade⟩ | ⟨record, hmade, -, -⟩
      · exact .inr (.inr (.inr ⟨grant, rfl, hmade, by rw [refresh, hmade]⟩))
      · exact .inr (.inr (.inl ⟨grant, record, rfl, hmade, by rw [refresh, hmade]⟩))

/-! ## A whole step -/

variable {now : UInt64} {keeper : Keeper} {stage : Stage} {event : Event}

/-- What a step does to the keeper: the gate closes as a call goes in, and opens as it goes out. -/
theorem keeper_step (now : UInt64) (keeper : Keeper) (h : stage.wait.Admits event) :
    (stage.step now keeper event).1 = {
      session := stage.write keeper.session
      gate :=
        if (stage.step now keeper event).2.inside = stage.inside then keeper.gate
        else (stage.step now keeper event).2.inside
      lastRefresh := stage.settling?.or keeper.lastRefresh
      generation :=
        if stage.settling?.isSome then keeper.generation + 1 else keeper.generation } := by
  cases stage <;> cases event <;> try exact h.elim
  -- Only where a step has to choose is there a case to split.
  case completing.turn pasted =>
    rcases complete_cases keeper pasted with ⟨failure, heq⟩ | ⟨read, flow, -, -, -, heq⟩ <;>
      simp [step, heq, refuse, inside, write, settling?]
  case exchanging.reply flow code reply =>
    rcases exchange_cases now keeper flow reply with ⟨failure, heq⟩ |
      ⟨grant, record, -, -, heq⟩ | ⟨grant, -, -, heq⟩ <;>
      simp [step, heq, refuse, inside, write, settling?]
  case rechecking.turn flow record =>
    rcases recheck_cases keeper flow record with heq | ⟨pending, -, -, heq⟩ <;>
      simp [step, heq, leave, Keeper.release, inside, write, settling?]
  case exchangeStoring.stored record stored =>
    cases stored <;> simp [step, leave, Keeper.release, inside, write, settling?]
  case requesting.turn =>
    cases hfailure : keeper.session.persistFailure <;>
      simp [step, hfailure, inside, write, settling?]
  case retrying.turn =>
    rcases retry_cases keeper with heq | ⟨reason, record, -, -, heq⟩ <;>
      simp [step, heq, Keeper.release, inside, write, settling?]
  case looking.turn seen =>
    rcases look_cases now keeper seen with ⟨record, -, -, heq⟩ | ⟨-, heq⟩ | ⟨record, -, -, heq⟩ <;>
      simp [step, heq, refuse, inside, write, settling?]
  case refreshDeciding.turn seen =>
    rcases decide_cases now keeper seen with ⟨record, -, -, heq⟩ | ⟨-, heq⟩ |
      ⟨record, -, -, ⟨outcome, -, -, heq⟩ | ⟨-, heq⟩⟩ <;>
      simp [step, heq, leave, Keeper.release, inside, write, settling?]
  case refreshing.reply used reply =>
    rcases refresh_cases now keeper used reply with ⟨status, body, -, heq⟩ | ⟨failure, -, heq⟩ |
      ⟨grant, record, -, -, heq⟩ | ⟨grant, -, -, heq⟩ <;>
      simp [step, heq, Keeper.release, inside, write, settling?]
  case logoutClearing.stored stored =>
    cases stored <;> simp [step, leave, Keeper.release, inside, write, settling?]
  all_goals
    simp [step, leave, Keeper.release, Keeper.withSession, Keeper.settle, inside, write, settling?]

/-- Where one step leads, with what the step found. -/
inductive Leads (now : UInt64) (keeper : Keeper) : Stage -> Event -> Stage -> Prop
  | start {flow} : Leads now keeper (.starting flow) .turn (.over (.started flow))
  | refusePasted {pasted failure} :
      Leads now keeper (.completing pasted) .turn (.over (.refused failure))
  | exchange {pasted read flow} :
      Pasted.read pasted = .ok read → keeper.session.pending = some flow →
      read.state = flow.state →
      Leads now keeper (.completing pasted) .turn (.exchanging flow read.code)
  | refuseExchange {flow code reply failure} :
      Leads now keeper (.exchanging flow code) (.reply reply) (.over (.refused failure))
  | exchanged {flow code grant record} :
      grant.toRecord none now = some (.ok record) →
      Leads now keeper (.exchanging flow code) (.reply (.granted grant)) (.exchanged flow record)
  | breakExchange {flow code grant} :
      grant.toRecord none now = none →
      Leads now keeper (.exchanging flow code) (.reply (.granted grant)) .broken
  | enterExchange {flow record} :
      Leads now keeper (.exchanged flow record) .turn (.rechecking flow record)
  | refuseRestarted {flow record} :
      Leads now keeper (.rechecking flow record) .turn (.over (.refused restarted))
  | recheck {flow record pending} :
      keeper.session.pending = some pending → pending.state = flow.state →
      Leads now keeper (.rechecking flow record) .turn (.exchangeStoring record)
  | storeExchange {record done} :
      Leads now keeper (.exchangeStoring record) (.stored (.ok done)) (.exchangeStored record)
  | refuseUnstored {record failure} :
      Leads now keeper (.exchangeStoring record) (.stored (.error failure))
        (.over (.refused failure))
  | complete {record} :
      Leads now keeper (.exchangeStored record) .turn (.over (.completed record))
  | retryFirst {reason} :
      keeper.session.persistFailure = some reason →
      Leads now keeper .requesting .turn .retryWaiting
  | countFirst :
      keeper.session.persistFailure = none → Leads now keeper .requesting .turn .counting
  | enterRetry : Leads now keeper .retryWaiting .turn .retrying
  | skipRetry : Leads now keeper .retrying .turn .counting
  | retry {record} :
      keeper.session.record = some record →
      Leads now keeper .retrying .turn (.retryStoring record)
  | storeRetry {record stored} :
      Leads now keeper (.retryStoring record) (.stored stored) (.retryStored stored)
  | retried {stored} : Leads now keeper (.retryStored stored) .turn .counting
  | count : Leads now keeper .counting .turn (.looking keeper.generation)
  | lookFresh {seen record} :
      keeper.session.record = some record → record.isFresh now Record.safetyMargin = true →
      Leads now keeper (.looking seen) .turn (.over (.token record.accessToken))
  | lookAbsent {seen} :
      keeper.session.record = none →
      Leads now keeper (.looking seen) .turn (.over (.refused keeper.session.missing))
  | lookStale {seen record} :
      keeper.session.record = some record → record.isFresh now Record.safetyMargin = false →
      Leads now keeper (.looking seen) .turn (.refreshWaiting seen)
  | enterRefresh {seen} :
      Leads now keeper (.refreshWaiting seen) .turn (.refreshDeciding seen)
  | decideFresh {seen record} :
      keeper.session.record = some record → record.isFresh now Record.safetyMargin = true →
      Leads now keeper (.refreshDeciding seen) .turn (.over (.token record.accessToken))
  | decideAbsent {seen} :
      keeper.session.record = none →
      Leads now keeper (.refreshDeciding seen) .turn (.over (.refused keeper.session.missing))
  | share {seen record outcome} :
      keeper.session.record = some record → record.isFresh now Record.safetyMargin = false →
      keeper.generation ≠ seen → keeper.lastRefresh = some outcome →
      Leads now keeper (.refreshDeciding seen) .turn (.over (.ofRefresh outcome))
  | refresh {seen record} :
      keeper.session.record = some record → record.isFresh now Record.safetyMargin = false →
      keeper.generation = seen ∨ keeper.lastRefresh = none →
      Leads now keeper (.refreshDeciding seen) .turn (.refreshing record.refreshToken)
  | reject {used status body} :
      Leads now keeper (.refreshing used) (.reply (.rejected status body))
        (.refreshClearing (TokenReply.rejection status body))
  | fail {used failure} :
      Leads now keeper (.refreshing used) (.reply (.failed failure)) (.refreshed (.error failure))
  | grant {used grant record} :
      grant.toRecord (some used) now = some (.ok record) →
      Leads now keeper (.refreshing used) (.reply (.granted grant)) (.refreshStoring record)
  | breakRefresh {used grant} :
      grant.toRecord (some used) now = none →
      Leads now keeper (.refreshing used) (.reply (.granted grant)) .broken
  | storeRefresh {record stored} :
      Leads now keeper (.refreshStoring record) (.stored stored) (.refreshStored record stored)
  | renew {record stored} :
      Leads now keeper (.refreshStored record stored) .turn (.refreshed (.ok record.accessToken))
  | clearRefresh {reason stored} :
      Leads now keeper (.refreshClearing reason) (.stored stored) (.refreshCleared reason)
  | endSession {reason} :
      Leads now keeper (.refreshCleared reason) .turn
        (.refreshed (.error (.refreshFailed reason)))
  | settle {outcome} :
      Leads now keeper (.refreshed outcome) .turn (.over (.ofRefresh outcome))
  | enterLogout : Leads now keeper .logoutWaiting .turn .logoutClearing
  | clearLogout {done} : Leads now keeper .logoutClearing (.stored (.ok done)) .logoutCleared
  | refuseUncleared {failure} :
      Leads now keeper .logoutClearing (.stored (.error failure)) (.over (.refused failure))
  | logout : Leads now keeper .logoutCleared .turn (.over .loggedOut)

theorem leads_step (h : stage.wait.Admits event) :
    Leads now keeper stage event (stage.step now keeper event).2 := by
  cases stage <;> cases event <;> try exact h.elim
  case completing.turn pasted =>
    rcases complete_cases keeper pasted with
      ⟨failure, heq⟩ | ⟨read, flow, hread, hpending, hstate, heq⟩
    · simpa [step, heq, refuse] using .refusePasted
    · simpa [step, heq] using .exchange hread hpending hstate
  case exchanging.reply flow code reply =>
    rcases exchange_cases now keeper flow reply with
      ⟨failure, heq⟩ | ⟨grant, record, rfl, hrecord, heq⟩ | ⟨grant, rfl, hnone, heq⟩
    · simpa [step, heq, refuse] using .refuseExchange
    · simpa [step, heq] using .exchanged hrecord
    · simpa [step, heq] using .breakExchange hnone
  case rechecking.turn flow record =>
    rcases recheck_cases keeper flow record with heq | ⟨pending, hpending, hstate, heq⟩
    · simpa [step, heq, leave] using .refuseRestarted
    · simpa [step, heq] using .recheck hpending hstate
  case exchangeStoring.stored record stored =>
    cases stored with
    | error failure => exact .refuseUnstored
    | ok done => exact .storeExchange
  case requesting.turn =>
    cases hfailure : keeper.session.persistFailure with
    | none => simpa [step, hfailure] using .countFirst hfailure
    | some reason => simpa [step, hfailure] using .retryFirst hfailure
  case retrying.turn =>
    rcases retry_cases keeper with heq | ⟨reason, record, -, hrecord, heq⟩
    · simpa [step, heq] using .skipRetry
    · simpa [step, heq] using .retry hrecord
  case looking.turn seen =>
    rcases look_cases now keeper seen with
      ⟨record, hrecord, hfresh, heq⟩ | ⟨hrecord, heq⟩ | ⟨record, hrecord, hfresh, heq⟩
    · simpa [step, heq] using .lookFresh hrecord hfresh
    · simpa [step, heq, refuse] using .lookAbsent hrecord
    · simpa [step, heq] using .lookStale hrecord hfresh
  case refreshDeciding.turn seen =>
    rcases decide_cases now keeper seen with
      ⟨record, hrecord, hfresh, heq⟩ | ⟨hrecord, heq⟩ |
      ⟨record, hrecord, hfresh, ⟨outcome, hseen, hlast, heq⟩ | ⟨hseen, heq⟩⟩
    · simpa [step, heq, leave] using .decideFresh hrecord hfresh
    · simpa [step, heq, leave] using .decideAbsent hrecord
    · simpa [step, heq, leave] using .share hrecord hfresh hseen hlast
    · simpa [step, heq] using .refresh hrecord hfresh hseen
  case refreshing.reply used reply =>
    rcases refresh_cases now keeper used reply with
      ⟨status, body, rfl, heq⟩ | ⟨failure, rfl, heq⟩ | ⟨grant, record, rfl, hrecord, heq⟩ |
      ⟨grant, rfl, hnone, heq⟩
    · simpa [step, heq] using .reject
    · simpa [step, heq] using .fail
    · simpa [step, heq] using .grant hrecord
    · simpa [step, heq] using .breakRefresh hnone
  case logoutClearing.stored stored =>
    cases stored with
    | error failure => exact .refuseUncleared
    | ok done => exact .clearLogout
  all_goals constructor

/-- Every step brings a call closer to its end. -/
theorem Leads.rank_lt {next : Stage} (h : Leads now keeper stage event next) :
    next.rank < stage.rank := by
  cases h <;> simp [rank]

theorem Leads.wait_ne_none {next : Stage} (h : Leads now keeper stage event next) :
    stage.wait ≠ .none := by
  cases h <;> simp [wait]

/-- Only through the gate does a call come inside. -/
theorem Leads.wait_of_inside {next : Stage} (h : Leads now keeper stage event next)
    (hout : stage.inside = false) (hin : next.inside = true) : stage.wait = .gate := by
  cases h <;> simp_all [inside, wait]

/-- A call that is inside does not wait for the gate. -/
theorem wait_ne_gate_of_inside (h : stage.inside = true) : stage.wait ≠ .gate := by
  cases stage <;> simp_all [inside, wait]

theorem wait_ne_none_of_inside (h : stage.inside = true) : stage.wait ≠ .none := by
  cases stage <;> simp_all [inside, wait]

theorem settling?_eq_some {outcome : Except Failure String} :
    stage.settling? = some outcome ↔ stage = .refreshed outcome := by
  cases stage <;> simp [settling?]

/-- A call waits for nothing exactly when it is over or has broken off. -/
theorem wait_eq_none :
    stage.wait = .none ↔ (∃ answer, stage = .over answer) ∨ stage = .broken := by
  cases stage <;> simp [wait]

end Stage

end Credential

end ChatGateway
