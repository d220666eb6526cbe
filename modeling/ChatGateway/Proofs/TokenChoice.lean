import ChatGateway.Proofs.Visits

/-!
# Which token a call is given

The token that a visit is given depends on the record, on whether that could be stored, and on
the last refresh.  Two visits that find these alike, and are given the same, go the same way: only
what the store does to them and the reason for which they are refused may differ.  A visit that
starts a flow, or that completes none, leaves all of this alone.
-/

namespace ChatGateway

namespace Credential

/-- With the same record callers get the same, or they are refused. -/
theorem Session.supply_alike {session other : Session} (h : session.record = other.record)
    (now : UInt64) : session.supply now = other.supply now ∨
      ∃ failure reason, session.supply now = .absent failure ∧
        other.supply now = .absent reason := by
  rw [supply, supply, h]
  cases other.record with
  | none => exact .inr ⟨_, _, rfl, rfl⟩
  | some record => exact .inl rfl

namespace Stage

variable {now : UInt64} {keeper : Keeper} {stage next : Stage} {event : Event}

/-- A call at this stage has yet to look whether its record could be stored. -/
def retries : Stage -> Bool
  | .requesting | .retryWaiting | .retrying => true
  | _ => false

theorem Leads.retries (h : Leads now keeper stage event next) (hnext : next.retries = true) :
    stage.retries = true := by
  cases h <;> simp_all [Stage.retries]

theorem write_of_retries (h : stage.retries = true) (session : Session) :
    stage.write session = session := by
  cases stage <;> simp_all [retries, write]

/-- A call that begins or completes a flow changes no more than that, until it is completed. -/
theorem write_of_flow
    (hof : (∃ flow, stage.Of (.start flow)) ∨ ∃ pasted, stage.Of (.complete pasted))
    (hstored : ∀ record, stage ≠ .exchangeStored record) :
    stage.settling? = none ∧ ∀ session, (stage.write session).record = session.record ∧
      (stage.write session).persistFailure = session.persistFailure := by
  cases stage <;> simp_all [Of, settling?, write, Session.begin]

/-- Where a refresh goes on is settled by the endpoint's reply alone. -/
theorem refresh_stage (now : UInt64) (keeper other : Keeper) (used : String) (reply : TokenReply) :
    (refresh now keeper used reply).2 = (refresh now other used reply).2 := by
  cases reply with
  | rejected status body => rfl
  | failed failure => rfl
  | granted grant =>
      rw [refresh, refresh]
      rcases grant.toRecord_some used now with ⟨-, hmade⟩ | ⟨record, hmade, -, -⟩ <;> rw [hmade]

/-- Two stages from which calls for a token go the same way. -/
inductive Alike : Stage -> Stage -> Prop
  | same (stage : Stage) : Alike stage stage
  | retried {stored other : Except Failure Unit} :
      Alike (.retryStored stored) (.retryStored other)
  | refreshed {record : Record} {stored other : Except Failure Unit} :
      Alike (.refreshStored record stored) (.refreshStored record other)
  | refused {failure other : Failure} : Alike (.over (.refused failure)) (.over (.refused other))

variable {held : Stage}

theorem Alike.wait (h : stage.Alike held) : held.wait = stage.wait := by
  cases h <;> rfl

theorem Alike.inside (h : stage.Alike held) : held.inside = stage.inside := by
  cases h <;> rfl

theorem Alike.settling? (h : stage.Alike held) : held.settling? = stage.settling? := by
  cases h <;> rfl

theorem Alike.record_write {session other : Session} (h : stage.Alike held)
    (hrecord : session.record = other.record) :
    (stage.write session).record = (held.write other).record := by
  cases h with
  | same => cases stage <;> first | exact hrecord | rfl
  | retried => exact hrecord
  | refreshed => rfl
  | refused => exact hrecord

theorem Alike.eq_of_retries (h : stage.Alike held) (hretries : stage.retries = true) :
    held = stage := by
  cases h with
  | same => rfl
  | _ => cases hretries

theorem Alike.over_token {value : String} (h : (Stage.over (.token value)).Alike held) :
    held = .over (.token value) := by
  cases h
  rfl

end Stage

/-- Two events that differ at most in what the store did. -/
inductive Event.Alike : Event -> Event -> Prop
  | same (event : Event) : Alike event event
  | stored {outcome other : Except Failure Unit} : Alike (.stored outcome) (.stored other)

/-- Two calls for a token that go the same way, each with the keeper that it finds. -/
structure Beside (keeper : Keeper) (stage : Stage) (other : Keeper) (held : Stage) : Prop where
  alike : stage.Alike held
  record : keeper.session.record = other.session.record
  unstored : stage.retries = true →
    keeper.session.persistFailure.isSome = other.session.persistFailure.isSome
  last : keeper.lastRefresh = other.lastRefresh
  generation : keeper.generation = other.generation
  gate : keeper.gate = other.gate

namespace Beside

variable {now : UInt64} {keeper other : Keeper} {stage held : Stage} {event given : Event}

theorem retry_alike (h : Beside keeper .retrying other .retrying) :
    (Stage.retry keeper).2.Alike (Stage.retry other).2 := by
  have hunstored := h.unstored rfl
  rw [Stage.retry, Stage.retry, h.record]
  cases hfailure : keeper.session.persistFailure <;>
    cases hother : other.session.persistFailure <;> simp [hfailure, hother] at hunstored
  · exact .same _
  · cases other.session.record <;> exact .same _

theorem look_alike (h : Beside keeper stage other held) (now seen : UInt64) :
    (Stage.look now keeper seen).2.Alike (Stage.look now other seen).2 := by
  rw [Stage.look, Stage.look]
  rcases Session.supply_alike h.record now with hsame | ⟨failure, reason, hfirst, hsecond⟩
  · rw [hsame]
    cases other.session.supply now <;> exact .same _
  · rw [hfirst, hsecond]
    exact .refused

theorem decide_alike (h : Beside keeper stage other held) (now seen : UInt64) :
    (Stage.decide now keeper seen).2.Alike (Stage.decide now other seen).2 := by
  rw [Stage.decide, Stage.decide, h.last, h.generation]
  rcases Session.supply_alike h.record now with hsame | ⟨failure, reason, hfirst, hsecond⟩
  · rw [hsame]
    cases other.session.supply now with
    | fresh token => exact .same _
    | absent failure => exact .same _
    | stale record =>
        generalize (if other.generation = seen then none else other.lastRefresh) = shared
        cases shared <;> exact .same _
  · rw [hfirst, hsecond]
    exact .refused

/-- If both calls are at one stage and the same comes to them, only what they look at differs. -/
theorem step_alike_of_same (h : Beside keeper stage other stage) (now : UInt64)
    (hof : stage.Of .token) (event : Event) :
    (stage.step now keeper event).2.Alike (stage.step now other event).2 := by
  cases event with
  | turn =>
      cases stage with
      | requesting =>
          rw [Stage.step, Stage.step, h.unstored rfl]
          exact .same _
      | retrying => exact h.retry_alike
      | counting =>
          rw [Stage.step, Stage.step, h.generation]
          exact .same _
      | looking seen => exact h.look_alike now seen
      | refreshDeciding seen => exact h.decide_alike now seen
      | completing | rechecking => exact hof.elim
      | _ => exact .same _
  | reply reply =>
      cases stage with
      | exchanging => exact hof.elim
      | refreshing used =>
          rw [Stage.step, Stage.step, Stage.refresh_stage now keeper other used reply]
          exact .same _
      | _ => exact .same _
  | stored outcome =>
      cases stage with
      | exchangeStoring | logoutClearing => exact hof.elim
      | _ => exact .same _

/-- What the two calls come to is alike. -/
theorem step_alike (h : Beside keeper stage other held) (now : UInt64) (hof : stage.Of .token)
    (hadmits : stage.wait.Admits event) (hgiven : event.Alike given) :
    (stage.step now keeper event).2.Alike (held.step now other given).2 := by
  cases hgiven with
  | same =>
      cases h.alike with
      | same => exact h.step_alike_of_same now hof event
      | retried | refreshed => cases event <;> first | exact .same _ | exact hadmits.elim
      | refused => exact .refused
  | stored =>
      cases h.alike with
      | same =>
          cases stage with
          | retryStoring record => exact .retried
          | refreshStoring record => exact .refreshed
          | refreshClearing reason => exact .same _
          | exchangeStoring | logoutClearing => exact hof.elim
          | _ => exact hadmits.elim
      | _ => exact hadmits.elim

/-- Both calls go on beside each other. -/
theorem step (h : Beside keeper stage other held) (hof : stage.Of .token)
    (hadmits : stage.wait.Admits event) (hgiven : event.Alike given)
    (hsecond : held.wait.Admits given) :
    Beside (stage.step now keeper event).1 (stage.step now keeper event).2
      (held.step now other given).1 (held.step now other given).2 := by
  have halike := h.step_alike now hof hadmits hgiven
  have hnext := halike.inside
  refine ⟨halike, ?_, ?_, ?_, ?_, ?_⟩
  · rw [Stage.keeper_step now keeper hadmits, Stage.keeper_step now other hsecond]
    exact h.alike.record_write h.record
  · intro hretries
    have hbefore := (Stage.leads_step hadmits).retries hretries
    rw [Stage.keeper_step now keeper hadmits, Stage.keeper_step now other hsecond,
      h.alike.eq_of_retries hbefore]
    show (stage.write _).persistFailure.isSome = (stage.write _).persistFailure.isSome
    rw [Stage.write_of_retries hbefore, Stage.write_of_retries hbefore, h.unstored hbefore]
  · rw [Stage.keeper_step now keeper hadmits, Stage.keeper_step now other hsecond]
    show stage.settling?.or _ = held.settling?.or _
    rw [h.alike.settling?, h.last]
  · rw [Stage.keeper_step now keeper hadmits, Stage.keeper_step now other hsecond]
    show (if stage.settling?.isSome then _ else _) = if held.settling?.isSome then _ else _
    rw [h.alike.settling?, h.generation]
  · rw [Stage.keeper_step now keeper hadmits, Stage.keeper_step now other hsecond]
    show (if _ = stage.inside then _ else _) = if _ = held.inside then _ else _
    rw [h.alike.inside, hnext, h.gate]

end Beside

namespace Traffic

variable {store : Store} {disk after : Disk} {stored : Option Record} {traffic other next : Traffic}
  {stage held : Stage} {input : Input} {event : Event} {visits : List Visit} {visit : Visit}

/-- What is given to one of two calls beside each other can be given to the other. -/
theorem event?_beside (h : Beside traffic.keeper stage other.keeper held)
    (hevent : traffic.event? store stage.wait input = some (after, event)) :
    ∃ disk given, other.event? store held.wait input = some (disk, given) ∧ event.Alike given := by
  rw [h.alike.wait]
  cases hwait : stage.wait <;> rw [hwait] at hevent <;> cases input <;> try cases hevent
  case turn.turn => exact ⟨_, _, rfl, .same _⟩
  case reply.reply => exact ⟨_, _, rfl, .same _⟩
  case save.store => exact ⟨_, _, rfl, .stored⟩
  case clear.store => exact ⟨_, _, rfl, .stored⟩
  case gate.turn =>
    rw [event?, h.gate] at hevent
    cases hgate : other.keeper.gate <;> rw [hgate] at hevent <;> cases hevent
    exact ⟨_, _, by rw [event?, hgate]; rfl, .same _⟩

/-- What a call for a token finds in common in two keepers from which it is given the same. -/
structure SameTokens (traffic other : Traffic) : Prop where
  record : traffic.keeper.session.record = other.keeper.session.record
  unstored : traffic.keeper.session.persistFailure = other.keeper.session.persistFailure
  last : traffic.keeper.lastRefresh = other.keeper.lastRefresh
  generation : traffic.keeper.generation = other.keeper.generation

theorem SameTokens.symm (h : traffic.SameTokens other) : other.SameTokens traffic :=
  ⟨h.record.symm, h.unstored.symm, h.last.symm, h.generation.symm⟩

/-- A token that a visit is given is given to the same visit from the other keeper. -/
theorem SameTokens.given (h : traffic.SameTokens other)
    (hgate : traffic.keeper.gate = other.keeper.gate) {inputs : List (UInt64 × Input)}
    {value : String}
    (hvisits : traffic.Visits store ⟨.token, inputs, some (.token value)⟩ next) :
    ∃ last, other.Visits store ⟨.token, inputs, some (.token value)⟩ last := by
  obtain ⟨last, held, hrun, hcalls, hbeside⟩ := hvisits.induction
    (P := fun inputs between stage => ∃ last held,
      (other.arrive .token).run store (advances other.calls.length inputs) = some last ∧
        last.calls = other.calls ++ [⟨.token, held⟩] ∧
        Beside between.keeper stage last.keeper held)
    ⟨_, .requesting, rfl, rfl, .same _, h.record, fun _ => congrArg _ h.unstored, h.last,
      h.generation, hgate⟩
    (by
      intro inputs between stage now input after event _ hof hbefore hevent
      obtain ⟨last, held, hrun, hcalls, hbeside⟩ := hbefore
      obtain ⟨disk, given, hgiven, halike⟩ := event?_beside hbeside hevent
      refine ⟨_, _, ?_, calls_put_last hcalls disk _,
        hbeside.step hof (admits_of_event? hevent).1 halike (admits_of_event? hgiven).1⟩
      rw [run_advances_concat, hrun]
      exact step_advance now (getElem?_last hcalls) hgiven)
  refine ⟨last, hrun, ?_⟩
  rw [getElem?_last hcalls, hbeside.alike.over_token]
  rfl

theorem SameTokens.put (h : traffic.SameTokens other) {caller : Caller} (now : UInt64) (index : Nat)
    (hevent : traffic.event? store caller.stage.wait input = some (after, event))
    (hsettles : caller.stage.settling? = none)
    (hrecord : (caller.stage.write traffic.keeper.session).record = traffic.keeper.session.record)
    (hunstored : (caller.stage.write traffic.keeper.session).persistFailure =
      traffic.keeper.session.persistFailure) :
    (traffic.put index caller after (caller.stage.step now traffic.keeper event)).SameTokens
      other := by
  have hkeeper := Stage.keeper_step now traffic.keeper (admits_of_event? hevent).1
  rw [hsettles] at hkeeper
  constructor
  · rw [session_put now index hevent, hrecord, h.record]
  · rw [session_put now index hevent, hunstored, h.unstored]
  · exact (congrArg Keeper.lastRefresh hkeeper).trans h.last
  · exact (congrArg Keeper.generation hkeeper).trans h.generation

/-- A visit that starts a flow, or that completes none, changes nothing that decides on tokens. -/
theorem Visits.sameTokens (hvisits : traffic.Visits store visit next)
    (hcall : (∃ flow, visit.call = .start flow) ∨ ∃ pasted, visit.call = .complete pasted ∧
      ∀ record, visit.answer ≠ some (.completed record)) :
    next.SameTokens traffic := by
  have hend := hvisits.induction
    (P := fun _ between stage => (∃ record, stage = .over (.completed record)) ∨
      between.SameTokens traffic)
    (.inr ⟨rfl, rfl, rfl, rfl⟩)
    (by
      intro inputs between stage now input after event _ hof hbefore hevent
      have hleads := leads_of_event? now hevent
      have hflow : (∃ flow, stage.Of (.start flow)) ∨ ∃ pasted, stage.Of (.complete pasted) := by
        rcases hcall with ⟨flow, hcall⟩ | ⟨pasted, hcall, -⟩ <;> rw [hcall] at hof
        · exact .inl ⟨flow, hof⟩
        · exact .inr ⟨pasted, hof⟩
      by_cases hstored : ∃ record, stage = .exchangeStored record
      · obtain ⟨record, hstage⟩ := hstored
        exact .inl ⟨record, hleads.of_exchangeStored hstage⟩
      · rcases hbefore with ⟨record, hover⟩ | hsame
        · exact (hleads.not_over _ hover).elim
        · obtain ⟨hsettles, hwrite⟩ := Stage.write_of_flow hflow fun record hstage =>
            hstored ⟨record, hstage⟩
          obtain ⟨hrecord, hunstored⟩ := hwrite between.keeper.session
          exact .inr (hsame.put now _ hevent hsettles hrecord hunstored))
  rcases hend with ⟨record, hover⟩ | hsame
  · rcases hcall with ⟨flow, hcall⟩ | ⟨pasted, -, hanswer⟩
    · have hof := hvisits.ends.2
      rw [hover, hcall] at hof
      exact hof.elim
    · exact (hanswer record (Stage.ended_eq_over.1 hover)).elim
  · exact hsame

end Traffic

end Credential

end ChatGateway
