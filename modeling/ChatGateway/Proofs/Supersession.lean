import ChatGateway.Proofs.TokenRotation

/-!
# The outcome of a superseded credential

A call for a token that comes through the gate is told of the credential in the session: its
token, how a refresh of it failed, or that there is none.  The one exception is a shared outcome.
An exchange that is completed settles no refresh, so whoever queued before the last one was settled
still shares its outcome, although the exchange has superseded the credential it is about.
-/

namespace ChatGateway

namespace Credential

namespace Stage

variable {now : UInt64} {keeper : Keeper} {stage next : Stage} {event : Event}

/-- The ways in which a call for a token ends inside. -/
theorem Leads.ends_inside {answer : Answer} (h : Leads now keeper stage event (.over answer))
    (hof : stage.Of .token) (hin : stage.inside = true) :
    (∃ record, keeper.session.record = some record ∧ answer = .token record.accessToken) ∨
    (keeper.session.record = none ∧ answer = .refused keeper.session.missing) ∨
    (∃ seen record outcome, stage = .refreshDeciding seen ∧
      keeper.session.record = some record ∧ record.isFresh now Record.safetyMargin = false ∧
      keeper.generation ≠ seen ∧ keeper.lastRefresh = some outcome ∧
      answer = .ofRefresh outcome) ∨
    ∃ outcome, stage = .refreshed outcome ∧ answer = .ofRefresh outcome := by
  cases h with
  | decideFresh hrecord hfresh => exact .inl ⟨_, hrecord, rfl⟩
  | decideAbsent hrecord => exact .inr (.inl ⟨hrecord, rfl⟩)
  | share hrecord hstale hseen hlast =>
      exact .inr (.inr (.inl ⟨_, _, _, rfl, hrecord, hstale, hseen, hlast, rfl⟩))
  | settle => exact .inr (.inr (.inr ⟨_, rfl, rfl⟩))
  | _ => simp_all [Of, inside]

theorem Leads.write_of_ends_inside {answer : Answer}
    (h : Leads now keeper stage event (.over answer)) (hof : stage.Of .token)
    (hin : stage.inside = true) (session : Session) : stage.write session = session := by
  cases h <;> simp_all [Of, inside, write]

/-- The ways to the outcome of a refresh. -/
theorem Leads.to_refreshed {outcome : Except Failure String}
    (h : Leads now keeper stage event (.refreshed outcome)) :
    (∃ used failure, stage = .refreshing used ∧ event = .reply (.failed failure) ∧
      outcome = .error failure) ∨
    (∃ record stored, stage = .refreshStored record stored ∧ outcome = .ok record.accessToken) ∨
    ∃ reason, stage = .refreshCleared reason := by
  cases h with
  | fail => exact .inl ⟨_, _, rfl, rfl, rfl⟩
  | renew => exact .inr (.inl ⟨_, _, rfl, rfl⟩)
  | endSession => exact .inr (.inr ⟨_, rfl⟩)

theorem Leads.of_refreshStored {record : Record} {stored : Except Failure Unit}
    (h : Leads now keeper stage event next) (hstage : stage = .refreshStored record stored) :
    next = .refreshed (.ok record.accessToken) := by
  subst hstage
  cases h
  rfl

/-- The outcome of a refresh, from the endpoint's reply on until it is settled. -/
def outcome? : Stage -> Option (Except Failure String)
  | .refreshed outcome => some outcome
  | stage => stage.brings?

theorem Leads.outcome? {outcome : Except Failure String} (h : Leads now keeper stage event next)
    (hnext : next.outcome? = some outcome) :
    stage.outcome? = some outcome ∨ ∃ reply, event = .reply reply ∧ reply.outcome = outcome := by
  cases hasks : stage.asks? with
  | some used =>
      obtain ⟨reply, rfl, hbrings | rfl | ⟨rfl, -⟩⟩ := h.of_asks hasks
      · refine .inr ⟨reply, rfl, ?_⟩
        cases next <;> simp_all [Stage.outcome?, brings?]
      · cases hnext
        exact .inr ⟨reply, rfl, rfl⟩
      · cases hnext
  | none => cases h <;> simp_all [Stage.outcome?, brings?, asks?]

/-- What a call has seen, it has seen before, or it is the generation that counts now. -/
theorem Leads.seen? {seen : UInt64} (h : Leads now keeper stage event next)
    (hnext : next.seen? = some seen) : stage.seen? = some seen ∨ seen = keeper.generation := by
  cases h <;> simp_all [Stage.seen?]

end Stage

namespace Traffic

variable {store : Store} {disk after : Disk} {traffic next before : Traffic} {moment : Moment}
  {past : List Moment} {index : Nat} {stage : Stage} {answer : Answer} {now : UInt64}
  {input : Input} {record : Record} {outcome : Except Failure String}

/-- What the refresh of a call came to is the outcome of refreshing this record. -/
def Concerns (past : List Moment) (traffic : Traffic) (index : Nat) (record : Record) :
    Except Failure String → Prop
  | .ok value => record.accessToken = value
  | .error failure => (index, .refresh record.refreshToken) ∈ traffic.sent ∧
      ∃ time, Replied past time index (.error failure)

/-- What a call for a token is told inside is about the credential in the session. -/
inductive Current (past : List Moment) (traffic : Traffic) (index : Nat) (stage : Stage) :
    Answer → Prop
  | token {record : Record} : traffic.keeper.session.record = some record →
      Current past traffic index stage (.token record.accessToken)
  /-- The endpoint's reply to a refresh of the record in the session meant this failure. -/
  | failed {record : Record} {other : Nat} {time : UInt64} {failure : Failure} :
      traffic.keeper.session.record = some record →
      (other, .refresh record.refreshToken) ∈ traffic.sent →
      Replied past time other (.error failure) → Current past traffic index stage (.refused failure)
  | missing : traffic.keeper.session.record = none →
      Current past traffic index stage (.refused traffic.keeper.session.missing)
  /-- The endpoint's reply to the call's own refresh has just ended the session. -/
  | ended {time : UInt64} {failure : Failure} : traffic.keeper.session.record = none →
      stage = .refreshed (.error failure) → Replied past time index (.error failure) →
      Current past traffic index stage (.refused failure)

/--
After the last refresh was settled, the exchange of a call was completed, and its record is the one
in the session.  Whoever has seen no later generation had seen it before the exchange was completed.
-/
structure Superseded (store : Store) (disk : Disk) (past : List Moment) (before traffic : Traffic)
    (index : Nat) (record : Record) : Prop where
  since : ∃ earlier later, past = earlier ++ later ∧ Reached store disk earlier before ∧
    before.run store later = some traffic
  calm : Calm before traffic
  completed : ∃ call, before.calls[index]? = some ⟨call, .exchangeStored record⟩ ∧
    traffic.calls[index]? = some ⟨call, .over (.completed record)⟩
  held : traffic.keeper.session.record = some record
  queued : traffic.Each fun other caller => ∀ seen, caller.stage.seen? = some seen →
    traffic.keeper.generation ≠ seen →
      ∃ waiting, before.calls[other]? = some waiting ∧ waiting.stage.seen? = some seen

/-! ## What is known of outcomes -/

theorem Concerns.later (h : Concerns past traffic index record outcome) (later : List Moment)
    (hsent : ∀ entry ∈ traffic.sent, entry ∈ next.sent) :
    Concerns (past ++ later) next index record outcome := by
  cases outcome with
  | ok value => exact h
  | error failure =>
      obtain ⟨hasked, time, hreplied⟩ := h
      exact ⟨hsent _ hasked, time, hreplied.later later⟩

theorem Concerns.current (h : Concerns past traffic index record outcome) {other : Nat}
    (hrecord : traffic.keeper.session.record = some record) :
    Current past traffic other stage (.ofRefresh outcome) := by
  cases outcome with
  | ok value =>
      cases h
      exact .token hrecord
  | error failure =>
      obtain ⟨hasked, time, hreplied⟩ := h
      exact .failed hrecord hasked hreplied

theorem Current.record_of_token {value : String}
    (h : Current past traffic index stage (.token value)) :
    ∃ record, traffic.keeper.session.record = some record ∧ record.accessToken = value := by
  cases h with
  | token hrecord => exact ⟨_, hrecord, rfl⟩

/-- While nothing is settled, whoever has seen another generation had seen it before. -/
theorem seen_before (hstep : traffic.step store moment = some next) (hcalm : Calm traffic next) :
    next.Each fun other caller => ∀ seen, caller.stage.seen? = some seen →
      next.keeper.generation ≠ seen →
        ∃ waiting, traffic.calls[other]? = some waiting ∧ waiting.stage.seen? = some seen := by
  rcases step_cases hstep with ⟨call, -, rfl⟩ |
    ⟨index, input, caller, after, event, -, hcaller, hevent, rfl⟩
  · apply each_arrive
    · intro other held hheld seen hseen _
      exact ⟨held, hheld, hseen⟩
    · intro seen hseen
      cases call <;> cases hseen
  · apply each_put
    · intro seen hseen hne
      rcases (leads_of_event? moment.now hevent).seen? hseen with hbefore | hcounted
      · exact ⟨caller, hcaller, hbefore⟩
      · rw [hcalm.generation] at hne
        exact (hne hcounted.symm).elim
    · intro other held _ hheld seen hseen _
      exact ⟨held, hheld, hseen⟩

/-- The step with which an exchange is completed supersedes what there was. -/
theorem superseded_of_exchange (hreached : Reached store disk past traffic) {caller : Caller}
    (hcaller : traffic.calls[index]? = some caller) (hstage : caller.stage = .exchangeStored record)
    (hstep : traffic.step store ⟨now, .advance index input⟩ = some next)
    (hcalm : Calm traffic next) (hheld : next.keeper.session.record = some record)
    (hover : next.calls[index]? = some ⟨caller.call, .over (.completed record)⟩) :
    Superseded store disk (past ++ [⟨now, .advance index input⟩]) traffic next index record where
  since := ⟨past, _, rfl, hreached, by rw [run_cons, hstep]; rfl⟩
  calm := hcalm
  completed := ⟨caller.call, by rw [hcaller, ← hstage], hover⟩
  held := hheld
  queued := seen_before hstep hcalm

/-- As long as nothing is settled and the record stays, it stays the one that superseded. -/
theorem Superseded.step (h : Superseded store disk past before traffic index record)
    (hstep : traffic.step store moment = some next) (hcalm : Calm traffic next)
    (hheld : next.keeper.session.record = some record) :
    Superseded store disk (past ++ [moment]) before next index record where
  since := by
    obtain ⟨earlier, later, rfl, hreached, hrun⟩ := h.since
    refine ⟨earlier, later ++ [moment], List.append_assoc _ _ _, hreached, ?_⟩
    rw [run_concat, hrun]
    exact hstep
  calm := h.calm.trans hcalm
  completed := h.completed.imp fun _ ⟨hstoring, hover⟩ => ⟨hstoring, step_ended hstep hover rfl⟩
  held := hheld
  queued := by
    intro other caller hcaller seen hseen hne
    obtain ⟨between, hbetween, hseen⟩ := seen_before hstep hcalm other caller hcaller seen hseen hne
    exact h.queued other between hbetween seen hseen (hcalm.generation ▸ hne)

/-- A call has the outcome of a refresh that it has not settled yet. -/
def Settling (traffic : Traffic) : Prop :=
  ∃ (index : Nat) (caller : Caller) (outcome : Except Failure String),
    traffic.calls[index]? = some caller ∧ caller.stage = .refreshed outcome

/-- The outcome is about the record in the session, or an exchange has superseded that. -/
def Accounted (store : Store) (disk : Disk) (past : List Moment) (traffic : Traffic) (index : Nat)
    (outcome : Except Failure String) : Prop :=
  (∀ record, traffic.keeper.session.record = some record →
    Concerns past traffic index record outcome) ∨
  ∃ before other record, Superseded store disk past before traffic other record

/-- What is known in a run of the outcomes of refreshes and of the record in the session. -/
structure OutcomesKnown (store : Store) (disk : Disk) (past : List Moment) (traffic : Traffic) :
    Prop where
  asking : traffic.Each fun _ caller => ∀ used, caller.stage = .refreshing used →
    ∃ record, traffic.keeper.session.record = some record ∧ record.refreshToken = used
  replied : traffic.Each fun index caller => ∀ outcome, caller.stage.outcome? = some outcome →
    ∃ time, Replied past time index outcome
  refreshed : traffic.Each fun index caller => ∀ outcome, caller.stage = .refreshed outcome →
    ∀ record, traffic.keeper.session.record = some record →
      Concerns past traffic index record outcome
  /-- Only a refresh that is not settled can have brought a record which is not accounted for. -/
  last : ∀ index outcome, traffic.settled.getLast? = some (index, outcome) →
    traffic.Settling ∨ Accounted store disk past traffic index outcome

theorem OutcomesKnown.arrive (h : OutcomesKnown store disk past traffic) {call : Call}
    (hstep : traffic.step store moment = some (traffic.arrive call)) :
    OutcomesKnown store disk (past ++ [moment]) (traffic.arrive call) where
  asking := each_arrive h.asking fun used hstage => by cases call <;> cases hstage
  replied := by
    apply each_arrive
    · intro index caller hcaller outcome houtcome
      exact (h.replied index caller hcaller outcome houtcome).imp fun _ hreplied => hreplied.later _
    · intro outcome houtcome
      cases call <;> cases houtcome
  refreshed := by
    apply each_arrive
    · intro index caller hcaller outcome hstage record hrecord
      exact (h.refreshed index caller hcaller outcome hstage record hrecord).later _ fun _ => id
    · intro outcome hstage
      cases call <;> cases hstage
  last := by
    intro index outcome hlast
    rcases h.last index outcome hlast with
      ⟨other, held, fresh, hheld, hfresh⟩ | hconcerns | ⟨before, other, record, hsuperseded⟩
    · exact .inl ⟨other, held, fresh, getElem?_arrive_of_some hheld, hfresh⟩
    · exact .inr (.inl fun record hrecord => (hconcerns record hrecord).later _ fun _ => id)
    · exact .inr (.inr ⟨before, other, record,
        hsuperseded.step hstep ⟨rfl, rfl, rfl⟩ hsuperseded.held⟩)

section Put

variable {caller : Caller} {event : Event}

/-- While nothing is settled, a step leaves the record, replaces it by an exchange, or refreshes. -/
theorem accounted_put (hreached : Reached store disk past traffic)
    (hcaller : traffic.calls[index]? = some caller)
    (hevent : traffic.event? store caller.stage.wait input = some (after, event))
    (hsettling : caller.stage.settling? = none) {who : Nat}
    (h : Accounted store disk past traffic who outcome) :
    (traffic.put index caller after (caller.stage.step now traffic.keeper event)).Settling ∨
      Accounted store disk (past ++ [⟨now, .advance index input⟩])
        (traffic.put index caller after (caller.stage.step now traffic.keeper event)) who
        outcome := by
  have hleads := leads_of_event? now hevent
  have hstep := step_advance now hcaller hevent
  have hself := getElem?_put_self hcaller after (caller.stage.step now traffic.keeper event)
  have hcalm := calm_put now index hevent hsettling
  have hsession := session_put now index hevent
  cases hheld : (caller.stage.write traffic.keeper.session).record with
  | none =>
      refine .inr (.inl fun record hrecord => ?_)
      rw [hsession, hheld] at hrecord
      cases hrecord
  | some record =>
      rw [← hsession] at hheld
      -- A refresh has brought the record, an exchange has, or it was there before.
      rcases Stage.record_write (hsession ▸ hheld) with
        ⟨stored, hstage⟩ | hstage | ⟨hkept, -, -⟩
      · exact .inl ⟨index, _, _, hself, hleads.of_refreshStored hstage⟩
      · have hnext := hleads.of_exchangeStored hstage
        exact .inr (.inr ⟨traffic, index, record, superseded_of_exchange hreached hcaller hstage
          hstep hcalm hheld (by rw [hself, hnext])⟩)
      · rcases h with hconcerns | ⟨before, other, replaced, hsuperseded⟩
        · refine .inr (.inl fun held hrecord => ?_)
          rw [hheld] at hrecord
          cases hrecord
          exact (hconcerns record hkept).later _ fun _ hentry => List.mem_append_left _ hentry
        · have hsame : replaced = record := by
            have hheld := hsuperseded.held
            rw [hkept] at hheld
            cases hheld
            rfl
          subst hsame
          exact .inr (.inr ⟨before, other, replaced, hsuperseded.step hstep hcalm hheld⟩)

theorem OutcomesKnown.replied_put (h : OutcomesKnown store disk past traffic)
    (hcaller : traffic.calls[index]? = some caller)
    (hevent : traffic.event? store caller.stage.wait input = some (after, event))
    (hnext : (caller.stage.step now traffic.keeper event).2.outcome? = some outcome) :
    ∃ time, Replied (past ++ [⟨now, .advance index input⟩]) time index outcome := by
  rcases (leads_of_event? now hevent).outcome? hnext with houtcome | ⟨reply, rfl, rfl⟩
  · exact (h.replied index caller hcaller outcome houtcome).imp fun _ hreplied => hreplied.later _
  · cases input_of_reply hevent
    exact ⟨now, reply, List.mem_append_right _ (List.mem_singleton_self _), rfl⟩

/-- The outcome that a call comes to concerns the record that is in the session then. -/
theorem OutcomesKnown.refreshed_put (h : OutcomesKnown store disk past traffic)
    (hgrants : traffic.GrantsKnown past) (hcaller : traffic.calls[index]? = some caller)
    (hevent : traffic.event? store caller.stage.wait input = some (after, event))
    (hnext : (caller.stage.step now traffic.keeper event).2 = .refreshed outcome)
    (hrecord : (caller.stage.write traffic.keeper.session).record = some record) :
    Concerns (past ++ [⟨now, .advance index input⟩])
      (traffic.put index caller after (caller.stage.step now traffic.keeper event)) index record
      outcome := by
  have hleads := leads_of_event? now hevent
  rw [hnext] at hleads
  rcases hleads.to_refreshed with
    ⟨used, failure, hstage, rfl, rfl⟩ | ⟨granted, stored, hstage, rfl⟩ | ⟨reason, hstage⟩
  · obtain ⟨held, hheld, hused⟩ := h.asking index caller hcaller used hstage
    rw [hstage] at hrecord
    have hsame : held = record := Option.some.inj (hheld.symm.trans hrecord)
    subst hsame
    have hsent := hgrants.sent index caller hcaller used hstage
    rw [← hused] at hsent
    exact ⟨List.mem_append_left _ hsent, h.replied_put hcaller hevent (by rw [hnext]; rfl)⟩
  · rw [hstage] at hrecord
    cases hrecord
    rfl
  · rw [hstage] at hrecord
    cases hrecord

theorem OutcomesKnown.put (h : OutcomesKnown store disk past traffic)
    (hreached : Reached store disk past traffic)
    (hcaller : traffic.calls[index]? = some caller)
    (hevent : traffic.event? store caller.stage.wait input = some (after, event)) :
    OutcomesKnown store disk (past ++ [⟨now, .advance index input⟩])
      (traffic.put index caller after (caller.stage.step now traffic.keeper event)) := by
  have hsession := session_put now index hevent
  have hleads := leads_of_event? now hevent
  have hsent : ∀ entry ∈ traffic.sent, entry ∈
      (traffic.put index caller after (caller.stage.step now traffic.keeper event)).sent :=
    fun entry hentry => List.mem_append_left _ hentry
  -- Whoever is inside keeps everyone else from the record.
  have hkept : ∀ {other held}, index ≠ other → traffic.calls[other]? = some held →
      held.stage.inside = true → (traffic.put index caller after
        (caller.stage.step now traffic.keeper event)).keeper.session.record =
          traffic.keeper.session.record := by
    intro other held hne hheld hin
    rw [hsession, Stage.record_write_of_outside (hreached.guarded.outside hcaller hheld hne hin)]
  refine ⟨each_put ?_ ?_, each_put ?_ ?_, each_put ?_ ?_, ?_⟩
  · intro used hnext
    rw [show (caller.stage.step now traffic.keeper event).2 = .refreshing used from hnext] at hleads
    obtain ⟨seen, record, hstage, hrecord, hused⟩ := hleads.to_refreshing
    exact ⟨record, by rw [hsession, hstage]; exact hrecord, hused⟩
  · intro other held hne hheld used hstage
    rw [hkept hne hheld (by rw [hstage]; rfl)]
    exact h.asking other held hheld used hstage
  · intro outcome hnext
    exact h.replied_put hcaller hevent hnext
  · intro other held _ hheld outcome houtcome
    exact (h.replied other held hheld outcome houtcome).imp fun _ hreplied => hreplied.later _
  · intro outcome hnext record hrecord
    rw [hsession] at hrecord
    exact h.refreshed_put hreached.grantsKnown hcaller hevent hnext hrecord
  · intro other held hne hheld outcome hstage record hrecord
    rw [hkept hne hheld (by rw [hstage]; rfl)] at hrecord
    exact (h.refreshed other held hheld outcome hstage record hrecord).later _ hsent
  · intro who outcome hlast
    cases hsettling : caller.stage.settling? with
    | some settled =>
        have hstage := Stage.settling?_eq_some.1 hsettling
        simp only [Traffic.put, hsettling, Option.toList_some, List.map_cons, List.map_nil,
          List.getLast?_concat, Option.some.injEq, Prod.mk.injEq] at hlast
        obtain ⟨rfl, rfl⟩ := hlast
        refine .inr (.inl fun record hrecord => ?_)
        rw [hsession, hstage] at hrecord
        exact (h.refreshed index caller hcaller settled hstage record hrecord).later _ hsent
    | none =>
        rw [(calm_put now index hevent hsettling).settled] at hlast
        rcases h.last who outcome hlast with ⟨other, held, fresh, hheld, hfresh⟩ | hbefore
        · have hne : index ≠ other := by
            rintro rfl
            rw [hcaller] at hheld
            cases hheld
            rw [hfresh] at hsettling
            cases hsettling
          exact .inl ⟨other, held, fresh, by rwa [getElem?_put_of_ne hne], hfresh⟩
        · exact accounted_put hreached hcaller hevent hsettling hbefore

end Put

theorem Reached.outcomesKnown (h : Reached store disk past traffic) :
    OutcomesKnown store disk past traffic := by
  apply h.induction (P := OutcomesKnown store disk)
  · intro stored _
    refine ⟨?_, ?_, ?_, ?_⟩
    · intro index caller hcaller
      simp at hcaller
    · intro index caller hcaller
      simp at hcaller
    · intro index caller hcaller
      simp at hcaller
    · intro index outcome hlast
      simp at hlast
  · intro past traffic moment next hreached hknown hstep
    rcases step_cases hstep with ⟨call, -, rfl⟩ |
      ⟨index, input, caller, after, event, haction, hcaller, hevent, rfl⟩
    · exact hknown.arrive hstep
    · rw [show moment = ⟨moment.now, .advance index input⟩ by rw [← haction]]
      exact hknown.put hreached hcaller hevent

/--
A call for a token that is over in a step from inside leaves the session as it is, and its answer
is about the credential in the session.  Or it shares the last outcome, which was settled after the
call had looked, while the record in the session, which is stale, was brought by an exchange that
was completed after that while the call waited.
-/
theorem answer_current_or_superseded (h : Reached store disk past traffic)
    (hcaller : traffic.calls[index]? = some ⟨.token, stage⟩) (hin : stage.inside = true)
    (hstep : traffic.step store ⟨now, .advance index input⟩ = some next)
    (hover : next.calls[index]? = some ⟨.token, .over answer⟩) :
    next.keeper.session = traffic.keeper.session ∧
      (Current past traffic index stage answer ∨
      ∃ seen who outcome before other record, stage = .refreshDeciding seen ∧
        traffic.keeper.generation ≠ seen ∧ traffic.settled.getLast? = some (who, outcome) ∧
        answer = .ofRefresh outcome ∧ record.isFresh now Record.safetyMargin = false ∧
        Superseded store disk past before traffic other record ∧
        ∃ waiting, before.calls[index]? = some waiting ∧ waiting.stage.seen? = some seen) := by
  have hknown := h.outcomesKnown
  have hof := h.each_of index _ hcaller
  rcases step_cases hstep with ⟨_, haction, -⟩ |
    ⟨index, input, caller, after, event, haction, hheld, hevent, rfl⟩
  · cases haction
  cases haction
  rw [hcaller] at hheld
  cases hheld
  rw [getElem?_put_self hcaller] at hover
  have hleads := leads_of_event? now hevent
  rw [(Caller.mk.inj (Option.some.inj hover)).2] at hleads
  rw [session_put now index hevent]
  refine ⟨hleads.write_of_ends_inside hof hin _, ?_⟩
  rcases hleads.ends_inside hof hin with ⟨record, hrecord, rfl⟩ | ⟨hrecord, rfl⟩ |
    ⟨seen, record, outcome, hstage, hrecord, hstale, hseen, hlast, rfl⟩ | ⟨outcome, hstage, rfl⟩
  · exact .inl (.token hrecord)
  · exact .inl (.missing hrecord)
  · rw [h.grantsKnown.last] at hlast
    obtain ⟨⟨who, settled⟩, hsettled, rfl⟩ := Option.map_eq_some_iff.1 hlast
    rcases hknown.last who settled hsettled with
      ⟨other, held, fresh, hheld, hfresh⟩ | hconcerns | ⟨before, other, replaced, hsuperseded⟩
    · -- The call is inside, so nobody else has an outcome to settle.
      have hsame := h.guarded.alone hcaller hheld hin (by rw [hfresh]; rfl)
      subst hsame
      rw [hcaller] at hheld
      cases hheld
      rw [hstage] at hfresh
      cases hfresh
    · exact .inl ((hconcerns record hrecord).current hrecord)
    · have hsame := hsuperseded.held.symm.trans hrecord
      cases hsame
      exact .inr ⟨seen, who, settled, before, other, _, hstage, hseen, hsettled, rfl, hstale,
        hsuperseded, hsuperseded.queued index _ hcaller seen (by rw [hstage]; rfl) hseen⟩
  · cases hrecord : traffic.keeper.session.record with
    | some record =>
        exact .inl ((hknown.refreshed index _ hcaller outcome hstage record hrecord).current
          hrecord)
    | none =>
        cases outcome with
        | ok value =>
            obtain ⟨-, -, record, -, -, hheld⟩ :=
              h.grantsKnown.refreshed index _ hcaller value hstage
            rw [hrecord] at hheld
            cases hheld
        | error failure =>
            obtain ⟨time, hreplied⟩ :=
              hknown.replied index _ hcaller (.error failure) (by rw [hstage]; rfl)
            exact .inl (.ended hrecord hstage hreplied)

/-- A stale record is refreshed while an exchange is under way that brings a stale one as well. -/
def exchangedAmidRefresh : List Moment :=
  shortFlow ++ [.begin (.start ⟨"verifier2", "state2"⟩), .advance 2 .turn,
    .begin .token, .advance 3 .turn, .advance 3 .turn, .advance 3 .turn, .advance 3 .turn,
    .advance 3 .turn,
    .begin (.complete "code2#state2"), .advance 4 .turn,
    .advance 4 (.reply (.granted ⟨"second", some "refresh2", 30, none⟩)),
    .begin .token, .advance 5 .turn, .advance 5 .turn, .advance 5 .turn,
    .advance 3 (.reply (.granted ⟨"renewed", none, 30, none⟩)), .advance 3 (.store none),
    .advance 3 .turn, .advance 3 .turn,
    .advance 4 .turn, .advance 4 .turn, .advance 4 (.store none), .advance 4 .turn,
    .advance 5 .turn].map fun action => ⟨1000, action⟩

set_option maxRecDepth 8000 in
/-- The one who waited gets the token of the record that the exchange has replaced. -/
theorem superseded_token_handed_out :
    ∃ traffic next record, Reached ⟨["tokens.json"]⟩ .empty exchangedAmidRefresh traffic ∧
      traffic.calls[5]? = some ⟨.token, .refreshDeciding 0⟩ ∧
      traffic.calls[4]? = some ⟨.complete "code2#state2", .over (.completed record)⟩ ∧
      traffic.step ⟨["tokens.json"]⟩ ⟨1000, .advance 5 .turn⟩ = some next ∧
      next.calls[5]? = some ⟨.token, .over (.token "renewed")⟩ ∧
      next.keeper.session.record = some record ∧ record.accessToken = "second" :=
  ⟨_, _, _, ⟨_, rfl, rfl⟩, rfl, rfl, rfl, rfl, rfl, rfl⟩

set_option maxRecDepth 8000 in
theorem answer_current_or_superseded_amid_refresh :
    ∃ traffic next before other record,
      Reached ⟨["tokens.json"]⟩ .empty exchangedAmidRefresh traffic ∧
      traffic.step ⟨["tokens.json"]⟩ ⟨1000, .advance 5 .turn⟩ = some next ∧
      Superseded ⟨["tokens.json"]⟩ .empty exchangedAmidRefresh before traffic other record ∧
      next.keeper.session.record = some record := by
  obtain ⟨traffic, hreached, hcaller, hrecord, next, hstep, hover⟩ :
      ∃ traffic, Reached ⟨["tokens.json"]⟩ .empty exchangedAmidRefresh traffic ∧
        traffic.calls[5]? = some ⟨.token, .refreshDeciding 0⟩ ∧
        (traffic.keeper.session.record.map Record.accessToken) = some "second" ∧
      ∃ next, traffic.step ⟨["tokens.json"]⟩ ⟨1000, .advance 5 .turn⟩ = some next ∧
        next.calls[5]? = some ⟨.token, .over (.token "renewed")⟩ :=
    ⟨_, ⟨_, rfl, rfl⟩, rfl, rfl, _, rfl, rfl⟩
  obtain ⟨hsession, hcurrent | ⟨-, -, -, before, other, record, -, -, -, -, -, hsuperseded, -⟩⟩ :=
    answer_current_or_superseded hreached hcaller rfl hstep hover
  · obtain ⟨record, hheld, hvalue⟩ := hcurrent.record_of_token
    simp [hheld, hvalue] at hrecord
  · exact ⟨traffic, next, before, other, record, hreached, hstep, hsuperseded,
      by rw [hsession, hsuperseded.held]⟩

end Traffic

end Credential

end ChatGateway
