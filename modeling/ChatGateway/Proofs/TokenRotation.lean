import ChatGateway.Proofs.RefreshPhases

/-!
# Rotation of refresh tokens

The endpoint may deliver a new refresh token with every reply.  A refresh is asked for with the
token delivered last, by a completed exchange or by a refresh, or with the loaded one while none
has been; a reply to a refresh that delivers none keeps the one in use.

A record lasts until the seconds that were granted have passed since the reply.  If that time
does not fit into 64 bits the call breaks off, and a token that came with the reply is lost.
-/

namespace ChatGateway

namespace Credential

/-- A record that was granted expires later than now. -/
theorem Grant.lt_expiresAt {grant : Grant} {used : Option String} {now : UInt64}
    {record : Record} (h : grant.toRecord used now = some (.ok record)) :
    now < record.expiresAt := by
  obtain ⟨_, expiresAt, -, hexpiry, rfl⟩ := Grant.toRecord_eq_ok.1 h
  have hsum := Grant.toNat_of_expiry? hexpiry
  rw [UInt64.lt_iff_toNat_lt]
  show now.toNat < expiresAt.toNat
  omega

namespace Stage

variable {now : UInt64} {keeper : Keeper} {stage next : Stage} {event : Event}

/--
The refresh token that is delivered as a call at this stage is given this; a call that breaks
off is delivered none.
-/
def delivers? (now : UInt64) : Stage -> Input -> Option String
  | .refreshing _, .reply (.granted grant) =>
      (grant.expiry? now).bind fun _ => grant.refreshToken
  -- The exchange is completed, and what was granted for it becomes the credential.
  | .exchangeStored record, .turn => some record.refreshToken
  | _, _ => none

/-- The record that the endpoint granted to an exchange, until the call is over. -/
def exchanged? : Stage -> Option Record
  | .exchanged _ record | .rechecking _ record => some record
  | .exchangeStoring record | .exchangeStored record => some record
  | _ => none

theorem Leads.exchanged? {record : Record} (h : Leads now keeper stage event next)
    (hnext : next.exchanged? = some record) :
    stage.exchanged? = some record ∨ ∃ grant, event = .reply (.granted grant) ∧
      grant.toRecord none now = some (.ok record) := by
  cases h <;> simp_all [Stage.exchanged?]

theorem request?_eq_refresh {used : String} (h : stage.request? = some (.refresh used)) :
    stage = .refreshing used := by
  cases stage with
  | refreshing own =>
      cases h
      rfl
  | _ => simp [request?, wait] at h

/-- A call decides inside the gate to ask for a refresh of the record. -/
theorem Leads.to_refreshing {used : String} (h : Leads now keeper stage event (.refreshing used)) :
    ∃ seen record, stage = .refreshDeciding seen ∧ keeper.session.record = some record ∧
      record.refreshToken = used := by
  cases h with
  | refresh hrecord => exact ⟨_, _, rfl, hrecord, rfl⟩

/-- The refresh token that a call inside was delivered, or uses. -/
def token? : Stage -> Option String
  | .refreshing used => some used
  | .refreshStoring record | .refreshStored record _ => some record.refreshToken
  | _ => none

theorem inside_of_token? {used : String} (h : stage.token? = some used) :
    stage.inside = true := by
  cases stage <;> simp_all [token?, inside]

theorem inside_of_granted? {record : Record} (h : stage.granted? = some record) :
    stage.inside = true := by
  cases stage <;> simp_all [granted?, inside]

theorem inside_of_delivers? {input : Input} {token : String}
    (h : stage.delivers? now input = some token) : stage.inside = true := by
  cases stage <;> simp_all [delivers?, inside]

/-- The token of a call inside comes from the session, from before, or with what is delivered. -/
theorem Leads.token? {used : String} (h : Leads now keeper stage event next)
    (hnext : next.token? = some used) :
    (∃ seen record, stage = .refreshDeciding seen ∧ keeper.session.record = some record ∧
      record.refreshToken = used ∧ event = .turn) ∨
    (∃ before grant, stage = .refreshing before ∧ event = .reply (.granted grant) ∧
      ((grant.expiry? now).bind fun _ => grant.refreshToken).or (some before) = some used) ∨
    stage.token? = some used ∧ ∃ outcome, event = .stored outcome := by
  cases h with
  | refresh hrecord =>
      cases hnext
      exact .inl ⟨_, _, rfl, hrecord, rfl, rfl⟩
  | grant hrecord =>
      cases hnext
      obtain ⟨refreshToken, _, htoken, hexpiry, rfl⟩ := Grant.toRecord_eq_ok.1 hrecord
      exact .inr (.inl ⟨_, _, rfl, rfl, by simpa [hexpiry] using htoken⟩)
  | storeRefresh => exact .inr (.inr ⟨hnext, _, rfl⟩)
  | _ => cases hnext

/-- A record that comes into memory was granted to a call inside, or was there before. -/
theorem record_write {session : Session} {record : Record}
    (h : (stage.write session).record = some record) :
    (∃ stored, stage = .refreshStored record stored) ∨ stage = .exchangeStored record ∨
      session.record = some record ∧ (∀ record stored, stage ≠ .refreshStored record stored) ∧
        ∀ record, stage ≠ .exchangeStored record := by
  cases stage <;>
    simp_all [write, Session.begin, Session.adopt, Session.persisted, Session.renew,
      Session.reject, Session.empty]

end Stage

namespace Traffic

variable {store : Store} {disk after : Disk} {start traffic next : Traffic} {moment : Moment}
  {past : List Moment} {index : Nat} {caller : Caller}

/-- The refresh token that is delivered at a moment, with a refresh or as an exchange completes. -/
def delivers? (traffic : Traffic) (moment : Moment) : Option String :=
  match moment.action with
  | .begin _ => none
  | .advance index input =>
      traffic.calls[index]?.bind fun caller => caller.stage.delivers? moment.now input

/-- The refresh tokens that are delivered in a run, in their order. -/
def deliveries (store : Store) : Traffic -> List Moment -> List String
  | _, [] => []
  | traffic, moment :: rest =>
      (traffic.delivers? moment).toList ++
        (traffic.step store moment).elim [] fun next => deliveries store next rest

/-- The loaded refresh token, if there is one, and those that were delivered since. -/
def refreshTokens (store : Store) (start : Traffic) (past : List Moment) : List String :=
  (start.keeper.session.record.map Record.refreshToken).toList ++ start.deliveries store past

theorem deliveries_concat (hrun : start.run store past = some traffic) (moment : Moment) :
    start.deliveries store (past ++ [moment]) =
      start.deliveries store past ++ (traffic.delivers? moment).toList := by
  induction past generalizing start with
  | nil =>
      cases hrun
      cases hstep : traffic.step store moment <;> simp [deliveries, hstep]
  | cons first rest ih =>
      rw [run_cons] at hrun
      obtain ⟨between, hfirst, hrest⟩ := Option.bind_eq_some_iff.1 hrun
      simp [deliveries, hfirst, ih hrest]

/-- What is delivered at a moment comes after what was delivered before. -/
theorem getLast?_refreshTokens (hrun : start.run store past = some traffic) (moment : Moment) :
    (start.refreshTokens store (past ++ [moment])).getLast? =
      (traffic.delivers? moment).or (start.refreshTokens store past).getLast? := by
  unfold refreshTokens
  rw [deliveries_concat hrun, ← List.append_assoc, List.getLast?_append]
  cases traffic.delivers? moment <;> rfl

/-- What is known in a run of the refresh token that was delivered last. -/
structure LatestKnown (latest : Option String) (traffic : Traffic) : Prop where
  /-- The record in memory has it, unless a call inside brings another one. -/
  held : ∀ {record}, traffic.keeper.session.record = some record →
    latest = some record.refreshToken ∨ ∃ (index : Nat) (caller : Caller) (granted : Record),
      traffic.calls[index]? = some caller ∧ caller.stage.granted? = some granted
  used : traffic.Each fun _ caller => ∀ used, caller.stage.token? = some used →
    latest = some used

theorem LatestKnown.arrive {latest : Option String} (h : LatestKnown latest traffic)
    (call : Call) : LatestKnown latest (traffic.arrive call) where
  held hrecord := (h.held hrecord).imp_right fun ⟨index, caller, granted, hcaller, hgranted⟩ =>
    ⟨index, caller, granted, getElem?_arrive_of_some hcaller, hgranted⟩
  used := each_arrive h.used fun used huses => by cases call <;> cases huses

section Put

variable {latest : Option String} {input : Input} {event : Event}

/-- While another call is inside, a call that goes on is delivered nothing. -/
theorem delivers?_of_inside (hguarded : traffic.Guarded)
    (hcaller : traffic.calls[index]? = some caller) {other : Nat} {held : Caller}
    (hheld : traffic.calls[other]? = some held) (hne : index ≠ other)
    (hin : held.stage.inside = true) (now : UInt64) (input : Input) :
    caller.stage.delivers? now input = none := by
  cases hdelivers : caller.stage.delivers? now input with
  | none => rfl
  | some token =>
      have hout := hguarded.outside hcaller hheld hne hin
      rw [Stage.inside_of_delivers? hdelivers] at hout
      cases hout

/-- Nothing is delivered by the store. -/
theorem delivers?_of_stored {outcome : Except Failure Unit} (now : UInt64)
    (hevent : traffic.event? store caller.stage.wait input = some (after, .stored outcome)) :
    caller.stage.delivers? now input = none := by
  rcases event?_cases hevent with ⟨-, h, -⟩ | ⟨_, -, h, -⟩ | ⟨_, _, -, rfl, -⟩ | ⟨_, -, rfl, -⟩
  · cases h
  · cases h
  · cases caller.stage <;> rfl
  · cases caller.stage <;> rfl

/-- Whoever brings a granted record goes on to have it in memory. -/
theorem granted_of_kept (now : UInt64)
    (hevent : traffic.event? store caller.stage.wait input = some (after, event))
    (hunstored : ∀ record stored, caller.stage ≠ .refreshStored record stored)
    (hexchanged : ∀ record, caller.stage ≠ .exchangeStored record)
    (h : (∃ token, caller.stage.delivers? now input = some token) ∨
      ∃ granted, caller.stage.granted? = some granted) :
    ∃ granted, (caller.stage.step now traffic.keeper event).2.granted? = some granted := by
  rcases h with ⟨token, hdelivers⟩ | ⟨granted, hgranted⟩
  · cases hstage : caller.stage with
    | refreshing used =>
        rw [hstage] at hdelivers hevent
        cases input with
        | reply reply =>
            cases hevent
            cases reply with
            | granted grant =>
                rcases grant.toRecord_some used now with ⟨hexpiry, -⟩ | ⟨record, hrecord, -⟩
                · simp [Stage.delivers?, hexpiry] at hdelivers
                · exact ⟨record, by simp [Stage.step, Stage.refresh, hrecord, Stage.granted?]⟩
            | _ => cases hdelivers
        | _ => cases hdelivers
    | exchangeStored record => exact (hexchanged record hstage).elim
    | _ =>
        rw [hstage] at hdelivers
        cases hdelivers
  · cases hstage : caller.stage with
    | refreshStoring record =>
        rw [hstage] at hevent
        cases input <;> cases hevent
        exact ⟨record, rfl⟩
    | refreshStored record stored => exact (hunstored record stored hstage).elim
    | _ =>
        rw [hstage] at hgranted
        cases hgranted

theorem LatestKnown.put_held (h : LatestKnown latest traffic) (now : UInt64)
    (hcaller : traffic.calls[index]? = some caller)
    (hevent : traffic.event? store caller.stage.wait input = some (after, event))
    {record : Record}
    (hrecord : (caller.stage.write traffic.keeper.session).record = some record) :
    (caller.stage.delivers? now input).or latest = some record.refreshToken ∨
      ∃ (other : Nat) (held : Caller) (granted : Record),
        (traffic.put index caller after
          (caller.stage.step now traffic.keeper event)).calls[other]? = some held ∧
          held.stage.granted? = some granted := by
  rcases Stage.record_write hrecord with
    ⟨stored, hstage⟩ | hstage | ⟨hkept, hunstored, hexchanged⟩
  · rw [hstage, h.used index caller hcaller record.refreshToken (by rw [hstage]; rfl)]
    exact .inl rfl
  · rw [hstage] at hevent
    cases input <;> cases hevent
    exact .inl (by rw [hstage]; rfl)
  · rcases h.held hkept with hlatest | ⟨other, held, granted, hheld, hgranted⟩
    · cases hdelivers : caller.stage.delivers? now input with
      | none => exact .inl hlatest
      | some token =>
          obtain ⟨granted, hgranted⟩ :=
            granted_of_kept now hevent hunstored hexchanged (.inl ⟨token, hdelivers⟩)
          exact .inr ⟨index, _, granted, getElem?_put_self hcaller _ _, hgranted⟩
    · by_cases hne : index = other
      · subst hne
        rw [hcaller] at hheld
        cases hheld
        obtain ⟨granted, hgranted⟩ :=
          granted_of_kept now hevent hunstored hexchanged (.inr ⟨granted, hgranted⟩)
        exact .inr ⟨index, _, granted, getElem?_put_self hcaller _ _, hgranted⟩
      · exact .inr ⟨other, held, granted, by rwa [getElem?_put_of_ne hne], hgranted⟩

theorem LatestKnown.put (h : LatestKnown latest traffic) (hguarded : traffic.Guarded)
    (now : UInt64) (hcaller : traffic.calls[index]? = some caller)
    (hevent : traffic.event? store caller.stage.wait input = some (after, event)) :
    LatestKnown ((caller.stage.delivers? now input).or latest)
      (traffic.put index caller after (caller.stage.step now traffic.keeper event)) := by
  refine ⟨fun hrecord => ?_, each_put (fun used hnext => ?_) fun other held hne hheld used huses =>
    ?_⟩
  · rw [session_put now index hevent] at hrecord
    exact h.put_held now hcaller hevent hrecord
  · rcases (leads_of_event? now hevent).token? hnext with
      ⟨seen, record, hstage, hrecord, rfl, -⟩ | ⟨before, grant, hstage, rfl, hgrant⟩ |
      ⟨huses, outcome, rfl⟩
    · -- Nobody else is inside who could bring another token.
      rcases h.held hrecord with hlatest | ⟨other, held, granted, hheld, hgranted⟩
      · rw [hlatest, hstage]
        rfl
      · have hsame : index = other := hguarded.alone hcaller hheld (by rw [hstage]; rfl)
          (Stage.inside_of_granted? hgranted)
        subst hsame
        rw [hcaller] at hheld
        cases hheld
        rw [hstage] at hgranted
        cases hgranted
    · cases input_of_reply hevent
      rw [hstage, h.used index caller hcaller before (by rw [hstage]; rfl)]
      exact hgrant
    · rw [delivers?_of_stored now hevent]
      exact h.used index caller hcaller used huses
  · rw [delivers?_of_inside hguarded hcaller hheld hne (Stage.inside_of_token? huses) now]
    exact h.used other held hheld used huses

end Put

theorem latestKnown_of_run (hopen : opened store disk = .ok start)
    (hrun : start.run store past = some traffic) :
    LatestKnown (start.refreshTokens store past).getLast? traffic := by
  apply run_induction (P := fun past traffic =>
    LatestKnown (start.refreshTokens store past).getLast? traffic) _ _ hrun
  · obtain ⟨stored, -, rfl⟩ := opened_eq_ok hopen
    refine ⟨fun hrecord => .inl ?_, fun index caller hcaller => ?_⟩
    · rw [refreshTokens, hrecord]
      rfl
    · simp at hcaller
  · intro past traffic moment next hbefore hknown hstep
    rw [getLast?_refreshTokens hbefore moment]
    rcases step_cases hstep with ⟨call, haction, rfl⟩ |
      ⟨index, input, caller, after, event, haction, hcaller, hevent, rfl⟩
    · rw [delivers?, haction]
      exact hknown.arrive call
    · rw [delivers?, haction]
      show LatestKnown ((traffic.calls[index]?.bind _).or _) _
      rw [hcaller]
      have hreached : Reached store disk past traffic := ⟨start, hopen, hbefore⟩
      exact hknown.put hreached.guarded moment.now hcaller hevent

/-- While nobody is inside, the record in memory has the refresh token that was delivered last. -/
theorem LatestKnown.of_open {latest : Option String} (h : LatestKnown latest traffic)
    (hguarded : traffic.Guarded) (hgate : traffic.keeper.gate = false) {record : Record}
    (hrecord : traffic.keeper.session.record = some record) :
    latest = some record.refreshToken := by
  rcases h.held hrecord with hlatest | ⟨other, held, granted, hheld, hgranted⟩
  · exact hlatest
  · have hclosed := hguarded.closed other held hheld (Stage.inside_of_granted? hgranted)
    rw [hgate] at hclosed
    cases hclosed

/-- A refresh that is sent at a moment carries the token that was delivered last. -/
theorem latest_of_sent (hopen : opened store disk = .ok start)
    (hrun : start.run store past = some traffic)
    (hstep : traffic.step store moment = some next) {other : Nat} {used : String}
    (hsent : next.sent = traffic.sent ++ [(other, .refresh used)]) :
    (start.refreshTokens store past).getLast? = some used := by
  have hknown : LatestKnown (start.refreshTokens store (past ++ [moment])).getLast? next := by
    apply latestKnown_of_run hopen
    rw [run_concat, hrun]
    exact hstep
  rcases step_cases hstep with ⟨call, -, rfl⟩ |
    ⟨index, input, caller, after, event, haction, hcaller, hevent, rfl⟩
  · have hlength := congrArg List.length hsent
    simp [arrive] at hlength
  · have hnext : (caller.stage.step moment.now traffic.keeper event).2 = .refreshing used := by
      have hrequest := List.append_cancel_left hsent
      cases hrequested : (caller.stage.step moment.now traffic.keeper event).2.request? with
      | none => simp [hrequested] at hrequest
      | some request =>
          rw [hrequested] at hrequest
          cases hrequest
          exact Stage.request?_eq_refresh hrequested
    have hlatest := hknown.used index _ (getElem?_put_self hcaller _ _) used (by rw [hnext]; rfl)
    rw [getLast?_refreshTokens hrun] at hlatest
    -- The call decides to ask, and is given nothing as it does.
    have hnone : traffic.delivers? moment = none := by
      rw [delivers?, haction]
      show traffic.calls[index]?.bind _ = none
      have hleads := leads_of_event? moment.now hevent
      rw [hnext] at hleads
      obtain ⟨seen, -, hstage, -⟩ := hleads.to_refreshing
      rw [hcaller]
      show caller.stage.delivers? moment.now input = none
      rw [hstage]
      rfl
    rwa [hnone] at hlatest

/-- The endpoint granted what a call has exchanged as it replied to the exchange. -/
def ExchangesKnown (past : List Moment) (traffic : Traffic) : Prop :=
  traffic.Each fun index caller => ∀ record, caller.stage.exchanged? = some record →
    ∃ time grant, ⟨time, .advance index (.reply (.granted grant))⟩ ∈ past ∧
      grant.toRecord none time = some (.ok record)

theorem Reached.exchangesKnown (h : Reached store disk past traffic) :
    ExchangesKnown past traffic := by
  apply h.induction (P := ExchangesKnown)
  · intro stored _ index caller hcaller
    simp at hcaller
  · intro past traffic moment next hreached hknown hstep
    have hlater : traffic.Each fun index caller =>
        ∀ record, caller.stage.exchanged? = some record → ∃ time grant,
          ⟨time, .advance index (.reply (.granted grant))⟩ ∈ past ++ [moment] ∧
            grant.toRecord none time = some (.ok record) := by
      intro index caller hcaller record hrecord
      obtain ⟨time, grant, hreply, hmade⟩ := hknown index caller hcaller record hrecord
      exact ⟨time, grant, List.mem_append_left _ hreply, hmade⟩
    rcases step_cases hstep with ⟨call, -, rfl⟩ |
      ⟨index, input, caller, after, event, haction, hcaller, hevent, rfl⟩
    · exact each_arrive hlater fun record hrecord => by cases call <;> cases hrecord
    · refine each_put (fun record hnext => ?_) fun other held _ => hlater other held
      rcases (leads_of_event? moment.now hevent).exchanged? hnext with hrecord | ⟨grant, rfl, hmade⟩
      · exact hlater index caller hcaller record hrecord
      · cases input_of_reply hevent
        refine ⟨moment.now, grant, List.mem_append_right _ (List.mem_singleton.2 ?_), hmade⟩
        rw [← haction]

/-- Where a call goes that is given the endpoint's reply. -/
theorem step_reply (hstep : traffic.step store moment = some next) {reply : TokenReply}
    (haction : moment.action = .advance index (.reply reply))
    (hcaller : traffic.calls[index]? = some caller) :
    next = traffic.put index caller traffic.disk
      (caller.stage.step moment.now traffic.keeper (.reply reply)) := by
  rcases step_cases hstep with ⟨call, hbegin, -⟩ |
    ⟨other, input, held, after, event, hadvance, hheld, hevent, rfl⟩
  · rw [haction] at hbegin
    cases hbegin
  · rw [haction] at hadvance
    cases hadvance
    rw [hcaller] at hheld
    cases hheld
    rcases event?_cases hevent with ⟨h, -⟩ | ⟨given, h, rfl, rfl⟩ | ⟨_, _, -, h, -⟩ | ⟨_, -, h, -⟩
    · cases h
    · cases h
      rfl
    · cases h
    · cases h

/--
A granted refresh goes on with the refresh token that came, or with the one it used, and it
breaks off if there is no time for the end of the grant.
-/
theorem granted_refresh (hstep : traffic.step store moment = some next) {grant : Grant}
    {used : String} (haction : moment.action = .advance index (.reply (.granted grant)))
    (hcaller : traffic.calls[index]? = some caller) (hstage : caller.stage = .refreshing used) :
    (moment.now.toNat + max grant.expiresIn.toNat 1 < UInt64.size →
      ∃ record, next.calls[index]? = some ⟨caller.call, .refreshStoring record⟩ ∧
        record.refreshToken = grant.refreshToken.getD used ∧ moment.now < record.expiresAt) ∧
    (UInt64.size ≤ moment.now.toNat + max grant.expiresIn.toNat 1 →
      next.calls[index]? = some ⟨caller.call, .broken⟩ ∧
        next.keeper.session = traffic.keeper.session ∧ next.disk = traffic.disk) := by
  rw [step_reply hstep haction hcaller, getElem?_put_self hcaller, hstage]
  rcases grant.toRecord_some used moment.now with ⟨hexpiry, hnone⟩ | ⟨record, hrecord, -, hexpiry⟩
  · have hlong := Grant.expiry?_eq_none.1 hexpiry
    refine ⟨fun hfits => absurd hlong (Nat.not_le.2 hfits), fun _ => ?_⟩
    simp [put, Stage.step, Stage.refresh, hnone, Keeper.release]
  · have hfits := (Grant.expiry?_eq_some.1 hexpiry).1
    refine ⟨fun _ => ⟨record, ?_, ?_, Grant.lt_expiresAt hrecord⟩,
      fun hlong => absurd hfits (Nat.not_lt.2 hlong)⟩
    · simp [Stage.step, Stage.refresh, hrecord]
    · obtain ⟨refreshToken, _, htoken, -, rfl⟩ := Grant.toRecord_eq_ok.1 hrecord
      cases hgrant : grant.refreshToken <;> rw [hgrant] at htoken <;> cases htoken <;> rfl

/--
A granted exchange is refused if no refresh token came.  Else it goes on, or it breaks off if
there is no time for the end of the grant.
-/
theorem granted_exchange (hstep : traffic.step store moment = some next) {grant : Grant}
    {flow : Flow} {code : String}
    (haction : moment.action = .advance index (.reply (.granted grant)))
    (hcaller : traffic.calls[index]? = some caller)
    (hstage : caller.stage = .exchanging flow code) :
    (grant.refreshToken = none → next.keeper = traffic.keeper ∧ next.disk = traffic.disk ∧
      next.calls[index]? = some ⟨caller.call,
        .over (.refused (.exchangeFailed "token response has no refresh_token"))⟩) ∧
    ∀ token, grant.refreshToken = some token →
      (moment.now.toNat + max grant.expiresIn.toNat 1 < UInt64.size →
        ∃ record, next.calls[index]? = some ⟨caller.call, .exchanged flow record⟩ ∧
          record.refreshToken = token ∧ moment.now < record.expiresAt) ∧
      (UInt64.size ≤ moment.now.toNat + max grant.expiresIn.toNat 1 →
        next.calls[index]? = some ⟨caller.call, .broken⟩ ∧ next.keeper = traffic.keeper ∧
          next.disk = traffic.disk) := by
  rw [step_reply hstep haction hcaller, getElem?_put_self hcaller, hstage]
  refine ⟨fun hgrant => ?_, fun token hgrant => ⟨fun hfits => ?_, fun hlong => ?_⟩⟩
  · simp [put, Stage.step, Stage.exchange, Stage.refuse, Grant.toRecord, Grant.tokenless, hgrant]
  · have hmade := Grant.toRecord_eq_ok.2 ⟨token, _, show (grant.refreshToken <|> none) = _ by
      rw [hgrant]; rfl, Grant.expiry?_eq_some.2 ⟨hfits, rfl⟩, rfl⟩
    exact ⟨_, by simp [Stage.step, Stage.exchange, hmade], rfl, Grant.lt_expiresAt hmade⟩
  · have hnone : grant.toRecord none moment.now = none := by
      simp [Grant.toRecord, hgrant, Grant.expiry?_eq_none.2 hlong]
    simp [put, Stage.step, Stage.exchange, hnone]

/--
Every refresh asks with the token that the endpoint delivered last, in a completed exchange or a
refresh that did not break off, or with the loaded one, and while nobody is inside the record in
memory has that token.  A reply to a refresh that brings no token keeps the one in use, a reply
to an exchange that brings none is refused and changes nothing, and an exchanged record has the
token that came.  A record that was granted expires later than now; if the time of its end does
not fit into 64 bits there is no record, and the call breaks off with the session unchanged.
-/
theorem refresh_token_delivered_last (hopen : opened store disk = .ok start)
    (hrun : start.run store past = some traffic)
    (hstep : traffic.step store moment = some next) :
    (∀ index used, next.sent = traffic.sent ++ [(index, .refresh used)] →
      (start.refreshTokens store past).getLast? = some used) ∧
    (∀ record, traffic.keeper.gate = false → traffic.keeper.session.record = some record →
      (start.refreshTokens store past).getLast? = some record.refreshToken) ∧
    (∀ (index : Nat) (caller : Caller) (record : Record), traffic.calls[index]? = some caller →
      caller.stage = .exchangeStored record → ∃ time grant,
        ⟨time, .advance index (.reply (.granted grant))⟩ ∈ past ∧
          grant.refreshToken = some record.refreshToken) ∧
    ∀ (index : Nat) (caller : Caller) (grant : Grant),
      moment.action = .advance index (.reply (.granted grant)) →
      traffic.calls[index]? = some caller →
      (∀ used, caller.stage = .refreshing used →
        (moment.now.toNat + max grant.expiresIn.toNat 1 < UInt64.size →
          ∃ record, next.calls[index]? = some ⟨caller.call, .refreshStoring record⟩ ∧
            record.refreshToken = grant.refreshToken.getD used ∧
            moment.now < record.expiresAt) ∧
        (UInt64.size ≤ moment.now.toNat + max grant.expiresIn.toNat 1 →
          next.calls[index]? = some ⟨caller.call, .broken⟩ ∧
            next.keeper.session = traffic.keeper.session ∧ next.disk = traffic.disk)) ∧
      ∀ flow code, caller.stage = .exchanging flow code →
        (grant.refreshToken = none → next.keeper = traffic.keeper ∧ next.disk = traffic.disk ∧
          next.calls[index]? = some ⟨caller.call,
            .over (.refused (.exchangeFailed "token response has no refresh_token"))⟩) ∧
        ∀ token, grant.refreshToken = some token →
          (moment.now.toNat + max grant.expiresIn.toNat 1 < UInt64.size →
            ∃ record, next.calls[index]? = some ⟨caller.call, .exchanged flow record⟩ ∧
              record.refreshToken = token ∧ moment.now < record.expiresAt) ∧
          (UInt64.size ≤ moment.now.toNat + max grant.expiresIn.toNat 1 →
            next.calls[index]? = some ⟨caller.call, .broken⟩ ∧ next.keeper = traffic.keeper ∧
              next.disk = traffic.disk) := by
  have hreached : Reached store disk past traffic := ⟨start, hopen, hrun⟩
  refine ⟨?_, ?_, ?_, ?_⟩
  · intro index used hsent
    exact latest_of_sent hopen hrun hstep hsent
  · intro record hgate hrecord
    exact (latestKnown_of_run hopen hrun).of_open hreached.guarded hgate hrecord
  · intro index caller record hcaller hstage
    obtain ⟨time, grant, hreply, hmade⟩ :=
      hreached.exchangesKnown index caller hcaller record (by rw [hstage]; rfl)
    obtain ⟨refreshToken, _, htoken, -, rfl⟩ := Grant.toRecord_eq_ok.1 hmade
    exact ⟨time, grant, hreply, by simpa using htoken⟩
  · intro index caller grant haction hcaller
    exact ⟨fun used hstage => granted_refresh hstep haction hcaller hstage,
      fun flow code hstage => granted_exchange hstep haction hcaller hstage⟩

/-- A refresh delivers a new refresh token, and the next refresh delivers none. -/
def tokenRotated : List Moment :=
  shortFlow ++ [.begin .token, .advance 2 .turn, .advance 2 .turn, .advance 2 .turn,
    .advance 2 .turn, .advance 2 .turn,
    .advance 2 (.reply (.granted ⟨"second", some "rotated", 30, none⟩)), .advance 2 (.store none),
    .advance 2 .turn, .advance 2 .turn,
    .begin .token, .advance 3 .turn, .advance 3 .turn, .advance 3 .turn, .advance 3 .turn,
    .advance 3 .turn, .advance 3 (.reply (.granted ⟨"third", none, 30, none⟩)),
    .advance 3 (.store none), .advance 3 .turn, .advance 3 .turn,
    .begin .token, .advance 4 .turn, .advance 4 .turn, .advance 4 .turn,
    .advance 4 .turn].map fun action => ⟨1000, action⟩

set_option maxRecDepth 8000 in
theorem refresh_token_delivered_last_rotated :
    ∃ start traffic next, opened ⟨["tokens.json"]⟩ .empty = .ok start ∧
      start.run ⟨["tokens.json"]⟩ tokenRotated = some traffic ∧
      traffic.step ⟨["tokens.json"]⟩ ⟨1000, .advance 4 .turn⟩ = some next ∧
      next.sent = traffic.sent ++ [(4, .refresh "rotated")] ∧
      (start.refreshTokens ⟨["tokens.json"]⟩ tokenRotated).getLast? = some "rotated" := by
  obtain ⟨start, hopen, traffic, hrun, next, hstep, hsent⟩ :
      ∃ start, opened ⟨["tokens.json"]⟩ .empty = .ok start ∧
      ∃ traffic, start.run ⟨["tokens.json"]⟩ tokenRotated = some traffic ∧
      ∃ next, traffic.step ⟨["tokens.json"]⟩ ⟨1000, .advance 4 .turn⟩ = some next ∧
        next.sent = traffic.sent ++ [(4, .refresh "rotated")] :=
    ⟨_, rfl, _, rfl, _, rfl, rfl⟩
  exact ⟨start, traffic, next, hopen, hrun, hstep, hsent,
    (refresh_token_delivered_last hopen hrun hstep).1 4 "rotated" hsent⟩

/-- A flow's code is exchanged, and the endpoint grants a token for as long as can be said. -/
def longestGrant : List Moment :=
  [.begin (.start ⟨"verifier", "state"⟩), .advance 0 .turn,
    .begin (.complete "code#state"), .advance 1 .turn,
    .advance 1 (.reply (.granted ⟨"first", some "refresh", 18446744073709551615, none⟩))].map
      fun action => ⟨1700000000, action⟩

set_option maxRecDepth 8000 in
/-- There is no time for the end of the grant: the call breaks off, and no record is made. -/
theorem longest_grant_makes_no_record :
    ∃ traffic, Reached ⟨["tokens.json"]⟩ .empty longestGrant traffic ∧
      (1, .exchange "code" "state" "verifier") ∈ traffic.sent ∧
      traffic.calls[1]? = some ⟨.complete "code#state", .broken⟩ ∧
      traffic.keeper.session.record = none :=
  ⟨_, ⟨_, rfl, rfl⟩, by decide, rfl, rfl⟩

end Traffic

end Credential

end ChatGateway
