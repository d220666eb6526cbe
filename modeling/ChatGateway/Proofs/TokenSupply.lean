import ChatGateway.Proofs.CallHistory

/-!
# Where a token comes from

A caller is given the token of the record in memory if that is fresh, and else a token that
the endpoint granted: to the refresh of the caller, or to one that the caller queued behind.
The endpoint's token is handed out however long it is good for.
-/

namespace ChatGateway

namespace Credential

theorem Grant.toNat_max_expiresIn (grant : Grant) :
    (max grant.expiresIn 1).toNat = max grant.expiresIn.toNat 1 := by
  show (if grant.expiresIn ≤ 1 then (1 : UInt64) else grant.expiresIn).toNat = _
  split
  next hle => exact (Nat.max_eq_right (UInt64.le_iff_toNat_le.1 hle)).symm
  next hlt =>
    have hlt : 1 < grant.expiresIn.toNat := UInt64.lt_iff_toNat_lt.1 (UInt64.not_le.1 hlt)
    omega

theorem Grant.toNat_of_expiry? {grant : Grant} {now expiresAt : UInt64}
    (h : grant.expiry? now = some expiresAt) :
    expiresAt.toNat = now.toNat + max grant.expiresIn.toNat 1 := by
  obtain ⟨hfits, rfl⟩ := Grant.expiry?_eq_some.1 h
  rw [UInt64.toNat_add, grant.toNat_max_expiresIn, Nat.mod_eq_of_lt hfits]

/-- A record is fresh as it is granted exactly if it is good for longer than the margin. -/
theorem Grant.isFresh_of_toRecord {grant : Grant} {used : String} {time : UInt64} {record : Record}
    (h : grant.toRecord (some used) time = some (.ok record)) :
    record.isFresh time Record.safetyMargin = true ↔ Record.safetyMargin < grant.expiresIn := by
  obtain ⟨refreshToken, expiresAt, -, hexpiry, rfl⟩ := Grant.toRecord_eq_ok.1 h
  have hsum := Grant.toNat_of_expiry? hexpiry
  have hnot : ¬ expiresAt ≤ time := by
    rw [UInt64.le_iff_toNat_le]
    omega
  rw [Record.isFresh, Record.remaining, if_neg hnot, decide_eq_true_iff, UInt64.lt_iff_toNat_lt,
    UInt64.lt_iff_toNat_lt, UInt64.toNat_sub_of_le _ _ (UInt64.le_of_lt (UInt64.not_le.1 hnot)),
    hsum]
  show 60 < _ ↔ 60 < _
  omega

namespace Stage

variable {now : UInt64} {keeper : Keeper} {stage next : Stage} {event : Event}

/-- Only a call inside changes the record. -/
theorem record_write_of_outside (h : stage.inside = false) (session : Session) :
    (stage.write session).record = session.record := by
  cases stage <;> simp_all [inside, write, Session.begin]

/-- The record that the endpoint granted to a refresh which is not yet in memory. -/
def granted? : Stage -> Option Record
  | .refreshStoring record | .refreshStored record _ => some record
  | _ => none

theorem Leads.granted? {record : Record} (h : Leads now keeper stage event next)
    (hgranted : next.granted? = some record) :
    stage.granted? = some record ∨ ∃ used grant, stage = .refreshing used ∧
      event = .reply (.granted grant) ∧ grant.toRecord (some used) now = some (.ok record) := by
  cases h <;> simp_all [Stage.granted?]

theorem Leads.of_refreshed {value : String} (h : Leads now keeper stage event next)
    (hnext : next = .refreshed (.ok value)) :
    ∃ record stored, stage = .refreshStored record stored ∧ record.accessToken = value := by
  cases h <;> simp_all

/-- The ways in which a call is given a token. -/
theorem Leads.of_token {value : String} (h : Leads now keeper stage event next)
    (hnext : next = .over (.token value)) :
    (∃ record, keeper.session.record = some record ∧
      record.isFresh now Record.safetyMargin = true ∧ record.accessToken = value) ∨
    (∃ seen held, stage = .refreshDeciding seen ∧ keeper.generation ≠ seen ∧
      keeper.session.record = some held ∧ held.isFresh now Record.safetyMargin = false ∧
      keeper.lastRefresh = some (.ok value)) ∨
    stage = .refreshed (.ok value) := by
  have houtcome : ∀ {outcome}, Stage.over (.ofRefresh outcome) = Stage.over (.token value) →
      outcome = .ok value := by
    intro outcome heq
    cases outcome <;> simp_all [Answer.ofRefresh]
  cases h with
  | lookFresh hrecord hfresh | decideFresh hrecord hfresh =>
      exact .inl ⟨_, hrecord, hfresh, by simpa using hnext⟩
  | share hrecord hfresh hseen hlast =>
      exact .inr (.inl ⟨_, _, rfl, hseen, hrecord, hfresh, houtcome hnext ▸ hlast⟩)
  | settle => exact .inr (.inr (by rw [houtcome hnext]))
  | _ => cases hnext

end Stage

namespace Traffic

variable {store : Store} {disk : Disk} {traffic next : Traffic} {moment : Moment}
  {past : List Moment}

/-- The endpoint granted the record as it replied to the refresh of the call. -/
def Granted (past : List Moment) (traffic : Traffic) (index : Nat) (time : UInt64) (grant : Grant)
    (record : Record) : Prop :=
  ∃ used, (index, TokenRequest.refresh used) ∈ traffic.sent ∧
    ⟨time, .advance index (.reply (.granted grant))⟩ ∈ past ∧
    grant.toRecord (some used) time = some (.ok record)

theorem Granted.later {index : Nat} {time : UInt64} {grant : Grant} {record : Record}
    (h : Granted past traffic index time grant record) (later : List Moment)
    (hsent : ∀ entry ∈ traffic.sent, entry ∈ next.sent) :
    Granted (past ++ later) next index time grant record := by
  obtain ⟨used, hused, hreply, hrecord⟩ := h
  exact ⟨used, hsent _ hused, List.mem_append_left _ hreply, hrecord⟩

/-- What is known in a run of the tokens that the endpoint granted. -/
structure GrantsKnown (past : List Moment) (traffic : Traffic) : Prop where
  sent : traffic.Each fun index caller =>
    ∀ used, caller.stage = .refreshing used → (index, .refresh used) ∈ traffic.sent
  granted : traffic.Each fun index caller => ∀ record, caller.stage.granted? = some record →
    ∃ time grant, Granted past traffic index time grant record
  refreshed : traffic.Each fun index caller => ∀ value, caller.stage = .refreshed (.ok value) →
    ∃ time grant record, Granted past traffic index time grant record ∧
      record.accessToken = value ∧ traffic.keeper.session.record = some record
  settled : ∀ {index value}, (index, .ok value) ∈ traffic.settled →
    ∃ time grant record, Granted past traffic index time grant record ∧ record.accessToken = value
  last : traffic.keeper.lastRefresh = traffic.settled.getLast?.map Prod.snd

theorem GrantsKnown.arrive (h : traffic.GrantsKnown past) (moment : Moment) (call : Call) :
    (traffic.arrive call).GrantsKnown (past ++ [moment]) where
  sent := by
    apply each_arrive h.sent
    intro used hstage
    cases call <;> cases hstage
  granted := by
    apply each_arrive
    · intro index caller hcaller record hrecord
      obtain ⟨time, grant, hgranted⟩ := h.granted index caller hcaller record hrecord
      exact ⟨time, grant, hgranted.later _ fun _ => id⟩
    · intro record hrecord
      cases call <;> cases hrecord
  refreshed := by
    apply each_arrive
    · intro index caller hcaller value hstage
      obtain ⟨time, grant, record, hgranted, hrest⟩ := h.refreshed index caller hcaller value hstage
      exact ⟨time, grant, record, hgranted.later _ fun _ => id, hrest⟩
    · intro value hstage
      cases call <;> cases hstage
  settled hsettled := by
    obtain ⟨time, grant, record, hgranted, hvalue⟩ := h.settled hsettled
    exact ⟨time, grant, record, hgranted.later _ fun _ => id, hvalue⟩
  last := h.last

theorem GrantsKnown.put (h : traffic.GrantsKnown past) (hguarded : traffic.Guarded) {index : Nat}
    {caller : Caller} {input : Input} {event : Event} (now : UInt64)
    (hcaller : traffic.calls[index]? = some caller)
    (hevent : traffic.event? store caller.stage.wait input = some (disk, event)) :
    (traffic.put index caller disk (caller.stage.step now traffic.keeper event)).GrantsKnown
      (past ++ [⟨now, .advance index input⟩]) := by
  have hleads := leads_of_event? now hevent
  have hsent : ∀ entry ∈ traffic.sent, entry ∈
      (traffic.put index caller disk (caller.stage.step now traffic.keeper event)).sent :=
    fun entry hentry => List.mem_append_left _ hentry
  refine ⟨?_, ?_, ?_, ?_, ?_⟩
  · apply each_put
    · intro used hnext
      apply mem_sent_put.2 (.inr ⟨rfl, _⟩)
      rw [show (caller.stage.step now traffic.keeper event).2 = .refreshing used from hnext]
      rfl
    · intro other held _ hheld used hstage
      exact hsent _ (h.sent other held hheld used hstage)
  · apply each_put
    · intro record hrecord
      rcases hleads.granted? hrecord with hrecord | ⟨used, grant, hstage, rfl, hmade⟩
      · obtain ⟨time, grant, hgranted⟩ := h.granted index caller hcaller record hrecord
        exact ⟨time, grant, hgranted.later _ hsent⟩
      · refine ⟨now, grant, used, hsent _ (h.sent index caller hcaller used hstage), ?_, hmade⟩
        cases input_of_reply hevent
        exact List.mem_append_right _ (List.mem_singleton_self _)
    · intro other held _ hheld record hrecord
      obtain ⟨time, grant, hgranted⟩ := h.granted other held hheld record hrecord
      exact ⟨time, grant, hgranted.later _ hsent⟩
  · apply each_put
    · intro value hnext
      obtain ⟨record, stored, hstage, hvalue⟩ := hleads.of_refreshed hnext
      obtain ⟨time, grant, hgranted⟩ := h.granted index caller hcaller record (by rw [hstage]; rfl)
      refine ⟨time, grant, record, hgranted.later _ hsent, hvalue, ?_⟩
      rw [session_put now index hevent, hstage]
      rfl
    · intro other held hne hheld value hstage
      obtain ⟨time, grant, record, hgranted, hvalue, hrecord⟩ :=
        h.refreshed other held hheld value hstage
      refine ⟨time, grant, record, hgranted.later _ hsent, hvalue, ?_⟩
      have hin : held.stage.inside = true := by
        rw [hstage]
        rfl
      obtain ⟨hout, -⟩ := hguarded.stays_outside now hcaller hheld hne hin hevent
      rw [session_put now index hevent, Stage.record_write_of_outside hout, hrecord]
  · intro other value hsettled
    rcases List.mem_append.1 hsettled with hsettled | hsettled
    · obtain ⟨time, grant, record, hgranted, hvalue⟩ := h.settled hsettled
      exact ⟨time, grant, record, hgranted.later _ hsent, hvalue⟩
    · obtain ⟨outcome, hsettling, heq⟩ := List.mem_map.1 hsettled
      cases heq
      have hstage := Stage.settling?_eq_some.1 (Option.mem_toList.1 hsettling)
      obtain ⟨time, grant, record, hgranted, hvalue, -⟩ :=
        h.refreshed index caller hcaller value hstage
      exact ⟨time, grant, record, hgranted.later _ hsent, hvalue⟩
  · have hlast : (traffic.put index caller disk
        (caller.stage.step now traffic.keeper event)).keeper.lastRefresh = _ :=
      congrArg Keeper.lastRefresh (Stage.keeper_step _ _ (admits_of_event? hevent).1)
    rw [hlast]
    show caller.stage.settling?.or traffic.keeper.lastRefresh =
      (traffic.settled ++ caller.stage.settling?.toList.map fun outcome =>
        (index, outcome)).getLast?.map Prod.snd
    rw [h.last]
    cases caller.stage.settling? with
    | none => simp
    | some outcome => simp

theorem Reached.grantsKnown (h : Reached store disk past traffic) : traffic.GrantsKnown past := by
  apply h.induction (P := fun past traffic => traffic.GrantsKnown past)
  · intro stored _
    refine ⟨?_, ?_, ?_, ?_, rfl⟩
    · intro index caller hcaller
      simp at hcaller
    · intro index caller hcaller
      simp at hcaller
    · intro index caller hcaller
      simp at hcaller
    · intro index value hsettled
      cases hsettled
  · intro past traffic moment next hreached hknown hstep
    rcases step_cases hstep with ⟨call, -, rfl⟩ |
      ⟨index, input, caller, disk, event, haction, hcaller, hevent, rfl⟩
    · exact hknown.arrive moment call
    · rw [show moment = ⟨moment.now, .advance index input⟩ by rw [← haction]]
      exact hknown.put hreached.guarded moment.now hcaller hevent

/--
A token comes from the record in memory, found fresh as the caller looks, or the endpoint has
granted it.  In that case the caller's own refresh has just brought it into memory, or it is
the outcome of the last refresh, settled since the caller looked, and no fresh record has come
into memory.  Nobody looks whether a granted token is good for longer than the margin.
-/
theorem token_fresh_or_granted (h : Reached store disk past traffic) {now : UInt64} {index : Nat}
    {input : Input} (hstep : traffic.step store ⟨now, .advance index input⟩ = some next)
    {call : Call} {value : String}
    (hgiven : next.calls[index]? = some ⟨call, .over (.token value)⟩) :
    (∃ record, traffic.keeper.session.record = some record ∧ record.accessToken = value ∧
      record.isFresh now Record.safetyMargin = true) ∨
    ∃ other time grant record, Granted past traffic other time grant record ∧
      record.accessToken = value ∧
      (record.isFresh time Record.safetyMargin = true ↔
        Record.safetyMargin < grant.expiresIn) ∧
      (other = index ∧ traffic.keeper.session.record = some record ∨
        traffic.settled.getLast? = some (other, .ok value) ∧
          ∃ seen held, traffic.calls[index]? = some ⟨call, .refreshDeciding seen⟩ ∧
            traffic.keeper.generation ≠ seen ∧ traffic.keeper.session.record = some held ∧
            held.isFresh now Record.safetyMargin = false) := by
  have hknown := h.grantsKnown
  rcases step_cases hstep with ⟨_, haction, -⟩ |
    ⟨index, input, caller, disk, event, haction, hcaller, hevent, rfl⟩
  · cases haction
  cases haction
  rw [getElem?_put_self hcaller] at hgiven
  obtain ⟨hcall, hnext⟩ := Caller.mk.inj (Option.some.inj hgiven)
  have hmargin : ∀ {other time grant record}, Granted past traffic other time grant record →
      (record.isFresh time Record.safetyMargin = true ↔
        Record.safetyMargin < grant.expiresIn) := by
    rintro other time grant record ⟨used, -, -, hmade⟩
    exact Grant.isFresh_of_toRecord hmade
  rcases (leads_of_event? now hevent).of_token hnext with
    ⟨record, hrecord, hfresh, hvalue⟩ | ⟨seen, held, hstage, hseen, hheld, hstale, hlast⟩ | hstage
  · exact .inl ⟨record, hrecord, hvalue, hfresh⟩
  · rw [hknown.last] at hlast
    obtain ⟨⟨other, outcome⟩, hsettled, rfl⟩ := Option.map_eq_some_iff.1 hlast
    obtain ⟨time, grant, record, hgranted, hvalue⟩ :=
      hknown.settled (List.mem_of_getLast? hsettled)
    refine .inr ⟨other, time, grant, record, hgranted, hvalue, hmargin hgranted, .inr ?_⟩
    refine ⟨hsettled, seen, held, ?_, hseen, hheld, hstale⟩
    rw [hcaller, ← hcall, ← hstage]
  · obtain ⟨time, grant, record, hgranted, hvalue, hrecord⟩ :=
      hknown.refreshed index caller hcaller value hstage
    exact .inr ⟨index, time, grant, record, hgranted, hvalue, hmargin hgranted,
      .inl ⟨rfl, hrecord⟩⟩

/-- A flow is completed, and the endpoint grants a token for 30 seconds. -/
def shortFlow : List Moment :=
  [.begin (.start ⟨"verifier", "state"⟩), .advance 0 .turn,
    .begin (.complete "code#state"), .advance 1 .turn,
    .advance 1 (.reply (.granted ⟨"first", some "refresh", 30, none⟩)), .advance 1 .turn,
    .advance 1 .turn, .advance 1 (.store none), .advance 1 .turn].map fun action => ⟨1000, action⟩

/-- The record is refreshed at once, and the endpoint grants a token for 30 seconds again. -/
def shortGrants : List Moment :=
  shortFlow ++ [.begin .token, .advance 2 .turn, .advance 2 .turn, .advance 2 .turn,
    .advance 2 .turn, .advance 2 .turn, .advance 2 (.reply (.granted ⟨"short", none, 30, none⟩)),
    .advance 2 (.store none), .advance 2 .turn].map fun action => ⟨1000, action⟩

set_option maxRecDepth 8000 in
/-- The token of a record with 30 seconds left is handed out. -/
theorem short_grant_handed_out :
    ∃ traffic next record, Reached ⟨["tokens.json"]⟩ .empty shortGrants traffic ∧
      traffic.step ⟨["tokens.json"]⟩ ⟨1000, .advance 2 .turn⟩ = some next ∧
      next.calls[2]? = some ⟨.token, .over (.token "short")⟩ ∧
      next.keeper.session.record = some record ∧ record.accessToken = "short" ∧
      record.remaining 1000 = 30 ∧ record.isFresh 1000 Record.safetyMargin = false :=
  ⟨_, _, _, ⟨_, rfl, rfl⟩, rfl, rfl, rfl, rfl, rfl, rfl⟩

set_option maxRecDepth 8000 in
theorem token_fresh_or_granted_short :
    ∃ traffic next, Reached ⟨["tokens.json"]⟩ .empty shortGrants traffic ∧
      traffic.step ⟨["tokens.json"]⟩ ⟨1000, .advance 2 .turn⟩ = some next ∧
      ∃ other time grant record, Granted shortGrants traffic other time grant record ∧
        record.accessToken = "short" := by
  obtain ⟨traffic, hreached, next, hstep, hgiven, hstale⟩ :
      ∃ traffic, Reached ⟨["tokens.json"]⟩ .empty shortGrants traffic ∧
      ∃ next, traffic.step ⟨["tokens.json"]⟩ ⟨1000, .advance 2 .turn⟩ = some next ∧
      next.calls[2]? = some ⟨.token, .over (.token "short")⟩ ∧
      (traffic.keeper.session.record.map fun record =>
        record.isFresh 1000 Record.safetyMargin) = some false :=
    ⟨_, ⟨_, rfl, rfl⟩, _, rfl, rfl, rfl⟩
  refine ⟨traffic, next, hreached, hstep, ?_⟩
  rcases token_fresh_or_granted hreached hstep hgiven with
    ⟨record, hrecord, -, hfresh⟩ | ⟨other, time, grant, record, hgranted, hvalue, -⟩
  · rw [hrecord, Option.map_some, hfresh] at hstale
    cases hstale
  · exact ⟨other, time, grant, record, hgranted, hvalue⟩

end Traffic

end Credential

end ChatGateway
