import ChatGateway.Proofs.CallHistory

/-!
# What becomes of a pending flow

A flow that is pending stays pending until another one replaces it, the credential is lost, or
a call completes a flow.  The call that completes a flow looks at the pending one before it
stores its record, and drops whatever is pending afterwards: a flow that is started while the
record is being stored is dropped with it.
-/

namespace ChatGateway

namespace Credential

namespace Traffic

variable {store : Store} {disk : Disk} {traffic next last : Traffic} {moment : Moment}
  {past later : List Moment} {index : Nat} {caller : Caller} {flow : Flow}

/-- The flow was started while the call was storing the record of its exchange. -/
def StartedAmid (store : Store) (disk : Disk) (past : List Moment) (index : Nat) (flow : Flow) :
    Prop :=
  ∃ before moment after traffic, past = before ++ moment :: after ∧
    Reached store disk before traffic ∧
    (∃ caller, traffic.calls[index]? = some caller ∧ caller.stage.storesExchange = true) ∧
    ∃ other input caller, moment.action = .advance other input ∧
      traffic.calls[other]? = some caller ∧ caller.stage = .starting flow

theorem StartedAmid.append (h : StartedAmid store disk past index flow) (later : List Moment) :
    StartedAmid store disk (past ++ later) index flow := by
  obtain ⟨before, moment, after, traffic, rfl, hrest⟩ := h
  exact ⟨before, moment, after ++ later, traffic, by simp, hrest⟩

/-- While a call stores its record, its own flow is pending, or one that was started meanwhile. -/
def OwnsPending (store : Store) (disk : Disk) (past : List Moment) (traffic : Traffic) : Prop :=
  traffic.Each fun index caller => caller.stage.storesExchange = true →
    ∃ flow, traffic.keeper.session.pending = some flow ∧
      (traffic.Carries index flow ∨ StartedAmid store disk past index flow)

theorem OwnsPending.put (h : OwnsPending store disk past traffic)
    (hreached : Reached store disk past traffic) (hdistinct : traffic.Distinct) {input : Input}
    {event : Event} {after : Disk} (now : UInt64) (hcaller : traffic.calls[index]? = some caller)
    (hevent : traffic.event? store caller.stage.wait input = some (after, event)) :
    OwnsPending store disk (past ++ [⟨now, .advance index input⟩])
      (traffic.put index caller after (caller.stage.step now traffic.keeper event)) := by
  have hknown := hreached.flowsKnown
  have hleads := leads_of_event? now hevent
  have hsession := session_put now index hevent
  apply each_put
  · intro hstores
    -- A call that goes on storing leaves the pending flow alone.
    have hkept : (caller.stage.write traffic.keeper.session).pending =
        traffic.keeper.session.pending := by
      rcases Stage.pending_write caller.stage traffic.keeper.session with
        ⟨started, hstage, -⟩ | ⟨hends, -⟩ | ⟨-, -, hsame⟩
      · rw [hleads.of_starting hstage] at hstores
        cases hstores
      · rcases hleads.of_endsFlow hends with ⟨outcome, hnext⟩ | ⟨answer, hnext⟩ <;>
          · rw [hnext] at hstores
            cases hstores
      · exact hsame
    rw [hsession, hkept]
    rcases hleads.storesExchange hstores with
      hstoring | ⟨own, record, flow, hstage, hpending, hstate⟩
    · obtain ⟨flow, hpending, hcarries | hamid⟩ := h index caller hcaller hstoring
      · exact ⟨flow, hpending, .inl (carries_put.2 (.inl hcarries))⟩
      · exact ⟨flow, hpending, .inr (hamid.append _)⟩
    · have hcarries := hknown.carries index caller hcaller own (by rw [hstage]; rfl)
      have heq := (hknown.begun hcarries).eq (hknown.pending hpending) hdistinct hstate
      exact ⟨flow, hpending, .inl (carries_put.2 (.inl (heq ▸ hcarries)))⟩
  · intro other held hne hheld hstores
    have hout := hreached.guarded.outside hcaller hheld hne
      (Stage.inside_of_storesExchange hstores)
    rw [hsession]
    rcases Stage.pending_write caller.stage traffic.keeper.session with
      ⟨started, hstage, hwrite⟩ | ⟨hends, -⟩ | ⟨-, -, hsame⟩
    · exact ⟨started, hwrite, .inr ⟨past, _, [], traffic, rfl, hreached,
        ⟨held, hheld, hstores⟩, index, input, caller, rfl, hcaller, hstage⟩⟩
    · rw [Stage.inside_of_endsFlow hends] at hout
      cases hout
    · rw [hsame]
      obtain ⟨flow, hpending, hcarries | hamid⟩ := h other held hheld hstores
      · exact ⟨flow, hpending, .inl (carries_put.2 (.inl hcarries))⟩
      · exact ⟨flow, hpending, .inr (hamid.append _)⟩

theorem Reached.ownsPending (h : Reached store disk past traffic) (hdistinct : traffic.Distinct) :
    OwnsPending store disk past traffic := by
  apply h.induction (P := fun past traffic => traffic.Distinct →
    OwnsPending store disk past traffic) _ _ hdistinct
  · intro stored _ _ index caller hcaller
    simp at hcaller
  · intro past traffic moment next hreached ih hstep hdistinct
    have hbefore := hdistinct.of_step hstep
    rcases step_cases hstep with ⟨call, -, rfl⟩ |
      ⟨index, input, caller, after, event, haction, hcaller, hevent, rfl⟩
    · apply each_arrive
      · intro index caller hcaller hstores
        obtain ⟨flow, hpending, hown⟩ := ih hbefore index caller hcaller hstores
        exact ⟨flow, hpending, hown.imp_right fun hamid => hamid.append _⟩
      · intro hstores
        cases call <;> cases hstores
    · rw [show moment = ⟨moment.now, .advance index input⟩ by rw [← haction]]
      exact (ih hbefore).put hreached hbefore moment.now hcaller hevent

/-- A call that has sent its code does not send another one. -/
theorem carries_of_run (hrun : traffic.run store later = some last)
    (hcaller : traffic.calls[index]? = some caller) (hsent : caller.stage.rank < 6)
    (hcarries : last.Carries index flow) : traffic.Carries index flow := by
  have hback : last.Carries index flow → traffic.Carries index flow := by
    apply run_induction (P := fun _ last => last.Carries index flow → traffic.Carries index flow)
      id _ hrun
    intro before now moment next hbefore ih hstep hcarries
    rcases step_cases hstep with ⟨call, -, rfl⟩ |
      ⟨other, input, held, after, event, -, hheld, hevent, rfl⟩
    · exact ih hcarries
    · rcases carries_put.1 hcarries with hcarries | ⟨rfl, code, hnext⟩
      · exact ih hcarries
      · obtain ⟨same, hsame, -, hrank⟩ := run_call hbefore hcaller
        rw [hheld] at hsame
        cases hsame
        have hleads := leads_of_event? moment.now hevent
        rw [hnext] at hleads
        obtain ⟨-, pasted, hstage⟩ := hleads.of_exchange
        have hsending : 6 ≤ caller.stage.rank := by
          rw [hstage] at hrank
          exact hrank
        omega
  exact hback hcarries

/-- The flow whose code a call sent was not started while the call stored its record. -/
theorem Reached.not_startedAmid (h : Reached store disk past traffic)
    (hdistinct : traffic.Distinct) (hcarries : traffic.Carries index flow) :
    ¬ StartedAmid store disk past index flow := by
  rintro ⟨before, moment, after, amid, rfl, hamid, ⟨caller, hcaller, hstores⟩, other, input,
    starter, -, hstarter, hstage⟩
  obtain ⟨start, hopen, hrun⟩ := h
  obtain ⟨start', hopen', hbefore⟩ := id hamid
  rw [hopen] at hopen'
  cases hopen'
  rw [run_append, hbefore] at hrun
  have hsent : caller.stage.rank < 6 := by
    cases hcase : caller.stage <;> simp_all [Stage.storesExchange, Stage.rank]
  have hbegun := hamid.flowsKnown.begun (carries_of_run hrun hcaller hsent hcarries)
  exact hbegun.state_ne (hdistinct.of_run hrun) hstarter hstage
    (hamid.each_of other starter hstarter) rfl

/-- How a flow ceases to be pending as a call goes on. -/
inductive Ended (store : Store) (disk : Disk) (past : List Moment) (traffic next : Traffic)
    (flow : Flow) (index : Nat) (caller : Caller) : Prop where
  | replaced {later : Flow} (hstage : caller.stage = .starting later)
      (hpending : next.keeper.session.pending = some later)
  | loggedOut (hstage : caller.stage = .logoutCleared)
      (hpending : next.keeper.session.pending = none)
  | rejected {reason : String} (hstage : caller.stage = .refreshCleared reason)
      (hpending : next.keeper.session.pending = none)
  | completed {record : Record} (hstage : caller.stage = .exchangeStored record)
      (hnext : next.calls[index]? = some ⟨caller.call, .over (.completed record)⟩)
      (hown : traffic.Carries index flow)
  /-- The call completes another flow, and this one was started after it had looked. -/
  | overtaken {record : Record} (hstage : caller.stage = .exchangeStored record)
      (hnext : next.calls[index]? = some ⟨caller.call, .over (.completed record)⟩)
      (hother : ¬ traffic.Carries index flow) (hamid : StartedAmid store disk past index flow)

theorem ended_of_step (h : Reached store disk past traffic) (hdistinct : traffic.Distinct)
    (hstep : traffic.step store moment = some next)
    (hpending : traffic.keeper.session.pending = some flow)
    (hdropped : next.keeper.session.pending ≠ some flow) :
    ∃ index input caller, moment.action = .advance index input ∧
      traffic.calls[index]? = some caller ∧
      Ended store disk past traffic next flow index caller := by
  rcases step_cases hstep with ⟨call, -, rfl⟩ |
    ⟨index, input, caller, after, event, haction, hcaller, hevent, hput⟩
  · exact (hdropped hpending).elim
  refine ⟨index, input, caller, haction, hcaller, ?_⟩
  have hsession : next.keeper.session = caller.stage.write traffic.keeper.session := by
    rw [hput, session_put moment.now index hevent]
  rcases Stage.pending_write caller.stage traffic.keeper.session with
    ⟨later, hstage, hwrite⟩ | ⟨hends, hwrite⟩ | ⟨-, -, hsame⟩
  · exact .replaced hstage (by rw [hsession, hwrite])
  · rw [← hsession] at hwrite
    cases hstage : caller.stage with
    | logoutCleared => exact .loggedOut hstage hwrite
    | refreshCleared reason => exact .rejected hstage hwrite
    | exchangeStored record =>
        have hover : next.calls[index]? = some ⟨caller.call, .over (.completed record)⟩ := by
          rw [hput, getElem?_put_self hcaller,
            (leads_of_event? moment.now hevent).of_exchangeStored hstage]
        obtain ⟨held, hheld, hown⟩ := h.ownsPending hdistinct index caller hcaller
          (by rw [hstage]; rfl)
        rw [hpending] at hheld
        cases hheld
        rcases hown with hown | hamid
        · exact .completed hstage hover hown
        · exact .overtaken hstage hover (fun hown => h.not_startedAmid hdistinct hown hamid) hamid
    | _ =>
        rw [hstage] at hends
        cases hends
  · rw [hsession, hsame] at hdropped
    exact (hdropped hpending).elim

/--
A pending flow stays pending until another flow is started, a logout or a rejected refresh
empties the session, the flow itself is completed, or another one is whose record was being
stored when this one was started.
-/
theorem pending_until_ended (h : Reached store disk past traffic)
    (hpending : traffic.keeper.session.pending = some flow)
    (hrun : traffic.run store later = some last) (hdistinct : last.Distinct) :
    last.keeper.session.pending = some flow ∨
    ∃ before moment after amid next index input caller, later = before ++ moment :: after ∧
      traffic.run store before = some amid ∧ amid.keeper.session.pending = some flow ∧
      amid.step store moment = some next ∧ next.run store after = some last ∧
      moment.action = .advance index input ∧ amid.calls[index]? = some caller ∧
      Ended store disk (past ++ before) amid next flow index caller := by
  induction later generalizing past traffic with
  | nil =>
      cases hrun
      exact .inl hpending
  | cons moment rest ih =>
      have hrun' := hrun
      rw [run_cons] at hrun
      obtain ⟨next, hstep, hrest⟩ := Option.bind_eq_some_iff.1 hrun
      by_cases hkept : next.keeper.session.pending = some flow
      · rcases ih (h.step hstep) hkept hrest with hlast |
          ⟨before, moment', after, amid, final, index, input, caller, rfl, hamid, hstays, hends,
            hafter, haction, hcaller, hended⟩
        · exact .inl hlast
        · rw [List.append_assoc, List.singleton_append] at hended
          refine .inr ⟨moment :: before, moment', after, amid, final, index, input, caller, rfl, ?_,
            hstays, hends, hafter, haction, hcaller, hended⟩
          rw [run_cons, hstep]
          exact hamid
      · obtain ⟨index, input, caller, haction, hcaller, hended⟩ :=
          ended_of_step h (hdistinct.of_run hrun') hstep hpending hkept
        refine .inr ⟨[], moment, rest, traffic, next, index, input, caller, rfl, rfl, hpending,
          hstep, hrest, haction, hcaller, ?_⟩
        rw [List.append_nil]
        exact hended

/-- A flow is begun while the record of an older one is being stored. -/
def restartAmid : List Moment :=
  [.begin (.start ⟨"verifier", "older"⟩), .advance 0 .turn, .begin (.complete "code#older"),
    .advance 1 .turn, .advance 1 (.reply (.granted ⟨"access", some "refresh", 3600, none⟩)),
    .advance 1 .turn, .advance 1 .turn, .begin (.start ⟨"verifier", "newer"⟩), .advance 2 .turn,
    .advance 1 (.store none)].map fun action => ⟨1000, action⟩

set_option maxRecDepth 8000 in
/-- The older flow is completed, and the newer one is dropped. -/
theorem newer_flow_dropped :
    ∃ traffic next : Traffic, Reached ⟨["tokens.json"]⟩ .empty restartAmid traffic ∧
      traffic.keeper.session.pending = some ⟨"verifier", "newer"⟩ ∧
      traffic.step ⟨["tokens.json"]⟩ ⟨1000, .advance 1 .turn⟩ = some next ∧
      next.keeper.session.pending = none ∧
      next.calls = [⟨.start ⟨"verifier", "older"⟩, .over (.started ⟨"verifier", "older"⟩)⟩,
        ⟨.complete "code#older", .over (.completed ⟨"access", "refresh", "Bearer", 4600⟩)⟩,
        ⟨.start ⟨"verifier", "newer"⟩, .over (.started ⟨"verifier", "newer"⟩)⟩] :=
  ⟨_, _, ⟨_, rfl, rfl⟩, rfl, rfl, rfl, rfl⟩

set_option maxRecDepth 8000 in
theorem pending_until_ended_amid :
    ∃ traffic next caller, Reached ⟨["tokens.json"]⟩ .empty restartAmid traffic ∧
      traffic.run ⟨["tokens.json"]⟩ [⟨1000, .advance 1 .turn⟩] = some next ∧
      traffic.calls[1]? = some caller ∧
      Ended ⟨["tokens.json"]⟩ .empty restartAmid traffic next ⟨"verifier", "newer"⟩ 1 caller := by
  obtain ⟨traffic, next, hreached, hpending, hrun, hnone, hcalls⟩ :
      ∃ traffic next : Traffic, Reached ⟨["tokens.json"]⟩ .empty restartAmid traffic ∧
        traffic.keeper.session.pending = some ⟨"verifier", "newer"⟩ ∧
        traffic.run ⟨["tokens.json"]⟩ [⟨1000, .advance 1 .turn⟩] = some next ∧
        next.keeper.session.pending = none ∧
        next.calls.map Caller.call = [.start ⟨"verifier", "older"⟩, .complete "code#older",
          .start ⟨"verifier", "newer"⟩] :=
    ⟨_, _, ⟨_, rfl, rfl⟩, rfl, rfl, rfl, rfl⟩
  have hdistinct : next.Distinct := by
    unfold Distinct
    rw [hcalls]
    decide
  rcases pending_until_ended hreached hpending hrun hdistinct with hkept |
    ⟨before, moment, after, amid, final, index, input, caller, hlater, hbefore, -, hstep, hafter,
      haction, hcaller, hended⟩
  · rw [hnone] at hkept
    cases hkept
  -- There is no more than one moment in which the flow can have ended.
  · obtain ⟨rfl, hlater⟩ | ⟨_, -, hlater⟩ := List.cons_eq_append_iff.1 hlater
    · cases hlater
      cases hbefore
      cases hafter
      cases haction
      rw [List.append_nil] at hended
      exact ⟨traffic, next, caller, hreached, hrun, hcaller, hended⟩
    · exact (List.append_ne_nil_of_right_ne_nil _ (List.cons_ne_nil _ _) hlater.symm).elim

end Traffic

end Credential

end ChatGateway
