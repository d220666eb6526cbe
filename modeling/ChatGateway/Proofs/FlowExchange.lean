import ChatGateway.Proofs.Challenge
import ChatGateway.Proofs.LogoutFinal

/-!
# The exchange of a flow

A code is exchanged with the verifier of the flow that was pending as the operator pasted it, and
the pasted state is that flow's.  Any number of calls may exchange codes of one flow side by side;
the first of them to come inside and to have its record stored takes the flow, and the others
find it gone.
-/

namespace ChatGateway

namespace Credential

namespace Stage

variable {now : UInt64} {keeper : Keeper} {stage next : Stage} {event : Event}

/-- What is exchanged is what was pasted. -/
theorem Leads.of_exchanging {flow : Flow} {code : String}
    (h : Leads now keeper stage event (.exchanging flow code)) :
    ∃ pasted, stage = .completing pasted ∧ Pasted.read pasted = .ok ⟨code, flow.state⟩ := by
  cases h with
  | @exchange pasted read _ hread _ hstate =>
      refine ⟨pasted, rfl, ?_⟩
      rw [hread, ← hstate]

theorem call_of_completing {call : Call} {pasted : String} (hstage : stage = .completing pasted)
    (hof : stage.Of call) : call = .complete pasted := by
  cases call <;> simp_all [Of]

theorem storesExchange_of_exchangeStored {record : Record}
    (h : stage = .exchangeStored record) : stage.storesExchange = true := by
  rw [h]
  rfl

end Stage

namespace Traffic

variable {store : Store} {disk after : Disk} {traffic next : Traffic} {moment : Moment}
  {past : List Moment} {index : Nat} {caller : Caller} {flow : Flow}

/-! ## What was pasted -/

/-- The code of every exchange was pasted, with the state of its flow. -/
def SentPasted (traffic : Traffic) : Prop :=
  ∀ index code state verifier, (index, TokenRequest.exchange code state verifier) ∈ traffic.sent →
    ∃ pasted stage, traffic.calls[index]? = some ⟨.complete pasted, stage⟩ ∧
      Pasted.read pasted = .ok ⟨code, state⟩

theorem SentPasted.put (h : traffic.SentPasted) {input : Input} {event : Event} (now : UInt64)
    (hcaller : traffic.calls[index]? = some caller) (hof : caller.stage.Of caller.call)
    (hevent : traffic.event? store caller.stage.wait input = some (after, event)) :
    (traffic.put index caller after
      (caller.stage.step now traffic.keeper event)).SentPasted := by
  intro other code state verifier hsent
  rcases mem_sent_put.1 hsent with hsent | ⟨rfl, hrequest⟩
  · obtain ⟨pasted, stage, hheld, hread⟩ := h other code state verifier hsent
    obtain ⟨⟨call, stepped⟩, hstepped, hcall, -⟩ :=
      step_call (step_advance now hcaller hevent) hheld
    cases hcall
    exact ⟨pasted, stepped, hstepped, hread⟩
  · have hstepped := getElem?_put_self hcaller after
      (caller.stage.step now traffic.keeper event)
    have hleads := leads_of_event? now hevent
    rw [Stage.request?_eq_exchange hrequest] at hleads
    obtain ⟨pasted, hstage, hread⟩ := hleads.of_exchanging
    rw [Stage.call_of_completing hstage hof] at hstepped
    exact ⟨pasted, _, hstepped, hread⟩

theorem Reached.sentPasted (h : Reached store disk past traffic) : traffic.SentPasted := by
  apply h.induction (P := fun _ traffic => traffic.SentPasted)
  · intro stored _ index code state verifier hsent
    simp at hsent
  · intro past traffic moment next hreached hpasted hstep
    rcases step_cases hstep with ⟨call, -, rfl⟩ |
      ⟨index, input, caller, after, event, -, hcaller, hevent, rfl⟩
    · intro index code state verifier hsent
      obtain ⟨pasted, stage, hcaller, hread⟩ := hpasted index code state verifier hsent
      exact ⟨pasted, stage, getElem?_arrive_of_some hcaller, hread⟩
    · exact hpasted.put moment.now hcaller (hreached.each_of index caller hcaller) hevent

/-! ## A flow that is taken -/

/-- The call has completed the flow. -/
def Completed (traffic : Traffic) (index : Nat) (flow : Flow) : Prop :=
  traffic.Carries index flow ∧
    ∃ call record, traffic.calls[index]? = some ⟨call, .over (.completed record)⟩

/-- What is known in a run of the flows that were completed: nobody else gets them. -/
structure TakenKnown (traffic : Traffic) : Prop where
  own : traffic.Each fun index caller =>
    (caller.stage.storesExchange = true ∨ ∃ record, caller.stage = .over (.completed record)) →
      ∃ flow, traffic.Carries index flow
  gone : ∀ {index flow}, traffic.Completed index flow →
    traffic.keeper.session.pending ≠ some flow
  alone : ∀ {index flow}, traffic.Completed index flow →
    traffic.Each fun other held => held.stage.storesExchange = true → ¬ traffic.Carries other flow
  once : ∀ {first second flow}, traffic.Completed first flow → traffic.Completed second flow →
    first = second

theorem TakenKnown.arrive (h : traffic.TakenKnown) (call : Call) :
    (traffic.arrive call).TakenKnown := by
  have hbefore : ∀ {index flow}, (traffic.arrive call).Completed index flow →
      traffic.Completed index flow := by
    rintro index flow ⟨hcarries, other, record, hcaller⟩
    rcases getElem?_arrive hcaller with hcaller | ⟨-, hnew⟩
    · exact ⟨hcarries, other, record, hcaller⟩
    · cases call <;> cases hnew
  refine ⟨each_arrive h.own ?_, fun hdone => h.gone (hbefore hdone),
    fun hdone => each_arrive (h.alone (hbefore hdone)) ?_,
    fun hfirst hsecond => h.once (hbefore hfirst) (hbefore hsecond)⟩
  · rintro (hstores | ⟨record, hover⟩)
    · cases call <;> cases hstores
    · cases call <;> cases hover
  · intro hstores
    cases call <;> cases hstores

section Put

variable {input : Input} {event : Event} {now : UInt64}

/-- A call completes its flow as it leaves its last stage inside, or has completed it before. -/
theorem completed_put (hcaller : traffic.calls[index]? = some caller)
    (hevent : traffic.event? store caller.stage.wait input = some (after, event)) {other : Nat}
    (h : (traffic.put index caller after
      (caller.stage.step now traffic.keeper event)).Completed other flow) :
    traffic.Carries other flow ∧ ((index ≠ other ∧ traffic.Completed other flow) ∨
      index = other ∧ ∃ record, caller.stage = .exchangeStored record) := by
  obtain ⟨hcarries, call, record, hover⟩ := h
  by_cases hne : index = other
  · subst hne
    rw [getElem?_put_self hcaller] at hover
    obtain ⟨-, hnext⟩ := Caller.mk.inj (Option.some.inj hover)
    refine ⟨?_, .inr ⟨rfl, record, (leads_of_event? now hevent).of_completed hnext⟩⟩
    rcases carries_put.1 hcarries with hcarries | ⟨-, code, hsent⟩
    · exact hcarries
    · rw [show (caller.stage.step now traffic.keeper event).2 = .over (.completed record) from
        hnext] at hsent
      cases hsent
  · rw [getElem?_put_of_ne hne] at hover
    have hbefore : traffic.Carries other flow :=
      (carries_put.1 hcarries).resolve_right fun hnew => hne hnew.1.symm
    exact ⟨hbefore, .inl ⟨hne, hbefore, call, record, hover⟩⟩

/-- Whoever comes to store the record of a flow finds that the flow is not taken. -/
theorem TakenKnown.not_carries (h : traffic.TakenKnown) (hknown : traffic.FlowsKnown)
    (hdistinct : traffic.Distinct) (hcaller : traffic.calls[index]? = some caller)
    (hevent : traffic.event? store caller.stage.wait input = some (after, event)) {taker : Nat}
    (hdone : traffic.Completed taker flow)
    (hstores : (caller.stage.step now traffic.keeper event).2.storesExchange = true) :
    ¬ traffic.Carries index flow := by
  intro hcarries
  rcases (leads_of_event? now hevent).storesExchange hstores with
    hstoring | ⟨own, record, pending, hstage, hpending, hstate⟩
  · exact h.alone hdone index caller hcaller hstoring hcarries
  · have hown := hknown.carries index caller hcaller own (by rw [hstage]; rfl)
    have hsame : pending = own := (hknown.begun hown).eq (hknown.pending hpending) hdistinct hstate
    rw [hsame, hknown.once hown hcarries] at hpending
    exact h.gone hdone hpending

/-- A flow that is taken does not become pending again. -/
theorem TakenKnown.put_gone (h : traffic.TakenKnown) (hreached : Reached store disk past traffic)
    (hdistinct : traffic.Distinct) (hcaller : traffic.calls[index]? = some caller)
    (hevent : traffic.event? store caller.stage.wait input = some (after, event)) {taker : Nat}
    (hdone : (traffic.put index caller after
      (caller.stage.step now traffic.keeper event)).Completed taker flow) :
    (caller.stage.write traffic.keeper.session).pending ≠ some flow := by
  obtain ⟨hcarries, hdone⟩ := completed_put hcaller hevent hdone
  rcases Stage.pending_write caller.stage traffic.keeper.session with
    ⟨started, hstage, hwrite⟩ | ⟨-, hwrite⟩ | ⟨hends, -, hwrite⟩
  · rw [hwrite]
    intro hsame
    exact (hreached.flowsKnown.begun hcarries).state_ne hdistinct hcaller hstage
      (hreached.each_of index caller hcaller) (congrArg Flow.state (Option.some.inj hsame))
  · rw [hwrite]
    exact nofun
  · rw [hwrite]
    rcases hdone with ⟨-, hdone⟩ | ⟨-, record, hstage⟩
    · exact h.gone hdone
    · rw [hstage] at hends
      cases hends

/-- Nobody else comes to store a record of a flow that is taken. -/
theorem TakenKnown.put_alone (h : traffic.TakenKnown) (hreached : Reached store disk past traffic)
    (hdistinct : traffic.Distinct) (hcaller : traffic.calls[index]? = some caller)
    (hevent : traffic.event? store caller.stage.wait input = some (after, event)) {taker : Nat}
    (hdone : (traffic.put index caller after
      (caller.stage.step now traffic.keeper event)).Completed taker flow) :
    (traffic.put index caller after (caller.stage.step now traffic.keeper event)).Each
      fun other held => held.stage.storesExchange = true → ¬ traffic.Carries other flow := by
  have hleads := leads_of_event? now hevent
  obtain ⟨-, hdone⟩ := completed_put hcaller hevent hdone
  rcases hdone with ⟨-, hdone⟩ | ⟨-, record, hstage⟩
  · exact each_put (h.not_carries hreached.flowsKnown hdistinct hcaller hevent hdone)
      fun other held _ hheld => h.alone hdone other held hheld
  -- The call that completes the flow just now was the only one inside.
  · refine each_put (fun hstores => ?_) fun other held hne hheld hstores => ?_
    · rw [show (caller.stage.step now traffic.keeper event).2 = .over (.completed record) from
        hleads.of_exchangeStored hstage] at hstores
      cases hstores
    · have hout := hreached.guarded.outside hheld hcaller hne.symm (by rw [hstage]; rfl)
      rw [Stage.inside_of_storesExchange hstores] at hout
      cases hout

theorem TakenKnown.put (h : traffic.TakenKnown) (hreached : Reached store disk past traffic)
    (hdistinct : traffic.Distinct) (now : UInt64)
    (hcaller : traffic.calls[index]? = some caller)
    (hevent : traffic.event? store caller.stage.wait input = some (after, event)) :
    (traffic.put index caller after
      (caller.stage.step now traffic.keeper event)).TakenKnown := by
  have hleads := leads_of_event? now hevent
  refine ⟨each_put ?_ ?_, fun hdone => ?_, fun hdone other held hheld hstores hcarries => ?_, ?_⟩
  · rintro (hstores | ⟨record, hover⟩)
    · rcases hleads.storesExchange hstores with hstoring | ⟨own, record, pending, hstage, -, -⟩
      · obtain ⟨own, hown⟩ := h.own index caller hcaller (.inl hstoring)
        exact ⟨own, carries_put.2 (.inl hown)⟩
      · exact ⟨own, carries_put.2 (.inl
          (hreached.flowsKnown.carries index caller hcaller own (by rw [hstage]; rfl)))⟩
    · obtain ⟨own, hown⟩ := h.own index caller hcaller
        (.inl (Stage.storesExchange_of_exchangeStored (hleads.of_completed hover)))
      exact ⟨own, carries_put.2 (.inl hown)⟩
  · intro other held _ hheld hends
    obtain ⟨own, hown⟩ := h.own other held hheld hends
    exact ⟨own, carries_put.2 (.inl hown)⟩
  · rw [session_put now index hevent]
    exact h.put_gone hreached hdistinct hcaller hevent hdone
  · rcases carries_put.1 hcarries with hbefore | ⟨rfl, code, hnext⟩
    · exact h.put_alone hreached hdistinct hcaller hevent hdone other held hheld hstores hbefore
    -- A call that just sends its code does not store anything yet.
    · rw [getElem?_put_self hcaller] at hheld
      cases hheld
      rw [hnext] at hstores
      cases hstores
  · intro first second flow hfirst hsecond
    obtain ⟨hcarries, hfirst⟩ := completed_put hcaller hevent hfirst
    obtain ⟨hcarries', hsecond⟩ := completed_put hcaller hevent hsecond
    rcases hfirst with ⟨-, hfirst⟩ | ⟨rfl, record, hstage⟩
    · rcases hsecond with ⟨-, hsecond⟩ | ⟨rfl, record, hstage⟩
      · exact h.once hfirst hsecond
      · exact (h.alone hfirst index caller hcaller
          (Stage.storesExchange_of_exchangeStored hstage) hcarries').elim
    · rcases hsecond with ⟨-, hsecond⟩ | ⟨hsame, -⟩
      · exact (h.alone hsecond index caller hcaller
          (Stage.storesExchange_of_exchangeStored hstage) hcarries).elim
      · exact hsame

end Put

theorem Reached.takenKnown (h : Reached store disk past traffic) (hdistinct : traffic.Distinct) :
    traffic.TakenKnown := by
  apply h.induction (P := fun _ traffic => traffic.Distinct → traffic.TakenKnown) _ _ hdistinct
  · intro stored _ _
    refine ⟨fun index caller hcaller => ?_, ?_, ?_, ?_⟩
    · simp at hcaller
    · rintro index flow ⟨⟨code, hsent⟩, -⟩
      simp at hsent
    · rintro index flow ⟨⟨code, hsent⟩, -⟩
      simp at hsent
    · rintro first second flow ⟨⟨code, hsent⟩, -⟩
      simp at hsent
  · intro past traffic moment next hreached ih hstep hdistinct
    have hbefore := hdistinct.of_step hstep
    rcases step_cases hstep with ⟨call, -, rfl⟩ |
      ⟨index, input, caller, after, event, -, hcaller, hevent, rfl⟩
    · exact (ih hbefore).arrive call
    · exact (ih hbefore).put hreached hbefore moment.now hcaller hevent

/-- The flow that a call has completed: it was begun, and its state was pasted. -/
theorem Reached.completed (h : Reached store disk past traffic) (hdistinct : traffic.Distinct)
    {call : Call} {record : Record}
    (hover : traffic.calls[index]? = some ⟨call, .over (.completed record)⟩) :
    ∃ flow pasted code, traffic.Completed index flow ∧ traffic.Begun flow ∧
      call = .complete pasted ∧ Pasted.read pasted = .ok ⟨code, flow.state⟩ := by
  obtain ⟨flow, hcarries⟩ :=
    (h.takenKnown hdistinct).own index _ hover (.inr ⟨record, rfl⟩)
  obtain ⟨code, hsent⟩ := id hcarries
  obtain ⟨pasted, stage, hcaller, hread⟩ := h.sentPasted index code flow.state flow.verifier hsent
  rw [hover] at hcaller
  cases hcaller
  exact ⟨flow, pasted, code, ⟨hcarries, _, record, hover⟩, h.flowsKnown.begun hcarries, rfl, hread⟩

end Traffic

end Credential

end ChatGateway
