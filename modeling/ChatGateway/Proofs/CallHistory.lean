import ChatGateway.Proofs.Traffic
import Mathlib.Data.List.Nodup

/-!
# What a run leaves behind

Each call stays the call that it was and never goes back, what was sent stays sent, and the
flow whose code a call exchanges can be read off its request.  Every such flow was begun.
-/

namespace ChatGateway

namespace Credential

namespace Stage

/-- A stage that the call can come to. -/
def Of (call : Call) (stage : Stage) : Prop :=
  match call, stage with
  | .start flow, .starting other | .start flow, .over (.started other) => other = flow
  | .complete pasted, .completing other => other = pasted
  | .complete _, .exchanging _ _ | .complete _, .exchanged _ _ | .complete _, .rechecking _ _
  | .complete _, .exchangeStoring _ | .complete _, .exchangeStored _
  | .complete _, .over (.completed _) | .complete _, .over (.refused _)
  | .complete _, .broken => True
  | .token, .requesting | .token, .retryWaiting | .token, .retrying | .token, .retryStoring _
  | .token, .retryStored _ | .token, .counting | .token, .looking _ | .token, .refreshWaiting _
  | .token, .refreshDeciding _ | .token, .refreshing _ | .token, .refreshStoring _
  | .token, .refreshStored _ _ | .token, .refreshClearing _ | .token, .refreshCleared _
  | .token, .refreshed _ | .token, .over (.token _) | .token, .over (.refused _)
  | .token, .broken => True
  | .logout, .logoutWaiting | .logout, .logoutClearing | .logout, .logoutCleared
  | .logout, .over .loggedOut | .logout, .over (.refused _) => True
  | _, _ => False

theorem of_ofCall (call : Call) : (ofCall call).Of call := by
  cases call <;> simp [ofCall, Of]

variable {now : UInt64} {keeper : Keeper} {stage next : Stage} {event : Event}

theorem of_ofRefresh {outcome : Except Failure String} :
    (Stage.over (.ofRefresh outcome)).Of .token := by
  cases outcome <;> simp [Answer.ofRefresh, Of]

theorem Leads.of {call : Call} (h : Leads now keeper stage event next) (hof : stage.Of call) :
    next.Of call := by
  cases h with
  | share | settle =>
      cases call with
      | token => exact of_ofRefresh
      | start | complete | logout => exact hof.elim
  | _ => cases call <;> simp_all [Of]

theorem call_of_starting {call : Call} {flow : Flow} (hstage : stage = .starting flow)
    (hof : stage.Of call) : call = .start flow := by
  cases call <;> simp_all [Of]

theorem Leads.of_starting {flow : Flow} (h : Leads now keeper stage event next)
    (hstage : stage = .starting flow) : next = .over (.started flow) := by
  subst hstage
  cases h
  rfl

/-- The flow that a call at this stage exchanges the code of. -/
def flow? : Stage -> Option Flow
  | .exchanging flow _ | .exchanged flow _ | .rechecking flow _ => some flow
  | _ => none

/-- The record of an exchange is about to be stored, or it is stored and not yet taken over. -/
def storesExchange : Stage -> Bool
  | .exchangeStoring _ | .exchangeStored _ => true
  | _ => false

/-- A call leaves this stage by dropping whatever flow is pending. -/
def endsFlow : Stage -> Bool
  | .exchangeStored _ | .refreshCleared _ | .logoutCleared => true
  | _ => false

theorem request?_eq_exchange {code state verifier : String}
    (h : stage.request? = some (.exchange code state verifier)) :
    stage = .exchanging ⟨verifier, state⟩ code := by
  cases stage with
  | exchanging flow own =>
      cases h
      rfl
  | _ => simp [request?, wait] at h

/-- A request for a code is sent as the call comes to exchange it, for the pending flow. -/
theorem Leads.of_exchange {flow : Flow} {code : String}
    (h : Leads now keeper stage event (.exchanging flow code)) :
    keeper.session.pending = some flow ∧ ∃ pasted, stage = .completing pasted := by
  cases h
  exact ⟨‹_›, _, rfl⟩

/-- A call holds a flow from the moment on at which it sends the flow's code. -/
theorem Leads.flow? {flow : Flow} (h : Leads now keeper stage event next)
    (hflow : next.flow? = some flow) :
    stage.flow? = some flow ∨ ∃ code, next = .exchanging flow code := by
  cases h <;> simp_all [Stage.flow?]

/-- A call comes to store its record by finding its flow still pending, or comes from there. -/
theorem Leads.storesExchange (h : Leads now keeper stage event next)
    (hstores : next.storesExchange = true) :
    stage.storesExchange = true ∨ ∃ flow record pending, stage = .rechecking flow record ∧
      keeper.session.pending = some pending ∧ pending.state = flow.state := by
  cases h <;> simp_all [Stage.storesExchange]

theorem Leads.of_exchangeStored {record : Record} (h : Leads now keeper stage event next)
    (hstage : stage = .exchangeStored record) : next = .over (.completed record) := by
  subst hstage
  cases h
  rfl

theorem inside_of_storesExchange (h : stage.storesExchange = true) : stage.inside = true := by
  cases stage <;> simp_all [Stage.storesExchange, inside]

/-- What leaving a stage does to the pending flow. -/
theorem pending_write (stage : Stage) (session : Session) :
    (∃ flow, stage = .starting flow ∧ (stage.write session).pending = some flow) ∨
    (stage.endsFlow = true ∧ (stage.write session).pending = none) ∨
    stage.endsFlow = false ∧ (∀ flow, stage ≠ .starting flow) ∧
      (stage.write session).pending = session.pending := by
  cases stage <;>
    simp [write, endsFlow, Session.begin, Session.adopt, Session.persisted, Session.renew,
      Session.reject, Session.empty]

theorem Leads.of_endsFlow (h : Leads now keeper stage event next) (hends : stage.endsFlow = true) :
    (∃ outcome, next = .refreshed outcome) ∨ ∃ answer, next = .over answer := by
  cases h <;> simp_all [endsFlow]

theorem inside_of_endsFlow (h : stage.endsFlow = true) : stage.inside = true := by
  cases stage <;> simp_all [endsFlow, inside]

end Stage

/-- The state of the flow that a call starts, if it starts one. -/
def Call.state? : Call -> Option String
  | .start flow => some flow.state
  | _ => none

namespace Traffic

variable {store : Store} {disk : Disk} {traffic next : Traffic} {moment : Moment}
  {past later : List Moment}

theorem session_put {caller : Caller} {input : Input} {event : Event} (now : UInt64) (index : Nat)
    (hevent : traffic.event? store caller.stage.wait input = some (disk, event)) :
    (traffic.put index caller disk
      (caller.stage.step now traffic.keeper event)).keeper.session =
      caller.stage.write traffic.keeper.session :=
  congrArg Keeper.session (Stage.keeper_step _ _ (admits_of_event? hevent).1)

theorem mem_sent_put {index other : Nat} {caller : Caller} {result : Keeper × Stage}
    {request : TokenRequest} :
    (other, request) ∈ (traffic.put index caller disk result).sent ↔
      (other, request) ∈ traffic.sent ∨ other = index ∧ result.2.request? = some request := by
  simp only [put, List.mem_append, List.mem_map, Option.mem_toList, Prod.mk.injEq]
  constructor
  · rintro (h | ⟨found, hfound, rfl, rfl⟩)
    · exact .inl h
    · exact .inr ⟨rfl, hfound⟩
  · rintro (h | ⟨rfl, hrequest⟩)
    · exact .inl h
    · exact .inr ⟨request, hrequest, rfl, rfl⟩

/-! ## Calls stay -/

theorem step_call (hstep : traffic.step store moment = some next) {index : Nat} {caller : Caller}
    (hcaller : traffic.calls[index]? = some caller) :
    ∃ stepped, next.calls[index]? = some stepped ∧ stepped.call = caller.call ∧
      stepped.stage.rank ≤ caller.stage.rank := by
  rcases step_cases hstep with ⟨call, -, rfl⟩ |
    ⟨other, input, held, disk, event, -, hheld, hevent, rfl⟩
  · exact ⟨caller, getElem?_arrive_of_some hcaller, rfl, Nat.le_refl _⟩
  · by_cases hne : other = index
    · subst hne
      rw [hcaller] at hheld
      cases hheld
      refine ⟨_, getElem?_put_self hcaller _ _, rfl, ?_⟩
      exact Nat.le_of_lt (leads_of_event? _ hevent).rank_lt
    · exact ⟨caller, by rwa [getElem?_put_of_ne hne], rfl, Nat.le_refl _⟩

/-- A call that is over, or has broken off, stays as it is. -/
theorem step_ended (hstep : traffic.step store moment = some next) {index : Nat} {caller : Caller}
    (hcaller : traffic.calls[index]? = some caller) (hended : caller.stage.wait = .none) :
    next.calls[index]? = some caller := by
  rcases step_cases hstep with ⟨_, -, rfl⟩ |
    ⟨other, input, held, disk, event, -, hheld, hevent, rfl⟩
  · exact getElem?_arrive_of_some hcaller
  · have hne : other ≠ index := by
      rintro rfl
      rw [hheld] at hcaller
      cases hcaller
      rw [hended] at hevent
      cases input <;> cases hevent
    rw [getElem?_put_of_ne hne, hcaller]

theorem run_ended (hrun : traffic.run store later = some next) {index : Nat} {caller : Caller}
    (hcaller : traffic.calls[index]? = some caller) (hended : caller.stage.wait = .none) :
    next.calls[index]? = some caller := by
  apply run_induction (P := fun _ traffic => traffic.calls[index]? = some caller) hcaller _ hrun
  intro past now moment next _ hcaller hstep
  exact step_ended hstep hcaller hended

/-- A call stays the call that it was, and it never goes back. -/
theorem run_call (hrun : traffic.run store later = some next) {index : Nat} {caller : Caller}
    (hcaller : traffic.calls[index]? = some caller) :
    ∃ held, next.calls[index]? = some held ∧ held.call = caller.call ∧
      held.stage.rank ≤ caller.stage.rank := by
  apply run_induction (P := fun _ traffic => ∃ held, traffic.calls[index]? = some held ∧
    held.call = caller.call ∧ held.stage.rank ≤ caller.stage.rank) _ _ hrun
  · exact ⟨caller, hcaller, rfl, Nat.le_refl _⟩
  · intro past now moment next _ hheld hstep
    obtain ⟨held, hheld, hcall, hrank⟩ := hheld
    obtain ⟨stepped, hstepped, hsame, hle⟩ := step_call hstep hheld
    exact ⟨stepped, hstepped, hsame.trans hcall, Nat.le_trans hle hrank⟩

theorem Reached.each_of (h : Reached store disk past traffic) :
    traffic.Each fun _ caller => caller.stage.Of caller.call := by
  apply h.induction (P := fun _ traffic => traffic.Each fun _ caller => caller.stage.Of caller.call)
  · intro stored _ index caller hcaller
    simp at hcaller
  · intro past traffic moment next _ hof hstep
    rcases step_cases hstep with ⟨call, -, rfl⟩ |
      ⟨index, input, caller, disk, event, -, hcaller, hevent, rfl⟩
    · exact each_arrive hof (Stage.of_ofCall call)
    · apply each_put
      · exact (leads_of_event? _ hevent).of (hof index caller hcaller)
      · intro other held _ hheld
        exact hof other held hheld

/-! ## Flows -/

/-- The flow was begun, by a call that is over. -/
def Begun (traffic : Traffic) (flow : Flow) : Prop :=
  ∃ index : Nat, traffic.calls[index]? = some ⟨.start flow, .over (.started flow)⟩

/-- The call with this number sent the flow's code to the token endpoint. -/
def Carries (traffic : Traffic) (index : Nat) (flow : Flow) : Prop :=
  ∃ code, (index, TokenRequest.exchange code flow.state flow.verifier) ∈ traffic.sent

theorem map_call_put {index : Nat} {caller : Caller} (hcaller : traffic.calls[index]? = some caller)
    (disk : Disk) (result : Keeper × Stage) :
    (traffic.put index caller disk result).calls.map Caller.call =
      traffic.calls.map Caller.call := by
  apply List.ext_getElem?
  intro other
  by_cases hne : index = other
  · subst hne
    simp [getElem?_put_self hcaller, hcaller]
  · simp [getElem?_put_of_ne hne]

/-- No two calls start flows with the same state. -/
def Distinct (traffic : Traffic) : Prop :=
  ((traffic.calls.map Caller.call).filterMap Call.state?).Nodup

theorem Distinct.eq (h : traffic.Distinct) {index other : Nat} {caller held : Caller}
    {state : String} (hcaller : traffic.calls[index]? = some caller)
    (hheld : traffic.calls[other]? = some held) (hstate : caller.call.state? = some state)
    (hsame : held.call.state? = some state) : index = other := by
  -- The states are pairwise different, so an earlier call and a later one do not share one.
  unfold Distinct at h
  rw [List.filterMap_map] at h
  have hpairs := List.pairwise_iff_getElem.1 (List.pairwise_filterMap.1 h)
  obtain ⟨hindex, rfl⟩ := List.getElem?_eq_some_iff.1 hcaller
  obtain ⟨hother, rfl⟩ := List.getElem?_eq_some_iff.1 hheld
  rcases Nat.lt_trichotomy index other with hlt | heq | hlt
  · exact (hpairs index other hindex hother hlt state hstate state hsame rfl).elim
  · exact heq
  · exact (hpairs other index hother hindex hlt state hsame state hstate rfl).elim

theorem Distinct.of_step (h : next.Distinct) (hstep : traffic.step store moment = some next) :
    traffic.Distinct := by
  rcases step_cases hstep with ⟨call, -, rfl⟩ |
    ⟨index, input, caller, disk, event, -, hcaller, -, rfl⟩
  · unfold Distinct arrive at h
    rw [List.map_append, List.filterMap_append] at h
    exact List.Nodup.of_append_left h
  · unfold Distinct at h
    rwa [map_call_put hcaller] at h

theorem Distinct.of_run (h : next.Distinct) (hrun : traffic.run store later = some next) :
    traffic.Distinct := by
  induction later generalizing traffic with
  | nil =>
      cases hrun
      exact h
  | cons moment rest ih =>
      rw [run_cons] at hrun
      obtain ⟨between, hmoment, hrest⟩ := Option.bind_eq_some_iff.1 hrun
      exact (ih hrest).of_step hmoment

theorem Begun.arrive {flow : Flow} (h : traffic.Begun flow) (call : Call) :
    (traffic.arrive call).Begun flow := by
  obtain ⟨index, hcaller⟩ := h
  exact ⟨index, getElem?_arrive_of_some hcaller⟩

theorem Begun.step {flow : Flow} (h : traffic.Begun flow)
    (hstep : traffic.step store moment = some next) : next.Begun flow := by
  obtain ⟨index, hcaller⟩ := h
  exact ⟨index, step_ended hstep hcaller rfl⟩

/-- A flow was begun by a call that is over, so with distinct states no other call begins it. -/
theorem Begun.state_ne {flow other : Flow} (h : traffic.Begun flow) (hdistinct : traffic.Distinct)
    {index : Nat} {caller : Caller} (hcaller : traffic.calls[index]? = some caller)
    (hstage : caller.stage = .starting other) (hof : caller.stage.Of caller.call) :
    other.state ≠ flow.state := by
  intro hsame
  obtain ⟨begun, hbegun⟩ := h
  have hcall : caller.call = .start other := Stage.call_of_starting hstage hof
  have heq : begun = index := by
    apply hdistinct.eq hbegun hcaller (show (Call.start flow).state? = some flow.state from rfl)
    rw [hcall, ← hsame]
    rfl
  subst heq
  rw [hcaller] at hbegun
  cases hbegun
  cases hstage

/-- Sending a flow's code is the step to exchanging it. -/
theorem carries_put {index other : Nat} {caller : Caller} {result : Keeper × Stage} {flow : Flow} :
    (traffic.put index caller disk result).Carries other flow ↔
      traffic.Carries other flow ∨ other = index ∧ ∃ code, result.2 = .exchanging flow code := by
  unfold Carries
  constructor
  · rintro ⟨code, hsent⟩
    rcases mem_sent_put.1 hsent with hsent | ⟨rfl, hrequest⟩
    · exact .inl ⟨code, hsent⟩
    · exact .inr ⟨rfl, code, Stage.request?_eq_exchange hrequest⟩
  · rintro (⟨code, hsent⟩ | ⟨rfl, code, hnext⟩)
    · exact ⟨code, mem_sent_put.2 (.inl hsent)⟩
    · refine ⟨code, mem_sent_put.2 (.inr ⟨rfl, ?_⟩)⟩
      rw [hnext]
      rfl

theorem Begun.run {flow : Flow} (h : traffic.Begun flow)
    (hrun : traffic.run store later = some next) : next.Begun flow := by
  obtain ⟨index, hover⟩ := h
  exact ⟨index, run_ended hrun hover rfl⟩

/-- With distinct states a flow that was begun is known by its state. -/
theorem Begun.eq {flow other : Flow} (h : traffic.Begun flow) (h' : traffic.Begun other)
    (hdistinct : traffic.Distinct) (hstate : other.state = flow.state) : other = flow := by
  obtain ⟨index, hcaller⟩ := h
  obtain ⟨second, hsecond⟩ := h'
  have hindex := hdistinct.eq hcaller hsecond
    (show (Call.start flow).state? = some flow.state from rfl)
    (show (Call.start other).state? = some flow.state from congrArg some hstate)
  rw [← hindex, hcaller] at hsecond
  cases hsecond
  rfl

theorem Carries.step {index : Nat} {flow : Flow} (h : traffic.Carries index flow)
    (hstep : traffic.step store moment = some next) : next.Carries index flow := by
  rcases step_cases hstep with ⟨call, -, rfl⟩ | ⟨other, input, caller, disk, event, -, -, -, rfl⟩
  · exact h
  · exact carries_put.2 (.inl h)

/-- What is known of the flows in a run: whatever is pending or carried was begun. -/
structure FlowsKnown (traffic : Traffic) : Prop where
  pending : ∀ {flow}, traffic.keeper.session.pending = some flow → traffic.Begun flow
  begun : ∀ {index flow}, traffic.Carries index flow → traffic.Begun flow
  carries : traffic.Each fun index caller =>
    ∀ flow, caller.stage.flow? = some flow → traffic.Carries index flow
  /-- A call sends the code of one flow at most. -/
  once : ∀ {index flow other}, traffic.Carries index flow → traffic.Carries index other →
    flow = other
  past : ∀ {index flow}, traffic.Carries index flow →
    ∃ caller, traffic.calls[index]? = some caller ∧ caller.stage.rank < 6

theorem FlowsKnown.arrive (h : traffic.FlowsKnown) (call : Call) :
    (traffic.arrive call).FlowsKnown where
  pending hpending := (h.pending hpending).arrive call
  begun hcarries := (h.begun hcarries).arrive call
  carries := by
    apply each_arrive h.carries
    intro flow hflow
    cases call <;> cases hflow
  once := h.once
  past hcarries := by
    obtain ⟨caller, hcaller, hrank⟩ := h.past hcarries
    exact ⟨caller, getElem?_arrive_of_some hcaller, hrank⟩

theorem FlowsKnown.put (h : traffic.FlowsKnown) {index : Nat} {caller : Caller} {input : Input}
    {event : Event} (now : UInt64) (hcaller : traffic.calls[index]? = some caller)
    (hof : caller.stage.Of caller.call)
    (hevent : traffic.event? store caller.stage.wait input = some (disk, event)) :
    (traffic.put index caller disk (caller.stage.step now traffic.keeper event)).FlowsKnown := by
  have hleads := leads_of_event? now hevent
  have hself := getElem?_put_self hcaller disk (caller.stage.step now traffic.keeper event)
  have hbegun : ∀ {flow}, traffic.Begun flow → (traffic.put index caller disk
      (caller.stage.step now traffic.keeper event)).Begun flow :=
    fun hbegun => hbegun.step (step_advance now hcaller hevent)
  -- A call sends its code only once: before it does, it is further from its end.
  have hfirst : ∀ {flow other : Flow} {code}, traffic.Carries index flow →
      (caller.stage.step now traffic.keeper event).2 ≠ .exchanging other code := by
    intro flow other code hcarries hnext
    obtain ⟨held, hheld, hrank⟩ := h.past hcarries
    rw [hcaller] at hheld
    cases hheld
    rw [hnext] at hleads
    obtain ⟨-, pasted, hstage⟩ := hleads.of_exchange
    rw [hstage] at hrank
    exact absurd hrank (by simp [Stage.rank])
  refine ⟨?_, ?_, ?_, ?_, ?_⟩
  · intro flow hpending
    rw [session_put now index hevent] at hpending
    rcases Stage.pending_write caller.stage traffic.keeper.session with
      ⟨started, hstage, hwrite⟩ | ⟨-, hwrite⟩ | ⟨-, -, hwrite⟩
    · rw [hwrite] at hpending
      cases hpending
      have hnext := hleads.of_starting hstage
      exact ⟨index, hself.trans (by rw [Stage.call_of_starting hstage hof, hnext])⟩
    · rw [hwrite] at hpending
      cases hpending
    · rw [hwrite] at hpending
      exact hbegun (h.pending hpending)
  · intro other flow hcarries
    rcases carries_put.1 hcarries with hcarries | ⟨rfl, code, hnext⟩
    · exact hbegun (h.begun hcarries)
    · rw [hnext] at hleads
      exact hbegun (h.pending hleads.of_exchange.1)
  · apply each_put
    · intro flow hflow
      rcases hleads.flow? hflow with hflow | ⟨code, hnext⟩
      · exact carries_put.2 (.inl (h.carries index caller hcaller flow hflow))
      · exact carries_put.2 (.inr ⟨rfl, code, hnext⟩)
    · intro other held _ hheld flow hflow
      exact carries_put.2 (.inl (h.carries other held hheld flow hflow))
  · intro other flow second hone htwo
    rcases carries_put.1 hone with hsent | ⟨rfl, code, hnext⟩
    · rcases carries_put.1 htwo with hsent' | ⟨rfl, code, hnext⟩
      · exact h.once hsent hsent'
      · exact (hfirst hsent hnext).elim
    · rcases carries_put.1 htwo with hsent | ⟨-, code', hnext'⟩
      · exact (hfirst hsent hnext).elim
      · rw [hnext] at hnext'
        cases hnext'
        rfl
  · intro other flow hcarries
    rcases carries_put.1 hcarries with hcarries | ⟨rfl, code, hnext⟩
    · obtain ⟨held, hheld, hrank⟩ := h.past hcarries
      obtain ⟨stepped, hstepped, -, hle⟩ := step_call (step_advance now hcaller hevent) hheld
      exact ⟨stepped, hstepped, Nat.lt_of_le_of_lt hle hrank⟩
    · refine ⟨_, hself, ?_⟩
      show (caller.stage.step now traffic.keeper event).2.rank < 6
      rw [hnext]
      exact Nat.lt_succ_self 5

theorem Reached.flowsKnown (h : Reached store disk past traffic) : traffic.FlowsKnown := by
  apply h.induction (P := fun _ traffic => traffic.FlowsKnown)
  · intro stored _
    constructor
    · intro flow hpending
      cases hpending
    · rintro index flow ⟨code, hsent⟩
      simp at hsent
    · intro index caller hcaller
      simp at hcaller
    · rintro index flow other ⟨code, hsent⟩
      simp at hsent
    · rintro index flow ⟨code, hsent⟩
      simp at hsent
  · intro past traffic moment next hreached hknown hstep
    rcases step_cases hstep with ⟨call, -, rfl⟩ |
      ⟨index, input, caller, disk, event, -, hcaller, hevent, rfl⟩
    · exact hknown.arrive call
    · exact hknown.put moment.now hcaller (hreached.each_of index caller hcaller) hevent

end Traffic

end Credential

end ChatGateway
