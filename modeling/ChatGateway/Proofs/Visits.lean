import ChatGateway.Proofs.SessionFields

/-!
# Calls one after the other

A visit is a call with nobody beside it, from the moment at which it comes to its end, be it with
an answer or without.  A fact about every step of a visit becomes one about the whole of it; at
each step the call finds what it looked at before unchanged.  Between two visits nobody is inside.
-/

namespace ChatGateway

namespace Credential

/-- A call with what it is given, at the times that the clock shows, and with its answer. -/
structure Visit where
  call : Call
  inputs : List (UInt64 × Input)
  /-- What the call answers, unless it breaks off. -/
  answer : Option Answer
  deriving DecidableEq, Repr

namespace Stage

/-- A call has come to its end. -/
def ended : Option Answer → Stage
  | some answer => .over answer
  | none => .broken

@[simp] theorem ended_inj {answer other : Option Answer} :
    ended answer = ended other ↔ answer = other := by
  cases answer <;> cases other <;> simp [ended]

@[simp] theorem ended_eq_over {answer : Option Answer} {given : Answer} :
    ended answer = .over given ↔ answer = some given := by
  cases answer <;> simp [ended]

@[simp] theorem wait_ended (answer : Option Answer) : (ended answer).wait = .none := by
  cases answer <;> rfl

@[simp] theorem inside_ended (answer : Option Answer) : (ended answer).inside = false := by
  cases answer <;> rfl

@[simp] theorem write_ended (answer : Option Answer) (session : Session) :
    (ended answer).write session = session := by
  cases answer <;> rfl

/-! ## What a call finds unchanged -/

variable {keeper : Keeper} {stage : Stage} {event : Event}

/-- The flow that a call exchanges is pending still, and no refresh came between its two looks. -/
def Undisturbed (keeper : Keeper) : Stage → Prop
  | .exchanging flow _ | .exchanged flow _ | .rechecking flow _ =>
      keeper.session.pending = some flow
  | .looking seen | .refreshWaiting seen | .refreshDeciding seen => keeper.generation = seen
  | _ => True

/-- The steps of a call do not disturb it. -/
theorem Undisturbed.step (h : stage.Undisturbed keeper) (now : UInt64)
    (hadmits : stage.wait.Admits event) :
    (stage.step now keeper event).2.Undisturbed (stage.step now keeper event).1 := by
  cases stage <;> cases event <;> try exact hadmits.elim
  case completing.turn pasted =>
    rcases complete_cases keeper pasted with
      ⟨failure, heq⟩ | ⟨read, flow, -, hpending, -, heq⟩ <;> rw [Stage.step, heq]
    · trivial
    · exact hpending
  case exchanging.reply flow code reply =>
    rcases exchange_cases now keeper flow reply with
      ⟨failure, heq⟩ | ⟨grant, record, -, -, heq⟩ | ⟨grant, -, -, heq⟩ <;> rw [Stage.step, heq]
    · trivial
    · exact h
    · trivial
  case exchanged.turn => exact h
  case rechecking.turn flow record =>
    rcases recheck_cases keeper flow record with heq | ⟨pending, -, -, heq⟩ <;>
      · rw [Stage.step, heq]
        trivial
  case exchangeStoring.stored record stored => cases stored <;> trivial
  case requesting.turn => rw [Stage.step]; split <;> trivial
  case retrying.turn =>
    rcases retry_cases keeper with heq | ⟨reason, record, -, -, heq⟩ <;>
      · rw [Stage.step, heq]
        trivial
  case counting.turn => rfl
  case looking.turn seen =>
    rcases look_cases now keeper seen with
      ⟨record, -, -, heq⟩ | ⟨-, heq⟩ | ⟨record, -, -, heq⟩ <;> rw [Stage.step, heq]
    · trivial
    · trivial
    · exact h
  case refreshWaiting.turn => exact h
  case refreshDeciding.turn seen =>
    rcases decide_cases now keeper seen with ⟨record, -, -, heq⟩ | ⟨-, heq⟩ |
      ⟨record, -, -, ⟨outcome, hseen, -, -⟩ | ⟨-, heq⟩⟩
    · rw [Stage.step, heq]; trivial
    · rw [Stage.step, heq]; trivial
    · exact (hseen h).elim
    · rw [Stage.step, heq]; trivial
  case refreshing.reply used reply =>
    rcases refresh_cases now keeper used reply with ⟨status, body, -, heq⟩ | ⟨failure, -, heq⟩ |
      ⟨grant, record, -, -, heq⟩ | ⟨grant, -, -, heq⟩ <;>
      · rw [Stage.step, heq]
        trivial
  case logoutClearing.stored stored => cases stored <;> trivial
  all_goals trivial

end Stage

namespace Traffic

variable {store : Store} {disk after : Disk} {stored : Option Record} {traffic next : Traffic}
  {call : Call} {inputs : List (UInt64 × Input)} {visits : List Visit} {visit : Visit}

/-- The call with this number goes on with each of the inputs, and nobody else does. -/
def advances (index : Nat) (inputs : List (UInt64 × Input)) : List Moment :=
  inputs.map fun given => ⟨given.1, .advance index given.2⟩

/-- The call comes, goes on alone and ends, with its answer unless it breaks off. -/
def Visits (store : Store) (traffic : Traffic) (visit : Visit) (next : Traffic) : Prop :=
  (traffic.arrive visit.call).run store (advances traffic.calls.length visit.inputs) = some next ∧
    next.calls[traffic.calls.length]? = some ⟨visit.call, .ended visit.answer⟩

/-- The traffic that visits lead to, from the opening with the stored record. -/
inductive Visited (store : Store) (disk : Disk) (stored : Option Record) :
    List Visit → Traffic → Prop
  | opening : store.load disk = .ok stored →
      Visited store disk stored [] ⟨.initial stored, disk, [], [], []⟩
  | next {visits : List Visit} {traffic next : Traffic} {visit : Visit} :
      Visited store disk stored visits traffic →
      traffic.Visits store visit next → Visited store disk stored (visits ++ [visit]) next

theorem advances_append (index : Nat) (inputs rest : List (UInt64 × Input)) :
    advances index (inputs ++ rest) = advances index inputs ++ advances index rest :=
  List.map_append

theorem run_advances_concat (index : Nat) (now : UInt64) (input : Input) :
    traffic.run store (advances index (inputs ++ [(now, input)])) =
      (traffic.run store (advances index inputs)).bind fun between =>
        between.step store ⟨now, .advance index input⟩ := by
  rw [advances_append]
  exact run_concat store traffic _ _

theorem getElem?_last {calls : List Caller} {caller : Caller}
    (h : traffic.calls = calls ++ [caller]) : traffic.calls[calls.length]? = some caller := by
  simp [h]

theorem calls_put_last {calls : List Caller} {caller : Caller}
    (h : traffic.calls = calls ++ [caller]) (disk : Disk) (result : Keeper × Stage) :
    (traffic.put calls.length caller disk result).calls = calls ++ [⟨caller.call, result.2⟩] := by
  simp [put, h]

/-- The call that came last goes on with what it waits for. -/
theorem step_last (store : Store) (now : UInt64) (input : Input) {calls : List Caller}
    {stage reached : Stage} {event : Event} {keeper : Keeper}
    (h : traffic.calls = calls ++ [⟨call, stage⟩])
    (hevent : traffic.event? store stage.wait input = some (after, event))
    (hresult : stage.step now traffic.keeper event = (keeper, reached)) :
    ∃ next, traffic.step store ⟨now, .advance calls.length input⟩ = some next ∧
      next.calls = calls ++ [⟨call, reached⟩] ∧ next.keeper = keeper ∧ next.disk = after := by
  refine ⟨_, step_advance now (getElem?_last h) hevent, ?_, ?_, rfl⟩
  · rw [calls_put_last h, hresult]
  · rw [put, hresult]

theorem step_turn (store : Store) (now : UInt64) {calls : List Caller} {stage reached : Stage}
    {keeper : Keeper} (h : traffic.calls = calls ++ [⟨call, stage⟩]) (hwait : stage.wait = .turn)
    (hresult : stage.step now traffic.keeper .turn = (keeper, reached)) :
    ∃ next, traffic.step store ⟨now, .advance calls.length .turn⟩ = some next ∧
      next.calls = calls ++ [⟨call, reached⟩] ∧ next.keeper = keeper ∧
      next.disk = traffic.disk :=
  step_last store now .turn h (by rw [hwait]; rfl) hresult

/--
What holds as a call comes, and is kept by each of its steps, holds of every run in which only
this call goes on.  It is said of what the call was given, of the traffic and of its stage.
-/
theorem advances_induction {P : List (UInt64 × Input) → Traffic → Stage → Prop}
    (harrive : P [] (traffic.arrive call) (.ofCall call))
    (hadvance : ∀ inputs between stage now input after event,
      between.calls = traffic.calls ++ [⟨call, stage⟩] → stage.Of call → P inputs between stage →
      between.event? store stage.wait input = some (after, event) →
      P (inputs ++ [(now, input)])
        (between.put traffic.calls.length ⟨call, stage⟩ after
          (stage.step now between.keeper event))
        (stage.step now between.keeper event).2)
    (hrun : (traffic.arrive call).run store (advances traffic.calls.length inputs) = some next) :
    ∃ stage, next.calls = traffic.calls ++ [⟨call, stage⟩] ∧ stage.Of call ∧
      P inputs next stage := by
  induction inputs using List.reverseRecOn generalizing next with
  | nil =>
      cases hrun
      exact ⟨.ofCall call, rfl, Stage.of_ofCall call, harrive⟩
  | append_singleton inputs given ih =>
      obtain ⟨now, input⟩ := given
      rw [run_advances_concat] at hrun
      obtain ⟨between, hbetween, hstep⟩ := Option.bind_eq_some_iff.1 hrun
      obtain ⟨stage, hcalls, hof, hP⟩ := ih hbetween
      rcases step_cases hstep with ⟨_, haction, -⟩ |
        ⟨index, given, caller, after, event, haction, hcaller, hevent, rfl⟩
      · cases haction
      · cases haction
        rw [getElem?_last hcalls] at hcaller
        cases hcaller
        exact ⟨_, calls_put_last hcalls _ _, (leads_of_event? now hevent).of hof,
          hadvance inputs between stage now input after event hcalls hof hP hevent⟩

/-- What holds as a call comes, and is kept by each of its steps, holds as it ends. -/
theorem Visits.induction {P : List (UInt64 × Input) → Traffic → Stage → Prop}
    (h : traffic.Visits store visit next)
    (harrive : P [] (traffic.arrive visit.call) (.ofCall visit.call))
    (hadvance : ∀ inputs between stage now input after event,
      between.calls = traffic.calls ++ [⟨visit.call, stage⟩] → stage.Of visit.call →
      P inputs between stage → between.event? store stage.wait input = some (after, event) →
      P (inputs ++ [(now, input)])
        (between.put traffic.calls.length ⟨visit.call, stage⟩ after
          (stage.step now between.keeper event))
        (stage.step now between.keeper event).2) :
    P visit.inputs next (.ended visit.answer) := by
  obtain ⟨hrun, hend⟩ := h
  obtain ⟨stage, hcalls, -, hP⟩ := advances_induction harrive hadvance hrun
  rw [getElem?_last hcalls] at hend
  cases hend
  exact hP

/-- The others stay as they are, and the end is one that the call can come to. -/
theorem Visits.ends (h : traffic.Visits store visit next) :
    next.calls = traffic.calls ++ [⟨visit.call, .ended visit.answer⟩] ∧
      (Stage.ended visit.answer).Of visit.call := by
  obtain ⟨hrun, hend⟩ := h
  obtain ⟨stage, hcalls, hof, -⟩ := advances_induction (P := fun _ _ _ => True) trivial
    (fun _ _ _ _ _ _ _ _ _ _ _ => trivial) hrun
  rw [getElem?_last hcalls] at hend
  cases hend
  exact ⟨hcalls, hof⟩

/--
The same of what is kept by each step that finds what it needs unchanged, with the run of the
call so far.
-/
theorem Visits.induction_alone {P : List (UInt64 × Input) → Traffic → Stage → Prop}
    (h : traffic.Visits store visit next)
    (harrive : P [] (traffic.arrive visit.call) (.ofCall visit.call))
    (hadvance : ∀ inputs between stage now input after event,
      (traffic.arrive visit.call).run store (advances traffic.calls.length inputs) = some between →
      between.calls[traffic.calls.length]? = some ⟨visit.call, stage⟩ → stage.Of visit.call →
      stage.Undisturbed between.keeper → P inputs between stage →
      between.event? store stage.wait input = some (after, event) →
      P (inputs ++ [(now, input)])
        (between.put traffic.calls.length ⟨visit.call, stage⟩ after
          (stage.step now between.keeper event))
        (stage.step now between.keeper event).2) :
    P visit.inputs next (.ended visit.answer) := by
  have hend := h.induction
    (P := fun inputs between stage =>
      (traffic.arrive visit.call).run store (advances traffic.calls.length inputs) = some between ∧
        stage.Undisturbed between.keeper ∧ P inputs between stage)
    ⟨rfl, by cases visit.call <;> trivial, harrive⟩
    (by
      intro inputs between stage now input after event hcalls hof hbefore hevent
      obtain ⟨hrun, hundisturbed, hP⟩ := hbefore
      have hcaller := getElem?_last hcalls
      refine ⟨?_, hundisturbed.step now (admits_of_event? hevent).1,
        hadvance inputs between stage now input after event hrun hcaller hof hundisturbed hP
          hevent⟩
      rw [run_advances_concat, hrun]
      exact step_advance now hcaller hevent)
  exact hend.2.2

theorem Visited.reached (h : Visited store disk stored visits traffic) :
    ∃ past, Reached store disk past traffic := by
  induction h with
  | opening hload => exact ⟨[], _, by rw [opened, hload]; rfl, rfl⟩
  | @next _ _ _ visit _ hvisits ih =>
      obtain ⟨past, hreached⟩ := ih
      have harrived : Reached store disk (past ++ [⟨0, .begin visit.call⟩]) _ := hreached.step rfl
      exact ⟨_, harrived.run hvisits.1⟩

/-- Between two visits nobody is inside. -/
theorem Visited.gate (h : Visited store disk stored visits traffic) :
    traffic.keeper.gate = false := by
  have hover : traffic.Each fun _ caller => caller.stage.inside = false := by
    induction h with
    | opening =>
        intro index caller hcaller
        simp at hcaller
    | @next _ _ visit _ _ hvisits ih =>
        intro index caller hcaller
        rw [hvisits.ends.1] at hcaller
        rcases List.mem_append.1 (List.mem_of_getElem? hcaller) with hold | hnew
        · obtain ⟨other, hother⟩ := List.mem_iff_getElem?.1 hold
          exact ih other caller hother
        · rw [List.mem_singleton.1 hnew]
          exact Stage.inside_ended _
  obtain ⟨past, hreached⟩ := h.reached
  by_contra hgate
  obtain ⟨index, caller, hcaller, hin⟩ := hreached.guarded.entered (by simpa using hgate)
  rw [hover index caller hcaller] at hin
  cases hin

end Traffic

end Credential

end ChatGateway
