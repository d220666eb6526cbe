import ChatGateway.Proofs.CallSteps
import Mathlib.Algebra.Ring.Nat
import Mathlib.Data.List.Induction

/-!
# Runs of calls side by side

What one moment does to the traffic, and the principles by which a fact about every moment
becomes one about every run.  At most one call at a time is inside the gate, the traffic
never gets stuck, and without new calls it comes to an end.
-/

namespace ChatGateway

namespace Credential

namespace Traffic

variable {store : Store} {disk : Disk} {traffic next : Traffic} {moment : Moment}

/-! ## Events -/

/-- An event comes to a call that waits for it, and through the gate only if that is open. -/
theorem admits_of_event? {wait : Wait} {input : Input} {event : Event}
    (h : traffic.event? store wait input = some (disk, event)) :
    wait.Admits event ∧ (wait = .gate → traffic.keeper.gate = false) := by
  cases wait <;> cases input <;> simp [event?] at h
  case turn.turn => exact ⟨by simp [h.2.symm, Wait.Admits], by simp⟩
  case gate.turn => exact ⟨by simp [h.2.2.symm, Wait.Admits], fun _ => h.1⟩
  case reply.reply => exact ⟨by simp [h.2.symm, Wait.Admits], by simp⟩
  case save.store => exact ⟨by simp [h.2.symm, Wait.Admits], by simp⟩
  case clear.store => exact ⟨by simp [h.2.symm, Wait.Admits], by simp⟩

theorem leads_of_event? {stage : Stage} {input : Input} {event : Event} (now : UInt64)
    (h : traffic.event? store stage.wait input = some (disk, event)) :
    Stage.Leads now traffic.keeper stage event (stage.step now traffic.keeper event).2 :=
  Stage.leads_step (admits_of_event? h).1

/-- Where an event comes from, and what it does to the disk. -/
theorem event?_cases {wait : Wait} {input : Input} {event : Event}
    (h : traffic.event? store wait input = some (disk, event)) :
    (input = .turn ∧ event = .turn ∧ disk = traffic.disk) ∨
    (∃ reply, input = .reply reply ∧ event = .reply reply ∧ disk = traffic.disk) ∨
    (∃ record mishap, wait = .save record ∧ input = .store mishap ∧
      event = .stored (store.saveAmid record traffic.disk mishap).2 ∧
      disk = (store.saveAmid record traffic.disk mishap).1) ∨
    ∃ mishap, wait = .clear ∧ input = .store mishap ∧
      event = .stored (store.clearAmid traffic.disk mishap).2 ∧
      disk = (store.clearAmid traffic.disk mishap).1 := by
  cases wait <;> cases input <;> simp [event?] at h
  case turn.turn => exact .inl ⟨rfl, h.2.symm, h.1.symm⟩
  case gate.turn => exact .inl ⟨rfl, h.2.2.symm, h.2.1.symm⟩
  case reply.reply => exact .inr (.inl ⟨_, rfl, h.2.symm, h.1.symm⟩)
  case save.store => exact .inr (.inr (.inl ⟨_, _, rfl, rfl, h.2.symm, h.1.symm⟩))
  case clear.store => exact .inr (.inr (.inr ⟨_, rfl, rfl, h.2.symm, h.1.symm⟩))

theorem input_of_reply {wait : Wait} {input : Input} {reply : TokenReply}
    (h : traffic.event? store wait input = some (disk, .reply reply)) : input = .reply reply := by
  rcases event?_cases h with ⟨-, h, -⟩ | ⟨reply, rfl, h, -⟩ | ⟨_, _, -, -, h, -⟩ | ⟨_, -, -, h, -⟩
  · cases h
  · cases h
    rfl
  · cases h
  · cases h

/-- Whoever waits for anything but a closed gate can be given it. -/
theorem exists_event? (store : Store) {wait : Wait} (hwait : wait ≠ .none)
    (hgate : wait = .gate → traffic.keeper.gate = false) :
    ∃ input disk event, traffic.event? store wait input = some (disk, event) := by
  cases wait with
  | turn => exact ⟨.turn, _, _, rfl⟩
  | gate => exact ⟨.turn, _, _, by simp [event?, hgate]; exact ⟨rfl, rfl⟩⟩
  | reply request => exact ⟨.reply (.failed .timedOut), _, _, rfl⟩
  | save record => exact ⟨.store none, _, _, rfl⟩
  | clear => exact ⟨.store none, _, _, rfl⟩
  | none => exact (hwait rfl).elim

/-! ## Moments -/

/-- What one moment can do. -/
theorem step_cases (h : traffic.step store moment = some next) :
    (∃ call, moment.action = .begin call ∧ next = traffic.arrive call) ∨
    ∃ index input caller disk event, moment.action = .advance index input ∧
      traffic.calls[index]? = some caller ∧
      traffic.event? store caller.stage.wait input = some (disk, event) ∧
      next = traffic.put index caller disk
        (caller.stage.step moment.now traffic.keeper event) := by
  unfold step at h
  cases haction : moment.action with
  | begin call =>
      rw [haction] at h
      exact .inl ⟨call, rfl, (Option.some.inj h).symm⟩
  | advance index input =>
      rw [haction] at h
      obtain ⟨caller, hcaller, h⟩ := Option.bind_eq_some_iff.1 h
      obtain ⟨⟨disk, event⟩, hevent, h⟩ := Option.bind_eq_some_iff.1 h
      exact .inr ⟨index, input, caller, disk, event, rfl, hcaller, hevent,
        (Option.some.inj h).symm⟩

theorem step_advance {index : Nat} {caller : Caller} {input : Input} {event : Event} (now : UInt64)
    (hcaller : traffic.calls[index]? = some caller)
    (hevent : traffic.event? store caller.stage.wait input = some (disk, event)) :
    traffic.step store ⟨now, .advance index input⟩ =
      some (traffic.put index caller disk (caller.stage.step now traffic.keeper event)) := by
  simp [step, hcaller, hevent]

/-- Every call so far has the property, together with its number. -/
def Each (traffic : Traffic) (P : Nat → Caller → Prop) : Prop :=
  ∀ index caller, traffic.calls[index]? = some caller → P index caller

theorem getElem?_put_self {index : Nat} {caller : Caller}
    (h : traffic.calls[index]? = some caller) (disk : Disk) (step : Keeper × Stage) :
    (traffic.put index caller disk step).calls[index]? = some ⟨caller.call, step.2⟩ := by
  obtain ⟨hlt, -⟩ := List.getElem?_eq_some_iff.1 h
  simp [put, hlt]

theorem getElem?_put_of_ne {index other : Nat} (hne : index ≠ other) (caller : Caller)
    (disk : Disk) (step : Keeper × Stage) :
    (traffic.put index caller disk step).calls[other]? = traffic.calls[other]? := by
  simp [put, List.getElem?_set_ne hne]

theorem each_put {P : Nat → Caller → Prop} {index : Nat} {caller : Caller} {step : Keeper × Stage}
    (hstepped : P index ⟨caller.call, step.2⟩)
    (hothers : ∀ other held, index ≠ other → traffic.calls[other]? = some held → P other held) :
    (traffic.put index caller disk step).Each P := by
  intro other held hheld
  by_cases hne : index = other
  · subst hne
    obtain ⟨hlt, hget⟩ := List.getElem?_eq_some_iff.1 hheld
    have hstep : held = ⟨caller.call, step.2⟩ := by simpa [put] using hget.symm
    exact hstep ▸ hstepped
  · rw [getElem?_put_of_ne hne] at hheld
    exact hothers other held hne hheld

/-- A new call has the next number; the others stay as they are. -/
theorem getElem?_arrive {call : Call} {index : Nat} {caller : Caller}
    (h : (traffic.arrive call).calls[index]? = some caller) :
    traffic.calls[index]? = some caller ∨
      index = traffic.calls.length ∧ caller = ⟨call, .ofCall call⟩ := by
  rw [arrive, List.getElem?_append] at h
  split at h
  next => exact .inl h
  next hle =>
    obtain ⟨hlt, hget⟩ := List.getElem?_eq_some_iff.1 h
    rw [List.length_singleton] at hlt
    exact .inr ⟨by omega, by simpa using hget.symm⟩

theorem getElem?_arrive_of_some {call : Call} {index : Nat} {caller : Caller}
    (h : traffic.calls[index]? = some caller) :
    (traffic.arrive call).calls[index]? = some caller := by
  rw [arrive, List.getElem?_append_left (List.getElem?_eq_some_iff.1 h).1, h]

theorem each_arrive {P : Nat → Caller → Prop} {call : Call} (hold : traffic.Each P)
    (hnew : P traffic.calls.length ⟨call, .ofCall call⟩) : (traffic.arrive call).Each P := by
  intro index caller h
  rcases getElem?_arrive h with h | ⟨rfl, rfl⟩
  · exact hold index caller h
  · exact hnew

/-! ## Runs -/

@[simp] theorem run_nil (store : Store) (traffic : Traffic) :
    traffic.run store [] = some traffic := rfl

theorem run_cons (store : Store) (traffic : Traffic) (moment : Moment) (rest : List Moment) :
    traffic.run store (moment :: rest) =
      (traffic.step store moment).bind fun next => next.run store rest := rfl

theorem run_append (store : Store) (traffic : Traffic) (first second : List Moment) :
    traffic.run store (first ++ second) =
      (traffic.run store first).bind fun next => next.run store second := by
  induction first generalizing traffic with
  | nil => rfl
  | cons moment rest ih =>
      rw [List.cons_append, run_cons, run_cons, Option.bind_assoc]
      exact congrArg _ (funext ih)

theorem run_concat (store : Store) (traffic : Traffic) (past : List Moment) (moment : Moment) :
    traffic.run store (past ++ [moment]) =
      (traffic.run store past).bind fun now => now.step store moment := by
  rw [run_append]
  congr 1
  funext now
  rw [run_cons]
  cases now.step store moment <;> rfl

/-- What holds at the start and is kept by every moment holds after every run. -/
theorem run_induction {start : Traffic} {P : List Moment → Traffic → Prop}
    (hstart : P [] start)
    (hstep : ∀ past traffic moment next, start.run store past = some traffic → P past traffic →
      traffic.step store moment = some next → P (past ++ [moment]) next)
    {past : List Moment} (h : start.run store past = some traffic) : P past traffic := by
  induction past using List.reverseRecOn generalizing traffic with
  | nil =>
      cases h
      exact hstart
  | append_singleton past moment ih =>
      rw [run_concat] at h
      obtain ⟨before, hbefore, hmoment⟩ := Option.bind_eq_some_iff.1 h
      exact hstep past before moment traffic hbefore (ih hbefore) hmoment

/-- The traffic that a run leads to, from the opening with the record on a disk. -/
def Reached (store : Store) (disk : Disk) (past : List Moment) (traffic : Traffic) : Prop :=
  ∃ start, opened store disk = .ok start ∧ start.run store past = some traffic

theorem Reached.step {past : List Moment} (h : Reached store disk past traffic)
    (hstep : traffic.step store moment = some next) :
    Reached store disk (past ++ [moment]) next := by
  obtain ⟨start, hopen, hrun⟩ := h
  refine ⟨start, hopen, ?_⟩
  rw [run_concat, hrun]
  exact hstep

theorem Reached.run {past later : List Moment} (h : Reached store disk past traffic)
    (hrun : traffic.run store later = some next) :
    Reached store disk (past ++ later) next := by
  obtain ⟨start, hopen, hpast⟩ := h
  refine ⟨start, hopen, ?_⟩
  rw [run_append, hpast]
  exact hrun

/-- At the opening there is no call, and the keeper knows nothing but the stored record. -/
theorem opened_eq_ok {start : Traffic} (h : opened store disk = .ok start) :
    ∃ stored, store.load disk = .ok stored ∧ start = ⟨.initial stored, disk, [], [], []⟩ := by
  unfold opened at h
  cases hload : store.load disk with
  | error failure =>
      rw [hload] at h
      cases h
  | ok stored =>
      rw [hload] at h
      cases h
      exact ⟨stored, rfl, rfl⟩

theorem Reached.induction {P : List Moment → Traffic → Prop}
    (hopen : ∀ stored, store.load disk = .ok stored → P [] ⟨.initial stored, disk, [], [], []⟩)
    (hstep : ∀ past traffic moment next, Reached store disk past traffic → P past traffic →
      traffic.step store moment = some next → P (past ++ [moment]) next)
    {past : List Moment} (h : Reached store disk past traffic) : P past traffic := by
  obtain ⟨start, hstart, hrun⟩ := h
  obtain ⟨stored, hload, rfl⟩ := opened_eq_ok hstart
  apply run_induction (hopen stored hload) _ hrun
  intro past now moment next hpast
  exact hstep past now moment next ⟨_, hstart, hpast⟩

/-! ## The gate -/

/-- The gate is closed exactly while a call is inside, and one call at most is. -/
structure Guarded (traffic : Traffic) : Prop where
  closed : traffic.Each fun _ caller => caller.stage.inside = true → traffic.keeper.gate = true
  alone : ∀ {index other : Nat} {caller held : Caller}, traffic.calls[index]? = some caller →
    traffic.calls[other]? = some held → caller.stage.inside = true →
    held.stage.inside = true → index = other
  entered : traffic.keeper.gate = true →
    ∃ index : Nat, ∃ caller, traffic.calls[index]? = some caller ∧ caller.stage.inside = true

theorem Guarded.arrive (h : traffic.Guarded) (call : Call) : (traffic.arrive call).Guarded := by
  have hout : (Stage.ofCall call).inside = false := by cases call <;> rfl
  constructor
  · apply each_arrive h.closed
    intro hin
    rw [hout] at hin
    cases hin
  · intro index other caller held hcaller hheld hin hin'
    rcases getElem?_arrive hcaller with hcaller | ⟨-, rfl⟩
    · rcases getElem?_arrive hheld with hheld | ⟨-, rfl⟩
      · exact h.alone hcaller hheld hin hin'
      · rw [hout] at hin'
        cases hin'
    · rw [hout] at hin
      cases hin
  · intro hgate
    obtain ⟨index, caller, hcaller, hin⟩ := h.entered hgate
    exact ⟨index, caller, getElem?_arrive_of_some hcaller, hin⟩

theorem Guarded.outside (h : traffic.Guarded) {index other : Nat} {caller held : Caller}
    (hcaller : traffic.calls[index]? = some caller) (hheld : traffic.calls[other]? = some held)
    (hne : index ≠ other) (hin : held.stage.inside = true) : caller.stage.inside = false := by
  rw [← Bool.not_eq_true]
  exact fun hcin => hne (h.alone hcaller hheld hcin hin)

/-- While a call is inside, no other call comes inside. -/
theorem Guarded.stays_outside (h : traffic.Guarded) {index other : Nat} {caller held : Caller}
    {input : Input} {event : Event} (now : UInt64) (hcaller : traffic.calls[index]? = some caller)
    (hheld : traffic.calls[other]? = some held) (hne : index ≠ other)
    (hin : held.stage.inside = true)
    (hevent : traffic.event? store caller.stage.wait input = some (disk, event)) :
    caller.stage.inside = false ∧
      (caller.stage.step now traffic.keeper event).2.inside = false := by
  have hout := h.outside hcaller hheld hne hin
  refine ⟨hout, ?_⟩
  rw [← Bool.not_eq_true]
  intro hnext
  have hgate := (admits_of_event? hevent).2 ((leads_of_event? now hevent).wait_of_inside hout hnext)
  rw [h.closed other held hheld hin] at hgate
  cases hgate

theorem Guarded.put (h : traffic.Guarded) {index : Nat} {caller : Caller} {input : Input}
    {event : Event} (now : UInt64) (hcaller : traffic.calls[index]? = some caller)
    (hevent : traffic.event? store caller.stage.wait input = some (disk, event)) :
    (traffic.put index caller disk (caller.stage.step now traffic.keeper event)).Guarded := by
  have hself := getElem?_put_self hcaller disk (caller.stage.step now traffic.keeper event)
  have hgate : (traffic.put index caller disk
      (caller.stage.step now traffic.keeper event)).keeper.gate = _ :=
    congrArg Keeper.gate (Stage.keeper_step _ _ (admits_of_event? hevent).1)
  -- The others are where they were: the one inside, if any, keeps the stepping call out.
  have hothers : ∀ {other held}, index ≠ other → traffic.calls[other]? = some held →
      held.stage.inside = true →
      (caller.stage.step now traffic.keeper event).2.inside = false ∧
        (traffic.put index caller disk
          (caller.stage.step now traffic.keeper event)).keeper.gate = true := by
    intro other held hne hheld hin
    obtain ⟨hout, hnext⟩ := h.stays_outside now hcaller hheld hne hin hevent
    refine ⟨hnext, ?_⟩
    rw [hgate, hout, hnext]
    exact h.closed other held hheld hin
  refine ⟨each_put ?_ fun other held hne hheld hin => (hothers hne hheld hin).2, ?_, ?_⟩
  · intro hnext
    rw [hgate]
    show (if (caller.stage.step now traffic.keeper event).2.inside = _ then _ else _) = true
    by_cases hin : caller.stage.inside = true
    · rw [if_pos (by rw [hnext, hin])]
      exact h.closed index caller hcaller hin
    · rw [if_neg (by rw [hnext]; exact fun heq => hin heq.symm)]
      exact hnext
  · intro first second one two hone htwo hin hin'
    by_cases hfirst : index = first
    · by_cases hsecond : index = second
      · exact hfirst.symm.trans hsecond
      · subst hfirst
        rw [hself] at hone
        cases hone
        rw [getElem?_put_of_ne hsecond] at htwo
        rw [(hothers hsecond htwo hin').1] at hin
        cases hin
    · rw [getElem?_put_of_ne hfirst] at hone
      by_cases hsecond : index = second
      · subst hsecond
        rw [hself] at htwo
        cases htwo
        rw [(hothers hfirst hone hin).1] at hin'
        cases hin'
      · rw [getElem?_put_of_ne hsecond] at htwo
        exact h.alone hone htwo hin hin'
  · intro hclosed
    by_cases hnext : (caller.stage.step now traffic.keeper event).2.inside = true
    · exact ⟨index, _, hself, hnext⟩
    · rw [hgate] at hclosed
      rw [Bool.not_eq_true] at hnext
      by_cases hout : caller.stage.inside = false
      · rw [hnext, hout] at hclosed
        obtain ⟨other, held, hheld, hin⟩ := h.entered hclosed
        have hne : index ≠ other := by
          rintro rfl
          rw [hcaller] at hheld
          cases hheld
          rw [hout] at hin
          cases hin
        exact ⟨other, held, by rwa [getElem?_put_of_ne hne], hin⟩
      · rw [hnext, if_neg fun heq => hout heq.symm] at hclosed
        cases hclosed

theorem Guarded.step (h : traffic.Guarded) (hstep : traffic.step store moment = some next) :
    next.Guarded := by
  rcases step_cases hstep with ⟨call, -, rfl⟩ |
    ⟨index, input, caller, disk, event, -, hcaller, hevent, rfl⟩
  · exact h.arrive call
  · exact h.put moment.now hcaller hevent

theorem Reached.guarded {past : List Moment} (h : Reached store disk past traffic) :
    traffic.Guarded := by
  apply h.induction (P := fun _ traffic => traffic.Guarded)
  · intro stored hload
    constructor
    · intro index caller hcaller
      simp at hcaller
    · intro index other caller held hcaller
      simp at hcaller
    · intro hgate
      cases hgate
  · intro past traffic moment next _ hguarded hstep
    exact hguarded.step hstep

/-! ## Getting on -/

/-- As long as a call is under way, it can go on, or the one inside can. -/
theorem Guarded.goes_on (h : traffic.Guarded) {index : Nat} {caller : Caller}
    (hcaller : traffic.calls[index]? = some caller) (hwait : caller.stage.wait ≠ .none)
    (now : UInt64) :
    ∃ other held input next, traffic.calls[other]? = some held ∧
      (other = index ∧ held = caller ∨ held.stage.inside = true) ∧
      traffic.step store ⟨now, .advance other input⟩ = some next := by
  cases hgate : traffic.keeper.gate with
  | false =>
      obtain ⟨input, disk, event, hevent⟩ := exists_event? store hwait fun _ => hgate
      exact ⟨index, caller, input, _, hcaller, .inl ⟨rfl, rfl⟩, step_advance now hcaller hevent⟩
  | true =>
      obtain ⟨other, held, hheld, hin⟩ := h.entered hgate
      obtain ⟨input, disk, event, hevent⟩ := exists_event? store
        (Stage.wait_ne_none_of_inside hin) fun hat => (Stage.wait_ne_gate_of_inside hin hat).elim
      exact ⟨other, held, input, _, hheld, .inr hin, step_advance now hheld hevent⟩

/-- The steps that the calls under way have to go, at most. -/
def rank (traffic : Traffic) : Nat :=
  (traffic.calls.map fun caller => caller.stage.rank).sum

theorem sum_map_set_lt {α : Type} (f : α → Nat) {items : List α} {index : Nat} {old new : α}
    (h : items[index]? = some old) (hlt : f new < f old) :
    ((items.set index new).map f).sum < (items.map f).sum := by
  induction items generalizing index with
  | nil => simp at h
  | cons item rest ih =>
      cases index with
      | zero =>
          cases h
          simpa using hlt
      | succ index =>
          have hrest := ih (by simpa using h)
          simpa using hrest

theorem rank_advance {index : Nat} {input : Input} (haction : moment.action = .advance index input)
    (h : traffic.step store moment = some next) : next.rank < traffic.rank := by
  rcases step_cases h with ⟨call, hbegin, -⟩ |
    ⟨index, input, caller, disk, event, -, hcaller, hevent, rfl⟩
  · rw [haction] at hbegin
    cases hbegin
  · apply sum_map_set_lt (fun caller => caller.stage.rank) hcaller
    exact (leads_of_event? _ hevent).rank_lt

/-- Without new calls a run is only so long. -/
theorem length_add_rank_le {later : List Moment}
    (hadvance : ∀ moment ∈ later, ∃ index input, moment.action = .advance index input)
    (h : traffic.run store later = some next) : later.length + next.rank ≤ traffic.rank := by
  induction later generalizing traffic with
  | nil =>
      cases h
      simp
  | cons moment rest ih =>
      rw [run_cons] at h
      obtain ⟨between, hmoment, hrest⟩ := Option.bind_eq_some_iff.1 h
      obtain ⟨index, input, haction⟩ := hadvance moment List.mem_cons_self
      have hle := ih (fun later hlater => hadvance later (List.mem_cons_of_mem _ hlater)) hrest
      have hlt : between.rank < traffic.rank := rank_advance haction hmoment
      rw [List.length_cons]
      omega

end Traffic

end Credential

end ChatGateway
