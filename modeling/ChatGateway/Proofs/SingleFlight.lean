import ChatGateway.Proofs.RefreshPhases

/-!
# One refresh for everyone

Whoever comes for a token while the record is stale, and looks at the generation before a
refresh is settled, shares one refresh: the endpoint is asked once, and everyone has the same
outcome.  Whoever comes after it was settled does not share it.

What nobody shares is a refresh whose grant has no time for its end.  Its caller breaks off,
and the next one at the gate asks again.
-/

namespace ChatGateway

namespace Credential

namespace Traffic

variable {store : Store} {disk : Disk} {traffic next start last : Traffic} {past : List Moment}
  {moments : List Moment} {moment : Moment} {now : UInt64} {record : Record} {first index : Nat}
  {caller : Caller} {lost : List Nat}

/-- It is a call for a token that goes on. -/
def ByCaller (traffic : Traffic) (moment : Moment) : Prop :=
  ∃ index input caller, moment.action = .advance index input ∧
    traffic.calls[index]? = some caller ∧ caller.call = .token

/-- The clock stands still, and only calls for a token change the session. -/
def Quiet (store : Store) (now : UInt64) : Traffic -> List Moment -> Prop
  | _, [] => True
  | traffic, moment :: rest =>
      moment.now = now ∧ ∀ next, traffic.step store moment = some next →
        (¬ traffic.ByCaller moment → next.keeper.session = traffic.keeper.session) ∧
          Quiet store now next rest

/-- All newcomers have looked at the generation. -/
def Counted (first : Nat) (traffic : Traffic) : Prop :=
  ∀ index caller, traffic.Newcomer first index caller → caller.stage.early = false

/-- All newcomers have an answer. -/
def Answered (first : Nat) (traffic : Traffic) : Prop :=
  ∀ index caller, traffic.Newcomer first index caller → ∃ answer, caller.stage = .over answer

/-- All newcomers have an answer or have broken off. -/
def AllEnded (first : Nat) (traffic : Traffic) : Prop :=
  ∀ index caller, traffic.Newcomer first index caller → caller.stage.wait = .none

/-- All newcomers have looked at the generation, or there is only one. -/
def Together (first : Nat) (traffic : Traffic) : Prop :=
  traffic.Counted first ∨
    ∃ only, ∀ index caller, traffic.Newcomer first index caller → index = only

/--
The first calls for a token are over or have broken off, or they have seen a generation that
neither is the one at the start nor follows it.
-/
structure Behind (start traffic : Traffic) : Prop where
  grown : start.calls.length ≤ traffic.calls.length
  before : traffic.Each fun index caller => index < start.calls.length → caller.call = .token →
    caller.stage.wait = .none ∨
    ∃ seen, caller.stage.seen? = some seen ∧ seen ≠ start.keeper.generation ∧
      seen ≠ start.keeper.generation + 1 ∧ start.keeper.lastRefresh ≠ none

/-- The refresh that the newcomers share is in some phase, with those who are lost. -/
def InPhase (start : Traffic) (record : Record) (now : UInt64) (past : List Moment)
    (traffic : Traffic) : Prop :=
  ∃ lost, Lost start now past traffic lost ∧ Phase start record now past traffic lost

/-! ## One step -/

theorem Phase.generation (h : Phase start record now past traffic lost) :
    (traffic.keeper.generation = start.keeper.generation ∨
      traffic.keeper.generation = start.keeper.generation + 1) ∧
    (start.keeper.lastRefresh ≠ none → traffic.keeper.lastRefresh ≠ none) := by
  cases h with
  | waiting calm | asking _ _ calm | answered _ _ _ calm =>
      exact ⟨.inl calm.generation, fun hlast => calm.last ▸ hlast⟩
  | settled _ _ generation last =>
      refine ⟨.inr generation, fun _ hnone => ?_⟩
      rw [last] at hnone
      cases hnone

/-- Refreshes that are settled stay settled. -/
theorem settled_prefix_step (hstep : traffic.step store moment = some next) :
    traffic.settled <+: next.settled := by
  rcases step_cases hstep with ⟨call, -, rfl⟩ | ⟨index, input, caller, disk, event, -, -, -, rfl⟩
  · exact List.prefix_refl _
  · exact List.prefix_append _ _

theorem settled_prefix_run (hrun : traffic.run store moments = some last) :
    traffic.settled <+: last.settled := by
  apply run_induction (P := fun _ last => traffic.settled <+: last.settled)
    (List.prefix_refl _) _ hrun
  intro past now moment next _ hprefix hstep
  exact hprefix.trans (settled_prefix_step hstep)

theorem Phase.settled_prefix (h : Phase start record now past traffic lost) :
    start.settled <+: traffic.settled := by
  cases h with
  | waiting calm | asking _ _ calm | answered _ _ _ calm => exact calm.settled ▸ List.prefix_refl _
  | settled _ _ _ _ settled => exact settled ▸ List.prefix_append _ _

/-- A newcomer was there before, unless it came just now. -/
theorem newcomer_step (hstep : traffic.step store moment = some next)
    (h : next.Newcomer first index caller) :
    (∃ held, traffic.Newcomer first index held ∧
      (caller.stage.early = true → held.stage.early = true)) ∨
    moment.action = .begin .token ∧ index = traffic.calls.length ∧ caller.stage.early = true := by
  rcases step_cases hstep with ⟨call, haction, rfl⟩ |
    ⟨other, input, held, disk, event, -, hheld, hevent, rfl⟩
  · rcases getElem?_arrive h.here with hcaller | ⟨rfl, rfl⟩
    · exact .inl ⟨caller, ⟨h.late, hcaller, h.token⟩, id⟩
    · have htoken : call = .token := h.token
      subst htoken
      exact .inr ⟨haction, rfl, rfl⟩
  · rcases newcomer_put hheld h with ⟨rfl, rfl⟩ | ⟨-, hcaller⟩
    · exact .inl ⟨held, ⟨h.late, hheld, h.token⟩, (leads_of_event? _ hevent).early_of_early⟩
    · exact .inl ⟨caller, hcaller, id⟩

theorem newcomer_run (hrun : traffic.run store moments = some last)
    (hcame : ∀ moment ∈ moments, moment.action ≠ .begin .token)
    (h : last.Newcomer first index caller) : ∃ held, traffic.Newcomer first index held := by
  induction moments generalizing traffic with
  | nil =>
      cases hrun
      exact ⟨caller, h⟩
  | cons moment rest ih =>
      rw [run_cons] at hrun
      obtain ⟨next, hstep, hrest⟩ := Option.bind_eq_some_iff.1 hrun
      obtain ⟨held, hheld⟩ := ih hrest fun later hlater => hcame later (.tail _ hlater)
      rcases newcomer_step hstep hheld with ⟨before, hbefore, -⟩ | ⟨hbegin, -⟩
      · exact ⟨before, hbefore⟩
      · exact (hcame moment List.mem_cons_self hbegin).elim

theorem Counted.step (h : traffic.Counted first) (hstep : traffic.step store moment = some next)
    (hcame : moment.action ≠ .begin .token) : next.Counted first := by
  intro index caller hcaller
  rcases newcomer_step hstep hcaller with ⟨held, hheld, hearly⟩ | ⟨hbegin, -⟩
  · rw [← Bool.not_eq_true]
    intro hcaller
    rw [h index held hheld] at hearly
    cases hearly hcaller
  · exact (hcame hbegin).elim

theorem Together.step (h : traffic.Together first) (hstep : traffic.step store moment = some next)
    (hcame : moment.action ≠ .begin .token) : next.Together first := by
  rcases h with hcounted | ⟨only, honly⟩
  · exact .inl (hcounted.step hstep hcame)
  · refine .inr ⟨only, fun index caller hcaller => ?_⟩
    rcases newcomer_step hstep hcaller with ⟨held, hheld, -⟩ | ⟨hbegin, -⟩
    · exact honly index held hheld
    · exact (hcame hbegin).elim

theorem Behind.arrive (h : Behind start traffic) (call : Call) :
    Behind start (traffic.arrive call) where
  grown := Nat.le_trans h.grown (by simp [Traffic.arrive])
  before := each_arrive h.before fun hlt _ => absurd h.grown (by omega)

theorem Behind.put (h : Behind start traffic) (disk : Disk) {result : Keeper × Stage}
    (hnext : index < start.calls.length → caller.call = .token →
      result.2.wait = .none ∨
      ∃ seen, result.2.seen? = some seen ∧ seen ≠ start.keeper.generation ∧
        seen ≠ start.keeper.generation + 1 ∧ start.keeper.lastRefresh ≠ none) :
    Behind start (traffic.put index caller disk result) where
  grown := by simpa [Traffic.put] using h.grown
  before := each_put hnext fun other held _ hheld => h.before other held hheld

/-- A call for a token that was there before the newcomers does not touch the refresh. -/
theorem Behind.step_calm (h : Behind start traffic)
    (hphase : Phase start record now past traffic lost) (hlt : index < start.calls.length) (hcaller : traffic.calls[index]? = some caller)
    (htoken : caller.call = .token) {input : Input} {event : Event}
    (hevent : traffic.event? store caller.stage.wait input = some (disk, event)) :
    caller.stage.settling? = none ∧ (caller.stage.step now traffic.keeper event).2.asks? = none ∧
      (∀ session, caller.stage.write session = session) ∧
      ((caller.stage.step now traffic.keeper event).2.wait = .none ∨
      ∃ seen, (caller.stage.step now traffic.keeper event).2.seen? = some seen ∧
        seen ≠ start.keeper.generation ∧ seen ≠ start.keeper.generation + 1 ∧
        start.keeper.lastRefresh ≠ none) := by
  have hleads := leads_of_event? now hevent
  rcases h.before index caller hcaller hlt htoken with
    hended | ⟨seen, hseen, hne, hne', hlast⟩
  · exact (hleads.wait_ne_none hended).elim
  have hup : caller.stage.UpTo seen := .inr hseen
  refine ⟨Stage.settling?_of_upTo hup, ?_⟩
  obtain ⟨hgeneration, hsome⟩ := hphase.generation
  rcases hleads.of_seen hseen with hnext | ⟨outcome, -, hnext⟩ |
    ⟨-, held, -, ⟨outcome, -, -, hnext⟩ | ⟨hfirst | hfirst, -⟩⟩
  · refine ⟨Stage.asks?_of_upTo (.inr hnext : Stage.UpTo seen _), Stage.write_of_seen hseen, ?_⟩
    exact .inr ⟨seen, hnext, hne, hne', hlast⟩
  · exact ⟨by rw [hnext]; rfl, Stage.write_of_seen hseen, .inl (by rw [hnext]; rfl)⟩
  · exact ⟨by rw [hnext]; rfl, Stage.write_of_seen hseen, .inl (by rw [hnext]; rfl)⟩
  · rw [hfirst] at hgeneration
    exact (hgeneration.elim hne hne').elim
  · exact (hsome hlast hfirst).elim

/-- A newcomer that does not ask the endpoint goes on, and does not break off. -/
theorem Lost.put_of_asks? (h : Lost start now past traffic lost) {input : Input} {event : Event}
    (hcaller : traffic.Newcomer start.calls.length index caller) (hof : caller.stage.Of .token)
    (hevent : traffic.event? store caller.stage.wait input = some (disk, event))
    (hasks : caller.stage.asks? = none) :
    Lost start now (past ++ [⟨now, .advance index input⟩])
      (traffic.put index caller disk (caller.stage.step now traffic.keeper event)) lost :=
  h.put _ hcaller.here hevent ((leads_of_event? now hevent).ne_broken hof hasks)

theorem Phase.step_newcomer (h : Phase start record now past traffic lost)
    (hlost : Lost start now past traffic lost) (hguarded : traffic.Guarded)
    (hstale : record.isFresh now Record.safetyMargin = false)
    (hcaller : traffic.Newcomer start.calls.length index caller)
    (hof : caller.stage.Of .token) {input : Input} {event : Event}
    (hevent : traffic.event? store caller.stage.wait input = some (disk, event))
    (hside : (traffic.put index caller disk
      (caller.stage.step now traffic.keeper event)).settled = start.settled ∨
      traffic.Together start.calls.length) :
    InPhase start record now (past ++ [⟨now, .advance index input⟩])
      (traffic.put index caller disk (caller.stage.step now traffic.keeper event)) := by
  have hleads := leads_of_event? now hevent
  cases h with
  | waiting calm kept asked callers =>
      have hup := (callers index caller hcaller).resolve_right hleads.not_broken
      exact ⟨lost, hlost.put_of_asks? hcaller hof hevent (Stage.asks?_of_upTo hup),
        Phase.step_waiting _ calm kept asked callers hstale hcaller hevent⟩
  | asking asking asker calm kept asked hasker stage callers =>
      by_cases hne : asking = index
      · subst hne
        have heq : asker = caller := Option.some.inj (hasker.here.symm.trans hcaller.here)
        subst heq
        by_cases hbroken : (asker.stage.step now traffic.keeper event).2 = .broken
        · rcases stage with hasks | ⟨outcome, hbrings, -⟩
          · obtain ⟨reply, rfl, hends⟩ := hleads.of_asks hasks
            cases input_of_reply hevent
            have hendless : reply.Endless now := by
              rw [hbroken] at hends
              rcases hends with hbrings | hrefreshed | ⟨-, hendless⟩
              · cases hbrings
              · cases hrefreshed
              · exact hendless
            exact ⟨lost ++ [asking], hlost.put_broken hcaller hevent hbroken hendless,
              Phase.step_breaking _ calm kept asked hcaller hasks callers hevent hbroken⟩
          · exact (hleads.ne_broken hof (Stage.asks?_of_brings hbrings).1 hbroken).elim
        · exact ⟨lost, hlost.put _ hcaller.here hevent hbroken,
            Phase.step_asking calm kept asked hcaller stage callers hstale hevent hbroken⟩
      · have hup := (callers index caller hcaller hne).resolve_right hleads.not_broken
        exact ⟨lost, hlost.put_of_asks? hcaller hof hevent (Stage.asks?_of_upTo hup),
          Phase.step_beside_asking hguarded calm kept asked hasker stage callers hstale hcaller hne
            hof _ hevent⟩
  | answered asking asker outcome calm agrees asked hasker stage replied callers =>
      by_cases hne : asking = index
      · subst hne
        have heq : asker = caller := Option.some.inj (hasker.here.symm.trans hcaller.here)
        subst heq
        have hcounted : traffic.Counted start.calls.length := by
          rcases hside with hsame | hcounted | ⟨only, honly⟩
          · simp [put, Stage.settling?_eq_some.2 stage, calm.settled] at hsame
          · exact hcounted
          · intro other held hheld
            have heq : other = asking := (honly other held hheld).trans (honly _ _ hcaller).symm
            subst heq
            rw [Option.some.inj (hheld.here.symm.trans hcaller.here), stage]
            rfl
        exact ⟨lost, hlost.put_of_asks? hcaller hof hevent (by rw [stage]; rfl),
          Phase.step_answered _ calm agrees asked hcaller stage (replied.later _) callers hcounted
            hevent⟩
      · have hup := hleads.resolve (callers index caller hcaller hne)
        exact ⟨lost, hlost.put_of_asks? hcaller hof hevent (Stage.asks?_of_upTo hup),
          Phase.step_beside_answered _ hguarded calm agrees asked hasker stage (replied.later _)
            callers hcaller hne hof hevent⟩
  | settled asking outcome generation last settled agrees asked asker replied callers =>
      have hseen := hleads.resolve (callers index caller hcaller)
      exact ⟨lost, hlost.put_of_asks? hcaller hof hevent
          (Stage.asks?_of_upTo (.inr hseen : caller.stage.UpTo start.keeper.generation)),
        Phase.step_settled generation last settled agrees asked asker (replied.later _) callers
          hcaller hevent⟩

/-- What touches neither the refresh nor the newcomers keeps the phase. -/
theorem InPhase.of_same (h : InPhase start record now past traffic) (later : List Moment)
    (hcalm : Calm traffic next) (hsession : next.keeper.session = traffic.keeper.session)
    (hasked : next.refreshes = traffic.refreshes)
    (hkept : ∀ {index caller}, traffic.Newcomer start.calls.length index caller →
      next.Newcomer start.calls.length index caller)
    (hnew : ∀ {index caller}, next.Newcomer start.calls.length index caller →
      traffic.Newcomer start.calls.length index caller ∨
        caller.stage.early = true ∧ next.settled = start.settled) :
    InPhase start record now (past ++ later) next := by
  obtain ⟨lost, hlost, hphase⟩ := h
  exact ⟨lost, hlost.of_same later hkept hnew,
    hphase.of_same later hcalm hsession hasked hkept hnew⟩

/-- A call comes, and not for a token once the refresh is settled. -/
theorem InPhase.arrive (h : InPhase start record now past traffic) (call : Call)
    (later : List Moment) (hside : traffic.settled = start.settled ∨ call ≠ .token) :
    InPhase start record now (past ++ later) (traffic.arrive call) := by
  refine h.of_same _ ⟨rfl, rfl, rfl⟩ rfl rfl ?_ ?_
  · intro index caller hcaller
    exact ⟨hcaller.late, getElem?_arrive_of_some hcaller.here, hcaller.token⟩
  · intro index caller hcaller
    rcases getElem?_arrive hcaller.here with hhere | ⟨-, rfl⟩
    · exact .inl ⟨hcaller.late, hhere, hcaller.token⟩
    · have htoken : call = .token := hcaller.token
      subst htoken
      exact .inr ⟨rfl, hside.resolve_right fun hne => hne rfl⟩

/-- A call that is no newcomer leaves the refresh and the other calls alone. -/
theorem InPhase.step_bystander (h : InPhase start record now past traffic) (later : List Moment)
    (hcaller : traffic.calls[index]? = some caller) {input : Input} {event : Event}
    (hevent : traffic.event? store caller.stage.wait input = some (disk, event))
    (hno : ¬ traffic.Newcomer start.calls.length index caller)
    (hsettling : caller.stage.settling? = none)
    (hasks : (caller.stage.step now traffic.keeper event).2.asks? = none)
    (hsession : (traffic.put index caller disk
      (caller.stage.step now traffic.keeper event)).keeper.session = traffic.keeper.session) :
    InPhase start record now (past ++ later)
      (traffic.put index caller disk (caller.stage.step now traffic.keeper event)) := by
  refine h.of_same _ (calm_put now index hevent hsettling) hsession ?_ ?_ ?_
  · rw [refreshes_put, hasks]
    exact List.append_nil _
  · intro other held hheld
    refine hheld.put_of_ne ?_ _ _ _
    rintro rfl
    have heq : caller = held := Option.some.inj (hcaller.symm.trans hheld.here)
    exact hno (heq ▸ hheld)
  · intro other held hheld
    rcases newcomer_put hcaller hheld with ⟨rfl, rfl⟩ | ⟨-, hheld⟩
    · exact (hno ⟨hheld.late, hcaller, hheld.token⟩).elim
    · exact .inl hheld

theorem InPhase.step (h : InPhase start record now past traffic) (hbehind : Behind start traffic)
    (hguarded : traffic.Guarded) (hof : traffic.Each fun _ caller => caller.stage.Of caller.call)
    (hstale : record.isFresh now Record.safetyMargin = false)
    (hstep : traffic.step store moment = some next) (hnow : moment.now = now)
    (hquiet : ¬ traffic.ByCaller moment → next.keeper.session = traffic.keeper.session)
    (hside : next.settled = start.settled ∨
      traffic.Together start.calls.length ∧ moment.action ≠ .begin .token) :
    InPhase start record now (past ++ [moment]) next ∧ Behind start next := by
  rcases step_cases hstep with ⟨call, haction, rfl⟩ |
    ⟨index, input, caller, disk, event, haction, hcaller, hevent, rfl⟩
  · refine ⟨h.arrive call _ (hside.imp_right ?_), hbehind.arrive call⟩
    rintro ⟨-, hcame⟩ rfl
    exact hcame haction
  subst hnow
  by_cases htoken : caller.call = .token
  · by_cases hlt : index < start.calls.length
    · obtain ⟨hsettling, hasks, hwrite, hnext⟩ :=
        hbehind.step_calm h.choose_spec.2 hlt hcaller htoken hevent
      refine ⟨h.step_bystander _ hcaller hevent ?_ hsettling hasks ?_,
        hbehind.put disk fun _ _ => hnext⟩
      · intro hnew
        exact absurd hlt (Nat.not_lt.2 hnew.late)
      · rw [session_put _ index hevent, hwrite]
    · have hnew : traffic.Newcomer start.calls.length index caller :=
        ⟨Nat.le_of_not_lt hlt, hcaller, htoken⟩
      obtain ⟨lost, hlost, hphase⟩ := h
      have hphase := hphase.step_newcomer hlost hguarded hstale hnew
        (htoken ▸ hof index caller hcaller) hevent (hside.imp_right And.left)
      exact ⟨by rwa [← haction] at hphase, hbehind.put disk fun hlt' _ => (hlt hlt').elim⟩
  · obtain ⟨hsettling, -⟩ := Stage.of_other (hof index caller hcaller) htoken
    have hnext := (leads_of_event? moment.now hevent).of (hof index caller hcaller)
    refine ⟨h.step_bystander _ hcaller hevent (fun hnew => htoken hnew.token) hsettling
      (Stage.of_other hnext htoken).2 (hquiet ?_),
      hbehind.put disk fun _ hcall => (htoken hcall).elim⟩
    rintro ⟨other, _, held, haction', hheld, hcall⟩
    rw [haction] at haction'
    cases haction'
    rw [hcaller] at hheld
    cases hheld
    exact htoken hcall

/-! ## A run -/

theorem InPhase.run (h : InPhase start record now past traffic) (hbehind : Behind start traffic)
    {before : List Moment} (hreached : Reached store disk before traffic)
    (hstale : record.isFresh now Record.safetyMargin = false)
    (hrun : traffic.run store moments = some last) (hquiet : traffic.Quiet store now moments)
    (hside : last.settled = start.settled ∨ traffic.Together start.calls.length ∧
      ∀ moment ∈ moments, moment.action ≠ .begin .token) :
    InPhase start record now (past ++ moments) last ∧ Behind start last := by
  induction moments generalizing traffic past before with
  | nil =>
      cases hrun
      rw [List.append_nil]
      exact ⟨h, hbehind⟩
  | cons moment rest ih =>
      rw [run_cons] at hrun
      obtain ⟨next, hstep, hrest⟩ := Option.bind_eq_some_iff.1 hrun
      obtain ⟨hnow, hquiet⟩ := hquiet
      obtain ⟨hsession, hquiet⟩ := hquiet next hstep
      have hside' : next.settled = start.settled ∨
          traffic.Together start.calls.length ∧ moment.action ≠ .begin .token := by
        rcases hside with hsame | ⟨htogether, hcame⟩
        · -- What is settled only grows, and in the end it is what it was at the start.
          have hbefore := Phase.settled_prefix h.choose_spec.2
          have hle := (hbefore.trans (settled_prefix_step hstep)).length_le
          have hgrown := settled_prefix_run hrest
          rw [hsame] at hgrown
          exact .inl (hgrown.eq_of_length_le hle)
        · exact .inr ⟨htogether, hcame moment List.mem_cons_self⟩
      obtain ⟨hphase, hbehind⟩ := h.step hbehind hreached.guarded hreached.each_of hstale hstep hnow
        hsession hside'
      rw [← List.singleton_append, ← List.append_assoc]
      refine ih hphase hbehind (hreached.step hstep) hrest hquiet ?_
      rcases hside with hsame | ⟨htogether, hcame⟩
      · exact .inl hsame
      · exact .inr ⟨htogether.step hstep (hcame moment List.mem_cons_self),
          fun later hlater => hcame later (List.mem_cons_of_mem _ hlater)⟩

theorem Quiet.append {early late : List Moment} {middle : Traffic}
    (h : traffic.Quiet store now (early ++ late)) (hrun : traffic.run store early = some middle) :
    traffic.Quiet store now early ∧ middle.Quiet store now late := by
  induction early generalizing traffic with
  | nil =>
      cases hrun
      exact ⟨trivial, h⟩
  | cons moment rest ih =>
      rw [run_cons] at hrun
      obtain ⟨next, hstep, hrest⟩ := Option.bind_eq_some_iff.1 hrun
      obtain ⟨hnow, hquiet⟩ := h
      obtain ⟨hrest, hlate⟩ := ih (hquiet next hstep).2 hrest
      refine ⟨⟨hnow, fun next' hstep' => ?_⟩, hlate⟩
      rw [hstep] at hstep'
      cases hstep'
      exact ⟨(hquiet next hstep).1, hrest⟩

/-! ## The refresh of a stale record -/

theorem InPhase.opens (hrecord : start.keeper.session.record = some record) :
    InPhase start record now [] start := by
  have hnone : ∀ index caller, ¬ start.Newcomer start.calls.length index caller := by
    intro index caller hcaller
    have hlt := (List.getElem?_eq_some_iff.1 hcaller.here).1
    have hge := hcaller.late
    omega
  refine ⟨[], ⟨List.nodup_nil, fun index => ?_, by simp⟩, .waiting ⟨rfl, rfl, rfl⟩ hrecord ?_ ?_⟩
  · refine iff_of_false List.not_mem_nil ?_
    rintro ⟨caller, hcaller, -⟩
    exact hnone index caller hcaller
  · exact (List.append_nil _).symm
  · exact fun index caller hcaller => (hnone index caller hcaller).elim

/-- The phase once everyone has an answer or has broken off. -/
theorem Phase.everyone (h : Phase start record now past last lost)
    (hended : last.AllEnded start.calls.length) :
    (∀ index caller, last.Newcomer start.calls.length index caller → caller.stage = .broken) ∧
      last.settled = start.settled ∧ last.refreshes = start.askedBy record lost ∨
    ∃ refreshed outcome, Replied past now refreshed outcome ∧
      last.settled = start.settled ++ [(refreshed, outcome)] ∧
      last.refreshes = start.askedBy record lost ++ [(refreshed, record.refreshToken)] ∧
      last.Newcomer start.calls.length refreshed ⟨.token, .over (.ofRefresh outcome)⟩ ∧
      ∀ other held, last.Newcomer start.calls.length other held →
        held.stage = .over (.ofRefresh outcome) ∨ held.stage = .broken := by
  cases h with
  | waiting calm kept asked callers =>
      refine .inl ⟨fun index caller hcaller => ?_, calm.settled, asked⟩
      refine (callers index caller hcaller).resolve_left fun hup => ?_
      exact Stage.wait_ne_none_of_upTo hup (hended index caller hcaller)
  | asking asking asker calm kept asked hasker stage callers =>
      have hin : asker.stage.inside = true := by
        rcases stage with hasks | ⟨outcome, hbrings, -⟩
        · exact (Stage.settling?_of_asks hasks).2
        · exact (Stage.asks?_of_brings hbrings).2.2
      exact (Stage.wait_ne_none_of_inside hin (hended asking asker hasker)).elim
  | answered asking asker outcome calm agrees asked hasker stage replied callers =>
      have hwait := hended asking asker hasker
      rw [stage] at hwait
      cases hwait
  | settled refreshed outcome generation latest settled agrees asked asker replied callers =>
      refine .inr ⟨refreshed, outcome, replied, settled, asked, asker, fun other held hheld => ?_⟩
      refine (callers other held hheld).resolve_left fun hseen => ?_
      have hup : held.stage.UpTo start.keeper.generation := .inr hseen
      exact Stage.wait_ne_none_of_upTo hup (hended other held hheld)

/-- Nobody is lost who has an answer. -/
theorem Lost.not_mem_of_over (h : Lost start now past traffic lost)
    (hcaller : traffic.Newcomer start.calls.length index caller) {answer : Answer}
    (hover : caller.stage = .over answer) : index ∉ lost := by
  intro hindex
  obtain ⟨held, hheld, hbroken⟩ := (h.broken index).1 hindex
  rw [Option.some.inj (hheld.here.symm.trans hcaller.here), hover] at hbroken
  cases hbroken

theorem Lost.eq_nil (h : Lost start now past traffic lost)
    (hanswered : traffic.Answered start.calls.length) : lost = [] := by
  refine List.eq_nil_iff_forall_not_mem.2 fun index hindex => ?_
  obtain ⟨caller, hcaller, -⟩ := (h.broken index).1 hindex
  obtain ⟨answer, hover⟩ := hanswered index caller hcaller
  exact h.not_mem_of_over hcaller hover hindex

theorem Answered.allEnded (h : traffic.Answered first) : traffic.AllEnded first := by
  intro index caller hcaller
  obtain ⟨answer, hover⟩ := h index caller hcaller
  rw [hover]
  rfl

/--
All who have not got their answer and have not broken off have seen a generation before, if a
refresh is settled or nobody goes on.
-/
theorem InPhase.behind (h : InPhase start record now past last)
    (hquiet : last.settled ≠ start.settled ∨ last.AllEnded start.calls.length)
    (hidle : last.Each fun index caller => index < start.calls.length → caller.call = .token →
      caller.stage.wait = .none) : Behind last last := by
  refine ⟨Nat.le_refl _, fun index caller hcaller _ htoken => ?_⟩
  by_cases hlt : index < start.calls.length
  · exact .inl (hidle index caller hcaller hlt htoken)
  have hnew : last.Newcomer start.calls.length index caller :=
    ⟨Nat.le_of_not_lt hlt, hcaller, htoken⟩
  rcases hquiet with hsettled | hended
  · obtain ⟨lost, -, hphase⟩ := h
    cases hphase with
    | waiting calm | asking _ _ calm | answered _ _ _ calm => exact (hsettled calm.settled).elim
    | settled refreshed outcome generation latest settled agrees asked asker replied callers =>
        rcases callers index caller hnew with hseen | hended
        · refine .inr ⟨_, hseen, ?_, ?_, by simp [latest]⟩
          · simp [generation]
          · simp [generation, UInt64.add_assoc]
        · exact .inl (by rcases hended with hover | hbroken <;> simp [*, Stage.wait])
  · exact .inl (hended index caller hnew)

/-- The only newcomer has asked once: it is the one that is lost, or nobody is. -/
theorem Phase.refreshes_of_only {only : Nat} (h : Phase start record now past last lost)
    (hlost : Lost start now past last lost) (hnew : last.Newcomer start.calls.length only caller)
    (honly : ∀ {index held}, last.Newcomer start.calls.length index held → index = only)
    (hended : last.AllEnded start.calls.length) :
    last.refreshes = start.refreshes ++ [(only, record.refreshToken)] := by
  rcases h.everyone hended with ⟨hbroken, -, hasked⟩ |
    ⟨refreshed, outcome, -, -, hasked, hanswered, -⟩
  · have hsingle : lost = [only] := by
      refine List.perm_singleton.1 ((List.perm_ext_iff_of_nodup hlost.nodup
        (List.nodup_singleton _)).2 fun index => ?_)
      rw [hlost.broken index, List.mem_singleton]
      constructor
      · rintro ⟨held, hheld, -⟩
        exact honly hheld
      · rintro rfl
        exact ⟨caller, hnew, hbroken _ _ hnew⟩
    rw [hasked, hsingle]
    rfl
  · have hnil : lost = [] := by
      refine List.eq_nil_iff_forall_not_mem.2 fun index hindex => ?_
      obtain ⟨held, hheld, -⟩ := (hlost.broken index).1 hindex
      rw [honly hheld, ← honly hanswered] at hindex
      exact hlost.not_mem_of_over hanswered rfl hindex
    rw [hasked, hnil, honly hanswered, askedBy, List.map_nil, List.append_nil]

/-- A single newcomer to a stale record asks the endpoint before it gets an answer or breaks off. -/
theorem asks_of_stale (hreached : Reached store disk past start) (hbehind : Behind start start)
    (hrecord : start.keeper.session.record = some record)
    (hstale : record.isFresh now Record.safetyMargin = false)
    (hrun : start.run store (⟨now, .begin .token⟩ :: moments) = some last)
    (hquiet : start.Quiet store now (⟨now, .begin .token⟩ :: moments))
    (hcame : ∀ moment ∈ moments, moment.action ≠ .begin .token)
    (hcaller : last.calls[start.calls.length]? = some caller)
    (hended : caller.stage.wait = .none) :
    last.refreshes = start.refreshes ++ [(start.calls.length, record.refreshToken)] := by
  rw [run_cons] at hrun
  obtain ⟨next, hstep, hrest⟩ := Option.bind_eq_some_iff.1 hrun
  cases (Option.some.inj hstep)
  obtain ⟨-, hquiet⟩ := hquiet
  have honly : ∀ {index caller}, (start.arrive .token).Newcomer start.calls.length index caller →
      index = start.calls.length := by
    intro index caller hcaller
    rcases newcomer_step hstep hcaller with ⟨held, hheld, -⟩ | ⟨-, heq, -⟩
    · have hlt := (List.getElem?_eq_some_iff.1 hheld.here).1
      have hge := hheld.late
      omega
    · exact heq
  obtain ⟨hphase, hbehind⟩ := (InPhase.opens hrecord).step hbehind hreached.guarded hreached.each_of
    hstale hstep rfl (fun _ => rfl) (.inl rfl)
  obtain ⟨⟨lost, hlost, hphase⟩, -⟩ := hphase.run hbehind (hreached.step hstep) hstale hrest
    (hquiet _ hstep).2 (.inr ⟨.inr ⟨_, fun _ _ => honly⟩, hcame⟩)
  have hstay : ∀ {index caller}, last.Newcomer start.calls.length index caller →
      index = start.calls.length := by
    intro index caller hcaller
    obtain ⟨held, hheld⟩ := newcomer_run hrest hcame hcaller
    exact honly hheld
  have hnew : last.Newcomer start.calls.length start.calls.length caller := by
    refine ⟨Nat.le_refl _, hcaller, ?_⟩
    have hcame : (start.arrive .token).calls[start.calls.length]? =
        some ⟨.token, .ofCall .token⟩ := by simp [Traffic.arrive]
    obtain ⟨held, hheld, hcall, -⟩ := run_call hrest hcame
    rw [hcaller] at hheld
    cases hheld
    exact hcall
  have hall : last.AllEnded start.calls.length := by
    intro index held hheld
    have hindex := hstay hheld
    subst hindex
    rwa [Option.some.inj (hheld.here.symm.trans hcaller)]
  exact hphase.refreshes_of_only hlost hnew hstay hall

/-- A run is quiet if nothing but calls for a token goes on. -/
theorem quiet_of_callers (hrun : traffic.run store moments = some last)
    (hnow : ∀ moment ∈ moments, moment.now = now)
    (hcallers : ∀ moment ∈ moments, ∀ index input, moment.action = .advance index input →
      ∃ caller, last.calls[index]? = some caller ∧ caller.call = .token) :
    traffic.Quiet store now moments := by
  induction moments generalizing traffic with
  | nil => exact trivial
  | cons moment rest ih =>
      rw [run_cons] at hrun
      obtain ⟨next, hstep, hrest⟩ := Option.bind_eq_some_iff.1 hrun
      refine ⟨hnow moment List.mem_cons_self, fun next' hstep' => ?_⟩
      rw [hstep] at hstep'
      cases hstep'
      refine ⟨fun hother => ?_, ih hrest (fun later hlater => hnow later (.tail _ hlater))
        fun later hlater => hcallers later (.tail _ hlater)⟩
      rcases step_cases hstep with ⟨call, -, rfl⟩ |
        ⟨index, input, caller, disk, event, haction, hcaller, -, -⟩
      · rfl
      · obtain ⟨held, hheld, htoken⟩ := hcallers moment List.mem_cons_self index input haction
        obtain ⟨after, hafter, hcall, -⟩ := step_call hstep hcaller
        obtain ⟨ended, hended, hcall', -⟩ := run_call hrest hafter
        rw [hheld] at hended
        cases hended
        exact (hother ⟨index, input, caller, haction, hcaller,
          hcall.symm.trans (hcall'.symm.trans htoken)⟩).elim

/-- The calls for a token that had ended at the start are as they were. -/
theorem idle_run (hidle : start.Each fun _ caller => caller.call = .token →
      caller.stage.wait = .none) (hrun : start.run store moments = some last) :
    last.Each fun index caller => index < start.calls.length → caller.call = .token →
      caller.stage.wait = .none := by
  intro index caller hcaller hlt htoken
  obtain ⟨before, hbefore⟩ : ∃ before, start.calls[index]? = some before :=
    ⟨_, List.getElem?_eq_getElem hlt⟩
  obtain ⟨held, hheld, hcall, -⟩ := run_call hrun hbefore
  rw [hcaller] at hheld
  cases hheld
  have hended := hidle index before hbefore (hcall ▸ htoken)
  rw [run_ended hrun hbefore hended] at hcaller
  cases hcaller
  exact hended

/--
Callers come for a token while the record is stale, and all of them look at the generation
before a refresh is settled.  If all of them have an answer, the endpoint was asked once, what
it replied decides the outcome, and everyone's answer is this outcome, stored or not.  Those
who broke off have asked once each, were granted something that has no time for its end, and
share nothing; the others share one more refresh.  A refresh that leaves a stale record is not
shared with whoever comes after it was settled.  Nobody waits for ever: some caller can go on,
unless somebody else is inside, and without new calls only so often.
-/
theorem one_refresh_unless_broken_off (h : Reached store disk past start)
    (hidle : start.Each fun _ caller => caller.call = .token → caller.stage.wait = .none)
    (hrecord : start.keeper.session.record = some record)
    (hstale : record.isFresh now Record.safetyMargin = false) {early late : List Moment}
    {middle : Traffic} (hearly : start.run store early = some middle)
    (hlate : middle.run store late = some last) (hquiet : start.Quiet store now (early ++ late))
    (hunsettled : middle.settled = start.settled)
    (hcounted : middle.Counted start.calls.length)
    (hcame : ∀ moment ∈ late, moment.action ≠ .begin .token) :
    (last.Answered start.calls.length →
      ∀ index caller, last.Newcomer start.calls.length index caller →
      ∃ refreshed outcome, Replied (early ++ late) now refreshed outcome ∧
        last.settled = start.settled ++ [(refreshed, outcome)] ∧
        last.refreshes = start.refreshes ++ [(refreshed, record.refreshToken)] ∧
        ∀ other held, last.Newcomer start.calls.length other held →
          held.stage = .over (.ofRefresh outcome)) ∧
    (last.AllEnded start.calls.length →
      ∃ lost, Lost start now (early ++ late) last lost ∧
        ((∀ index caller, last.Newcomer start.calls.length index caller →
            caller.stage = .broken) ∧
          last.settled = start.settled ∧ last.refreshes = start.askedBy record lost ∨
        ∃ refreshed outcome, Replied (early ++ late) now refreshed outcome ∧
          last.settled = start.settled ++ [(refreshed, outcome)] ∧
          last.refreshes = start.askedBy record lost ++ [(refreshed, record.refreshToken)] ∧
          last.Newcomer start.calls.length refreshed ⟨.token, .over (.ofRefresh outcome)⟩ ∧
          ∀ other held, last.Newcomer start.calls.length other held →
            held.stage = .over (.ofRefresh outcome) ∨ held.stage = .broken)) ∧
    (last.settled ≠ start.settled ∨ last.AllEnded start.calls.length → ∀ kept time moments final,
      last.keeper.session.record = some kept →
      kept.isFresh time Record.safetyMargin = false →
      last.run store (⟨time, .begin .token⟩ :: moments) = some final →
      last.Quiet store time (⟨time, .begin .token⟩ :: moments) →
      (∀ moment ∈ moments, moment.action ≠ .begin .token) → ∀ caller : Caller,
      final.calls[last.calls.length]? = some caller → caller.stage.wait = .none →
      final.refreshes = last.refreshes ++ [(last.calls.length, kept.refreshToken)]) ∧
    ((last.Each fun _ caller => caller.stage.inside = true → caller.call = .token) →
      ∀ index caller, last.Newcomer start.calls.length index caller →
        (∀ answer, caller.stage ≠ .over answer) → caller.stage ≠ .broken →
        ∃ other held input next, last.Newcomer start.calls.length other held ∧
          last.step store ⟨now, .advance other input⟩ = some next) ∧
    ((∀ moment ∈ late, ∃ index input, moment.action = .advance index input) →
      late.length + last.rank ≤ middle.rank) := by
  obtain ⟨hquietEarly, hquietLate⟩ := hquiet.append hearly
  have hbehind : Behind start start :=
    ⟨Nat.le_refl _, fun index caller hcaller _ htoken => .inl (hidle index caller hcaller htoken)⟩
  obtain ⟨hphase, hbehind⟩ :=
    (InPhase.opens hrecord).run hbehind h hstale hearly hquietEarly (.inl hunsettled)
  obtain ⟨hphase, hbehind⟩ :=
    hphase.run hbehind (h.run hearly) hstale hlate hquietLate (.inr ⟨.inl hcounted, hcame⟩)
  have hreached := (h.run hearly).run hlate
  have hrun : start.run store (early ++ late) = some last := by
    rw [run_append, hearly]
    exact hlate
  refine ⟨?_, ?_, ?_, ?_, fun hadvance => length_add_rank_le hadvance hlate⟩
  · intro hanswered index caller hcaller
    obtain ⟨lost, hlost, hphase⟩ := hphase
    have hnil := hlost.eq_nil hanswered
    subst hnil
    rcases hphase.everyone hanswered.allEnded with ⟨hbroken, -⟩ |
      ⟨refreshed, outcome, hreplied, hsettled, hasked, -, hall⟩
    · have hlast := (hlost.broken index).2 ⟨caller, hcaller, hbroken index caller hcaller⟩
      cases hlast
    · rw [askedBy, List.map_nil, List.append_nil] at hasked
      refine ⟨refreshed, outcome, hreplied, hsettled, hasked, fun other held hheld => ?_⟩
      refine (hall other held hheld).resolve_right fun hbroken => ?_
      have hlast := (hlost.broken other).2 ⟨held, hheld, hbroken⟩
      cases hlast
  · intro hended
    obtain ⟨lost, hlost, hphase⟩ := hphase
    exact ⟨lost, hlost, hphase.everyone hended⟩
  · intro hsettled kept time moments final hkept hstale' hnext hquiet' hcame' caller hcaller hended
    exact asks_of_stale hreached (hphase.behind hsettled (idle_run hidle hrun)) hkept hstale' hnext
      hquiet' hcame' hcaller hended
  · intro hinside index caller hcaller hunder hwhole
    have hwait : caller.stage.wait ≠ .none := by
      intro hnone
      rcases Stage.wait_eq_none.1 hnone with ⟨answer, hover⟩ | hbroken
      · exact hunder answer hover
      · exact hwhole hbroken
    obtain ⟨other, held, input, next, hheld, hwho, hstep⟩ :=
      hreached.guarded.goes_on hcaller.here hwait now
    have hnew : start.calls.length ≤ other ∧ held.call = .token := by
      rcases hwho with ⟨rfl, rfl⟩ | hin
      · exact ⟨hcaller.late, hcaller.token⟩
      · have htoken := hinside other held hheld hin
        refine ⟨Nat.le_of_not_lt fun hlt => ?_, htoken⟩
        exact Stage.wait_ne_none_of_inside hin (idle_run hidle hrun other held hheld hlt htoken)
    exact ⟨other, held, input, next, ⟨hnew.1, hheld, hnew.2⟩, hstep⟩

/-- Two callers come, and the first one asks the endpoint. -/
def twoCallers : List Moment :=
  [.begin .token, .begin .token, .advance 2 .turn, .advance 2 .turn, .advance 3 .turn,
    .advance 3 .turn, .advance 2 .turn, .advance 2 .turn, .advance 2 .turn].map fun action =>
      ⟨1000, action⟩

/-- The endpoint does not answer, and both callers learn of it. -/
def noAnswer : List Moment :=
  [.advance 3 .turn, .advance 2 (.reply (.failed .timedOut)), .advance 2 .turn, .advance 3 .turn,
    .advance 3 .turn].map fun action => ⟨1000, action⟩

/-- A run after two other calls is quiet if only calls for a token go on in it. -/
theorem quiet_of_two {first second third fourth : Caller}
    (hrun : traffic.run store moments = some last) (hnow : ∀ moment ∈ moments, moment.now = now)
    (hindex : ∀ moment ∈ moments, ∀ index input, moment.action = .advance index input →
      index = 2 ∨ index = 3)
    (hcalls : last.calls = [first, second, third, fourth]) (hthird : third.call = .token)
    (hfourth : fourth.call = .token) : traffic.Quiet store now moments := by
  refine quiet_of_callers hrun hnow fun moment hmoment index input haction => ?_
  rcases hindex moment hmoment index input haction with rfl | rfl
  · exact ⟨third, by rw [hcalls]; rfl, hthird⟩
  · exact ⟨fourth, by rw [hcalls]; rfl, hfourth⟩

set_option maxRecDepth 8000 in
theorem one_refresh_for_two :
    ∃ start last : Traffic, Reached ⟨["tokens.json"]⟩ .empty shortFlow start ∧
      start.run ⟨["tokens.json"]⟩ (twoCallers ++ noAnswer) = some last ∧
      ∃ refreshed outcome, last.refreshes = start.refreshes ++ [(refreshed, "refresh")] ∧
        last.calls[2]? = some ⟨.token, .over (.ofRefresh outcome)⟩ ∧
        last.calls[3]? = some ⟨.token, .over (.ofRefresh outcome)⟩ := by
  let record : Record := ⟨"first", "refresh", "Bearer", 1030⟩
  let flow : Caller := ⟨.start ⟨"verifier", "state"⟩, .over (.started ⟨"verifier", "state"⟩)⟩
  let completed : Caller := ⟨.complete "code#state", .over (.completed record)⟩
  let refused : Caller := ⟨.token, .over (.refused .timedOut)⟩
  obtain ⟨start, middle, last, hreached, hearly, hlate, hrecord, hsettled, hbefore, hmiddle,
      hafter⟩ :
      ∃ start middle last : Traffic, Reached ⟨["tokens.json"]⟩ .empty shortFlow start ∧
        start.run ⟨["tokens.json"]⟩ twoCallers = some middle ∧
        middle.run ⟨["tokens.json"]⟩ noAnswer = some last ∧
        start.keeper.session.record = some record ∧ middle.settled = start.settled ∧
        start.calls = [flow, completed] ∧
        middle.calls = [flow, completed, ⟨.token, .refreshing "refresh"⟩, ⟨.token, .looking 0⟩] ∧
        last.calls = [flow, completed, refused, refused] :=
    ⟨_, _, _, ⟨_, rfl, rfl⟩, rfl, rfl, rfl, rfl, rfl, rfl, rfl⟩
  have hrun : start.run ⟨["tokens.json"]⟩ (twoCallers ++ noAnswer) = some last := by
    rw [run_append, hearly]
    exact hlate
  have hquiet : start.Quiet ⟨["tokens.json"]⟩ 1000 (twoCallers ++ noAnswer) :=
    quiet_of_two hrun (by decide) (by simp [twoCallers, noAnswer]) hafter rfl rfl
  have hnew : ∀ {traffic : Traffic} {third fourth : Caller} (index caller),
      traffic.calls = [flow, completed, third, fourth] →
      traffic.Newcomer start.calls.length index caller → caller = third ∨ caller = fourth := by
    intro traffic third fourth index caller hcalls hcaller
    obtain ⟨hlate, hhere, -⟩ := hcaller
    rw [hcalls] at hhere
    rw [hbefore] at hlate
    match index, hlate with
    | 2, _ => exact .inl (Option.some.inj hhere).symm
    | 3, _ => exact .inr (Option.some.inj hhere).symm
  refine ⟨start, last, hreached, hrun, ?_⟩
  obtain ⟨hshared, -⟩ := one_refresh_unless_broken_off hreached (by
      intro index caller hcaller htoken
      rw [hbefore] at hcaller
      match index with
      | 0 | 1 =>
          cases hcaller
          cases htoken) hrecord (by decide) hearly hlate hquiet hsettled (by
      intro index caller hcaller
      rcases hnew index caller hmiddle hcaller with rfl | rfl <;> rfl) (by simp [noAnswer])
  have hthird : last.Newcomer start.calls.length 2 refused :=
    ⟨by rw [hbefore]; decide, by rw [hafter]; rfl, rfl⟩
  have hfourth : last.Newcomer start.calls.length 3 refused :=
    ⟨by rw [hbefore]; decide, by rw [hafter]; rfl, rfl⟩
  obtain ⟨refreshed, outcome, -, -, hasked, hall⟩ := hshared (by
    intro index caller hcaller
    rcases hnew index caller hafter hcaller with rfl | rfl <;> exact ⟨_, rfl⟩) 2 refused hthird
  refine ⟨refreshed, outcome, hasked, ?_, ?_⟩
  · rw [hthird.here, ← hall 2 refused hthird]
  · rw [hfourth.here, ← hall 3 refused hfourth]

/-- What is granted to the first caller has no time for its end, and the second one asks again. -/
def endlessGrant : List Moment :=
  [.advance 3 .turn, .advance 2 (.reply (.granted ⟨"second", none, 18446744073709551615, none⟩)),
    .advance 3 .turn, .advance 3 .turn,
    .advance 3 (.reply (.granted ⟨"third", none, 30, none⟩)), .advance 3 (.store none),
    .advance 3 .turn, .advance 3 .turn].map fun action => ⟨1000, action⟩

set_option maxRecDepth 8000 in
/-- Two callers look at one stale record side by side, ask twice and do not have one outcome. -/
theorem endless_grant_not_shared :
    ∃ start middle last : Traffic, Reached ⟨["tokens.json"]⟩ .empty shortFlow start ∧
      start.keeper.session.record = some ⟨"first", "refresh", "Bearer", 1030⟩ ∧
      start.run ⟨["tokens.json"]⟩ twoCallers = some middle ∧
      middle.settled = start.settled ∧
      middle.run ⟨["tokens.json"]⟩ endlessGrant = some last ∧
      start.Quiet ⟨["tokens.json"]⟩ 1000 (twoCallers ++ endlessGrant) ∧
      last.refreshes = start.refreshes ++ [(2, "refresh"), (3, "refresh")] ∧
      last.calls[2]? = some ⟨.token, .broken⟩ ∧
      last.calls[3]? = some ⟨.token, .over (.token "third")⟩ := by
  obtain ⟨start, middle, last, flow, completed, hreached, hrecord, hearly, hsettled, hlate, hasked,
      hcalls⟩ :
      ∃ start middle last : Traffic, ∃ flow completed : Caller,
        Reached ⟨["tokens.json"]⟩ .empty shortFlow start ∧
        start.keeper.session.record = some ⟨"first", "refresh", "Bearer", 1030⟩ ∧
        start.run ⟨["tokens.json"]⟩ twoCallers = some middle ∧
        middle.settled = start.settled ∧
        middle.run ⟨["tokens.json"]⟩ endlessGrant = some last ∧
        last.refreshes = start.refreshes ++ [(2, "refresh"), (3, "refresh")] ∧
        last.calls =
          [flow, completed, ⟨.token, .broken⟩, ⟨.token, .over (.token "third")⟩] :=
    ⟨_, _, _, _, _, ⟨_, rfl, rfl⟩, rfl, rfl, rfl, rfl, rfl, rfl⟩
  have hrun : start.run ⟨["tokens.json"]⟩ (twoCallers ++ endlessGrant) = some last := by
    rw [run_append, hearly]
    exact hlate
  refine ⟨start, middle, last, hreached, hrecord, hearly, hsettled, hlate, ?_, hasked, ?_, ?_⟩
  · exact quiet_of_two hrun (by decide) (by simp [twoCallers, endlessGrant]) hcalls rfl rfl
  · rw [hcalls]
    rfl
  · rw [hcalls]
    rfl

end Traffic

end Credential

end ChatGateway
