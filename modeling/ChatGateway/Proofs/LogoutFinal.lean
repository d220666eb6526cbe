import ChatGateway.Proofs.RefreshPhases
import ChatGateway.Proofs.StoredFile

/-!
# A logout is final

From the moment on at which a logout empties the session there is no record in memory and no
file, and nobody gets a token, until a flow that was begun afterwards is completed.  Whatever
was under way when the logout came finds its flow or its record gone.
-/

namespace ChatGateway

namespace Credential

namespace Stage

variable {now : UInt64} {keeper : Keeper} {stage next : Stage} {event : Event}

/-- A call comes to this stage only with a record in memory. -/
def usesRecord : Stage -> Bool
  | .retryStoring _ | .retryStored _ | .refreshing _ | .refreshStoring _ => true
  | .refreshStored _ _ | .refreshClearing _ | .refreshCleared _ | .refreshed _ => true
  | _ => false

theorem Leads.usesRecord (h : Leads now keeper stage event next) (hnext : next.usesRecord = true) :
    stage.usesRecord = true ∨ ∃ record, keeper.session.record = some record := by
  cases h <;> simp_all [Stage.usesRecord]

theorem usesRecord_of_asks? {used : String} (h : stage.asks? = some used) :
    stage.usesRecord = true := by
  cases stage <;> simp_all [usesRecord, asks?]

theorem Leads.of_cleared (h : Leads now keeper stage event next) (hnext : next = .logoutCleared) :
    stage = .logoutClearing ∧ event = .stored (.ok ()) := by
  cases h <;> simp_all

theorem Leads.of_completed {record : Record} (h : Leads now keeper stage event next)
    (hnext : next = .over (.completed record)) : stage = .exchangeStored record := by
  have houtcome : ∀ {outcome}, Answer.ofRefresh outcome ≠ .completed record := by
    intro outcome
    cases outcome <;> simp [Answer.ofRefresh]
  cases h <;> simp_all

/-- Only a call inside stores or removes the record. -/
theorem wait_of_outside (h : stage.inside = false) :
    (∀ record, stage.wait ≠ .save record) ∧ stage.wait ≠ .clear := by
  cases stage <;> simp_all [inside, wait]

/-- A call that needs no record to be at its stage writes none, but for an exchanged one. -/
theorem write_of_usesRecord (h : stage.usesRecord = false)
    (hstored : ∀ record, stage ≠ .exchangeStored record) {session : Session}
    (hrecord : session.record = none) (hpersisted : session.persistFailure = none) :
    (stage.write session).record = none ∧ (stage.write session).persistFailure = none := by
  cases stage <;> simp_all [usesRecord, write, Session.begin, Session.empty]

/-- A call for a token that has met no record. -/
def destitute : Stage -> Bool
  | .requesting | .counting | .looking _ | .over (.refused _) => true
  | _ => false

theorem Leads.destitute (h : Leads now keeper stage event next) (hstage : stage.destitute = true)
    (hrecord : keeper.session.record = none) (hpersisted : keeper.session.persistFailure = none) :
    next.destitute = true := by
  cases h <;> simp_all [Stage.destitute]

end Stage

namespace Traffic

variable {store : Store} {disk : Disk} {traffic next reset last : Traffic} {moment : Moment}
  {past later : List Moment} {index : Nat} {caller : Caller} {flow : Flow}

/-! ## The disk -/

/-- Whoever does not wait for the store leaves the disk alone. -/
theorem disk_of_wait {wait : Wait} {input : Input} {event : Event}
    (hsave : ∀ record, wait ≠ .save record) (hclear : wait ≠ .clear)
    (hevent : traffic.event? store wait input = some (disk, event)) : disk = traffic.disk := by
  rcases event?_cases hevent with ⟨-, -, hdisk⟩ | ⟨_, -, -, hdisk⟩ | ⟨record, _, hwait, -⟩ |
    ⟨_, hwait, -⟩
  · exact hdisk
  · exact hdisk
  · exact (hsave record hwait).elim
  · exact (hclear hwait).elim

/-- The disk is a tree, and a logout that has come past the store has left no file. -/
structure DiskKnown (store : Store) (traffic : Traffic) : Prop where
  rooted : traffic.disk.Rooted
  cleared : traffic.Each fun _ caller => caller.stage = .logoutCleared →
    store.path ≠ [] ∧ traffic.disk.entry? store.path = none

theorem rooted_of_event? {wait : Wait} {input : Input} {event : Event} (h : traffic.disk.Rooted)
    (hevent : traffic.event? store wait input = some (disk, event)) : disk.Rooted := by
  rcases event?_cases hevent with ⟨-, -, hdisk⟩ | ⟨_, -, -, hdisk⟩ |
    ⟨record, mishap, -, -, -, hdisk⟩ | ⟨mishap, -, -, -, hdisk⟩
  · exact hdisk ▸ h
  · exact hdisk ▸ h
  · exact hdisk ▸ (store.saveAmid_rooted record h mishap).1
  · exact hdisk ▸ (store.clearAmid_rooted h mishap).1

theorem DiskKnown.put (h : traffic.DiskKnown store) (hguarded : traffic.Guarded) {input : Input}
    {event : Event} (now : UInt64) (hcaller : traffic.calls[index]? = some caller)
    (hevent : traffic.event? store caller.stage.wait input = some (disk, event)) :
    (traffic.put index caller disk
      (caller.stage.step now traffic.keeper event)).DiskKnown store := by
  refine ⟨rooted_of_event? h.rooted hevent, each_put ?_ ?_⟩
  · intro hnext
    obtain ⟨hstage, rfl⟩ := (leads_of_event? now hevent).of_cleared hnext
    rw [hstage] at hevent
    obtain ⟨mishap, -, -, hstored, hdisk⟩ := (event?_cases hevent).resolve_left (by simp)
      |>.resolve_left (by simp) |>.resolve_left (by simp [Stage.wait])
    obtain ⟨-, hcleared, -⟩ := store.clearAmid_rooted h.rooted mishap
    show store.path ≠ [] ∧ disk.entry? store.path = none
    rw [hdisk]
    exact hcleared (Event.stored.inj hstored).symm
  · intro other held hne hheld hstage
    have hin : held.stage.inside = true := by
      rw [hstage]
      rfl
    obtain ⟨hout, -⟩ := hguarded.stays_outside now hcaller hheld hne hin hevent
    obtain ⟨hsave, hclear⟩ := Stage.wait_of_outside hout
    rw [show (traffic.put index caller disk _).disk = disk from rfl,
      disk_of_wait hsave hclear hevent]
    exact h.cleared other held hheld hstage

theorem Reached.diskKnown (h : Reached store disk past traffic) (hroot : disk.Rooted) :
    traffic.DiskKnown store := by
  apply h.induction (P := fun _ traffic => traffic.DiskKnown store)
  · intro stored _
    refine ⟨hroot, fun index caller hcaller => ?_⟩
    simp at hcaller
  · intro past traffic moment next hreached hknown hstep
    rcases step_cases hstep with ⟨call, -, rfl⟩ |
      ⟨index, input, caller, disk, event, -, hcaller, hevent, rfl⟩
    · refine ⟨hknown.rooted, each_arrive hknown.cleared fun hstage => ?_⟩
      cases call <;> cases hstage
    · exact hknown.put hreached.guarded moment.now hcaller hevent

/-! ## After the reset -/

/-- A flow that was begun after the reset has been completed. -/
def Renewed (reset traffic : Traffic) : Prop :=
  ∃ index caller record flow, traffic.calls[index]? = some caller ∧
    caller.stage = .over (.completed record) ∧ traffic.Carries index flow ∧ ¬ reset.Begun flow

/-- Nothing is left of the credential, and nothing brings it back but a flow begun since. -/
structure LoggedOut (store : Store) (reset traffic : Traffic) : Prop where
  record : traffic.keeper.session.record = none
  persisted : traffic.keeper.session.persistFailure = none
  pending : ∀ flow, traffic.keeper.session.pending = some flow → ¬ reset.Begun flow
  asked : traffic.refreshes = reset.refreshes
  recordless : traffic.Each fun _ caller => caller.stage.usesRecord = false
  exchanges : traffic.Each fun index caller => caller.stage.storesExchange = true →
    ∃ flow, traffic.Carries index flow ∧ ¬ reset.Begun flow
  /-- There is no file, unless a call has just stored the record of a flow begun since. -/
  file : traffic.disk.entry? store.path = none ∨
    ∃ (index : Nat) (caller : Caller) (record : Record),
      traffic.calls[index]? = some caller ∧ caller.stage = .exchangeStored record
  refused : ∀ index caller, traffic.Newcomer reset.calls.length index caller →
    caller.stage.destitute = true
  tokens : traffic.Each fun index caller => ∀ value, caller.stage = .over (.token value) →
    reset.calls[index]? = some caller
  completed : traffic.Each fun index caller => ∀ record, caller.stage = .over (.completed record) →
    reset.calls[index]? = some caller

theorem Renewed.step (h : Renewed reset traffic)
    (hstep : traffic.step store moment = some next) : Renewed reset next := by
  obtain ⟨index, ⟨call, stage⟩, record, flow, hcaller, rfl, hcarries, hnew⟩ := h
  exact ⟨index, _, record, flow, step_ended hstep hcaller rfl, rfl, hcarries.step hstep, hnew⟩

theorem LoggedOut.arrive (h : LoggedOut store reset traffic) (call : Call) :
    LoggedOut store reset (traffic.arrive call) where
  record := h.record
  persisted := h.persisted
  pending := h.pending
  asked := h.asked
  recordless := each_arrive h.recordless (by cases call <;> rfl)
  exchanges := each_arrive h.exchanges fun hstores => by cases call <;> cases hstores
  file := h.file.imp_right fun ⟨index, caller, record, hcaller, hstage⟩ =>
    ⟨index, caller, record, getElem?_arrive_of_some hcaller, hstage⟩
  refused := by
    intro index caller hcaller
    rcases getElem?_arrive hcaller.here with hhere | ⟨-, rfl⟩
    · exact h.refused index caller ⟨hcaller.late, hhere, hcaller.token⟩
    · have htoken : call = .token := hcaller.token
      subst htoken
      rfl
  tokens := each_arrive h.tokens fun value hover => by cases call <;> cases hover
  completed := each_arrive h.completed fun record hover => by cases call <;> cases hover

section Steps

variable {input : Input} {event : Event} {now : UInt64}

/-- The exchange that goes on to succeed is one of a flow begun since. -/
theorem LoggedOut.renewed (h : LoggedOut store reset traffic)
    (hcaller : traffic.calls[index]? = some caller) {record : Record}
    (hstage : caller.stage = .exchangeStored record)
    (hevent : traffic.event? store caller.stage.wait input = some (disk, event)) :
    Renewed reset (traffic.put index caller disk (caller.stage.step now traffic.keeper event)) := by
  obtain ⟨flow, hcarries, hnew⟩ := h.exchanges index caller hcaller (by rw [hstage]; rfl)
  refine ⟨index, _, record, flow, getElem?_put_self hcaller _ _, ?_, carries_put.2 (.inl hcarries),
    hnew⟩
  exact (leads_of_event? now hevent).of_exchangeStored hstage

/-- A flow that becomes pending, or comes to be stored, is one begun since. -/
theorem LoggedOut.put_flows (h : LoggedOut store reset traffic)
    (hreached : Reached store disk past traffic) (hdistinct : traffic.Distinct)
    (hrun : reset.run store later = some traffic) {after : Disk} (now : UInt64)
    (hcaller : traffic.calls[index]? = some caller)
    (hevent : traffic.event? store caller.stage.wait input = some (after, event)) :
    (∀ flow, (caller.stage.write traffic.keeper.session).pending = some flow →
      ¬ reset.Begun flow) ∧
    ((caller.stage.step now traffic.keeper event).2.storesExchange = true →
      ∃ flow, traffic.Carries index flow ∧ ¬ reset.Begun flow) := by
  have hknown := hreached.flowsKnown
  constructor
  · intro flow hpending hbegun
    rcases Stage.pending_write caller.stage traffic.keeper.session with
      ⟨started, hstage, hwrite⟩ | ⟨-, hwrite⟩ | ⟨-, -, hwrite⟩
    · rw [hwrite] at hpending
      cases hpending
      exact (hbegun.run hrun).state_ne hdistinct hcaller hstage
        (hreached.each_of index caller hcaller) rfl
    · rw [hwrite] at hpending
      cases hpending
    · exact h.pending flow (hwrite ▸ hpending) hbegun
  · intro hstores
    rcases (leads_of_event? now hevent).storesExchange hstores with
      hstores | ⟨flow, record, pending, hstage, hpending, hstate⟩
    · exact h.exchanges index caller hcaller hstores
    · have hcarries := hknown.carries index caller hcaller flow (by rw [hstage]; rfl)
      refine ⟨flow, hcarries, fun hbegun => h.pending pending hpending ?_⟩
      rwa [(hknown.begun hcarries).eq (hknown.pending hpending) hdistinct hstate]

/-- The file comes back only with the record of an exchange. -/
theorem LoggedOut.put_file (h : LoggedOut store reset traffic) (hroot : traffic.disk.Rooted)
    (hpath : store.path ≠ []) {after : Disk} (now : UInt64)
    (hcaller : traffic.calls[index]? = some caller)
    (hstored : ∀ record, caller.stage ≠ .exchangeStored record)
    (hevent : traffic.event? store caller.stage.wait input = some (after, event)) :
    after.entry? store.path = none ∨ ∃ (other : Nat) (held : Caller) (record : Record),
      (traffic.put index caller after
        (caller.stage.step now traffic.keeper event)).calls[other]? = some held ∧
        held.stage = .exchangeStored record := by
  rcases h.file with habsent | ⟨other, held, record, hheld, hstage⟩
  · rcases event?_cases hevent with ⟨-, -, rfl⟩ | ⟨_, -, -, rfl⟩ |
      ⟨record, mishap, hwait, -, houtcome, rfl⟩ | ⟨mishap, -, -, -, rfl⟩
    · exact .inl habsent
    · exact .inl habsent
    · by_cases hok : (store.saveAmid record traffic.disk mishap).2 = .ok ()
      · have hstage : caller.stage = .exchangeStoring record := by
          have hrecordless := h.recordless index caller hcaller
          cases hcase : caller.stage <;> simp_all [Stage.wait, Stage.usesRecord]
        refine .inr ⟨index, _, record, getElem?_put_self hcaller _ _, ?_⟩
        rw [houtcome, hok, hstage]
        rfl
      · have hkept := (store.saveAmid_rooted record hroot mishap).2 hpath hok
        exact .inl (hkept.trans habsent)
    · exact .inl ((store.clearAmid_rooted hroot mishap).2.2 habsent)
  · have hne : index ≠ other := by
      rintro rfl
      rw [hcaller] at hheld
      cases hheld
      exact hstored record hstage
    exact .inr ⟨other, held, record, by rwa [getElem?_put_of_ne hne], hstage⟩

theorem LoggedOut.put (h : LoggedOut store reset traffic)
    (hreached : Reached store disk past traffic) (hroot : disk.Rooted)
    (hdistinct : traffic.Distinct) (hrun : reset.run store later = some traffic)
    (hpath : store.path ≠ []) {after : Disk} (now : UInt64)
    (hcaller : traffic.calls[index]? = some caller)
    (hstored : ∀ record, caller.stage ≠ .exchangeStored record)
    (hevent : traffic.event? store caller.stage.wait input = some (after, event)) :
    LoggedOut store reset
      (traffic.put index caller after (caller.stage.step now traffic.keeper event)) := by
  have hleads := leads_of_event? now hevent
  have hbefore : caller.stage.usesRecord = false := h.recordless index caller hcaller
  obtain ⟨hrecord, hpersisted⟩ :=
    Stage.write_of_usesRecord hbefore hstored h.record h.persisted
  obtain ⟨hpending, hstores⟩ := h.put_flows hreached hdistinct hrun now hcaller hevent
  have hsession := session_put now index hevent
  have hnext : (caller.stage.step now traffic.keeper event).2.usesRecord = false := by
    rw [← Bool.not_eq_true]
    intro huses
    rcases hleads.usesRecord huses with huses | ⟨record, hfound⟩
    · rw [hbefore] at huses
      cases huses
    · rw [h.record] at hfound
      cases hfound
  refine ⟨hsession ▸ hrecord, hsession ▸ hpersisted, hsession ▸ hpending, ?_,
    each_put hnext fun other held _ hheld => h.recordless other held hheld,
    each_put ?_ ?_, h.put_file (hreached.diskKnown hroot).rooted hpath now hcaller hstored hevent,
    ?_, each_put ?_ fun other held _ hheld => h.tokens other held hheld,
    each_put ?_ fun other held _ hheld => h.completed other held hheld⟩
  · rw [refreshes_put, ← h.asked]
    cases hasks : (caller.stage.step now traffic.keeper event).2.asks? with
    | none => exact List.append_nil _
    | some used =>
        rw [Stage.usesRecord_of_asks? hasks] at hnext
        cases hnext
  · intro hstoring
    obtain ⟨flow, hcarries, hnew⟩ := hstores hstoring
    exact ⟨flow, carries_put.2 (.inl hcarries), hnew⟩
  · intro other held _ hheld hstoring
    obtain ⟨flow, hcarries, hnew⟩ := h.exchanges other held hheld hstoring
    exact ⟨flow, carries_put.2 (.inl hcarries), hnew⟩
  · intro other held hheld
    rcases newcomer_put hcaller hheld with ⟨rfl, rfl⟩ | ⟨-, hheld⟩
    · exact hleads.destitute (h.refused _ _ ⟨hheld.late, hcaller, hheld.token⟩) h.record h.persisted
    · exact h.refused other held hheld
  · intro value hover
    rcases hleads.of_token hover with ⟨record, hfound, -⟩ | ⟨_, held, -, -, hfound, -⟩ | hstage
    · rw [h.record] at hfound
      cases hfound
    · rw [h.record] at hfound
      cases hfound
    · rw [hstage] at hbefore
      cases hbefore
  · intro record hover
    exact (hstored record (hleads.of_completed hover)).elim

end Steps

/-! ## A run after the reset -/

theorem LoggedOut.step (h : LoggedOut store reset traffic)
    (hreached : Reached store disk past traffic) (hroot : disk.Rooted)
    (hdistinct : traffic.Distinct) (hrun : reset.run store later = some traffic)
    (hpath : store.path ≠ []) (hstep : traffic.step store moment = some next) :
    Renewed reset next ∨ LoggedOut store reset next := by
  rcases step_cases hstep with ⟨call, -, rfl⟩ |
    ⟨index, input, caller, disk, event, -, hcaller, hevent, rfl⟩
  · exact .inr (h.arrive call)
  · by_cases hstored : ∃ record, caller.stage = .exchangeStored record
    · obtain ⟨record, hstage⟩ := hstored
      exact .inl (h.renewed hcaller hstage hevent)
    · exact .inr (h.put hreached hroot hdistinct hrun hpath moment.now hcaller
        (not_exists.1 hstored) hevent)

theorem LoggedOut.run (h : LoggedOut store reset reset) (hreached : Reached store disk past reset)
    (hroot : disk.Rooted) (hpath : store.path ≠ []) (hrun : reset.run store later = some last)
    (hdistinct : last.Distinct) : Renewed reset last ∨ LoggedOut store reset last := by
  apply run_induction (P := fun _ last => last.Distinct → Renewed reset last ∨
    LoggedOut store reset last) (fun _ => .inr h) _ hrun hdistinct
  intro before now moment next hbefore ih hstep hdistinct
  have hdistinct := hdistinct.of_step hstep
  rcases ih hdistinct with hrenewed | hlogged
  · exact .inl (hrenewed.step hstep)
  · exact hlogged.step (hreached.run hbefore) hroot hdistinct hbefore hpath hstep

end Traffic

end Credential

end ChatGateway
