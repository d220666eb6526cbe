import ChatGateway.Proofs.LogoutFinal
import ChatGateway.Proofs.StoredRecord

/-!
# The record in memory and the stored one

Between two changes of the credential the stored record is the one in memory, unless the
session says that it could not be stored.  A change is made on the disk first and in the
session after it, behind the gate, so that what is stored agrees at every moment with the
session that the call inside is going to leave.

There is one exception: a record whose refresh was rejected is dropped from memory even if it
could not be removed from the disk, and the session does not say so.
-/

namespace ChatGateway

namespace Credential

namespace Stage

variable {now : UInt64} {keeper : Keeper} {stage next : Stage} {event : Event} {record : Record}

theorem wait_eq_save (h : stage.wait = .save record) :
    stage = .exchangeStoring record ∨ stage = .refreshStoring record ∨
      stage = .retryStoring record := by
  cases stage <;> simp_all [wait]

theorem wait_eq_clear (h : stage.wait = .clear) :
    stage = .logoutClearing ∨ ∃ reason, stage = .refreshClearing reason := by
  cases stage <;> simp_all [wait]

/-- A call at this stage is about to have the record in memory refreshed, or to drop it. -/
def refreshes : Stage -> Bool
  | .refreshing _ | .refreshClearing _ => true
  | _ => false

theorem inside_of_refreshes (h : stage.refreshes = true) : stage.inside = true := by
  cases stage <;> simp_all [refreshes, inside]

/-- A call comes to these stages with a record in memory, which it leaves there. -/
theorem Leads.refreshes (h : Leads now keeper stage event next) (hnext : next.refreshes = true) :
    (stage.refreshes = true ∨ ∃ record, keeper.session.record = some record) ∧
      (stage.write keeper.session).record = keeper.session.record := by
  cases h <;> simp_all [Stage.refreshes, write]

/-- A call that stores the record once more stores the one in memory. -/
theorem Leads.of_retryStoring (h : Leads now keeper stage event next)
    (hnext : next = .retryStoring record) :
    keeper.session.record = some record ∧ stage.write keeper.session = keeper.session := by
  cases h <;> simp_all [write]

/-- What a stage writes of the record depends on nothing else of the session. -/
theorem write_congr (stage : Stage) {first second : Session}
    (hrecord : first.record = second.record)
    (hpersist : first.persistFailure = second.persistFailure) :
    (stage.write first).record = (stage.write second).record ∧
      (stage.write first).persistFailure = (stage.write second).persistFailure := by
  cases stage <;> simp_all [write, Session.begin, Session.adopt, Session.persisted, Session.renew,
    Session.reject]

theorem persistFailure_write_of_outside (h : stage.inside = false) (session : Session) :
    (stage.write session).persistFailure = session.persistFailure := by
  cases stage <;> simp_all [inside, write, Session.begin]

/-- Only a stage that follows an answer of the store writes anything to the record. -/
theorem Leads.write_of_unstored (h : Leads now keeper stage event next)
    (hevent : ∀ outcome, event ≠ .stored outcome) (session : Session) :
    next.write session = session := by
  cases h <;> simp_all [write]

end Stage

namespace Traffic

variable {store : Store} {disk after : Disk} {past : List Moment} {traffic next : Traffic}
  {moment : Moment} {index : Nat} {caller : Caller} {session other : Session}

/--
The refresh of a record was rejected and the record could not be removed, and what is stored is
still what was stored then.
-/
def Unremoved (store : Store) (disk : Disk) (past : List Moment) (traffic : Traffic) : Prop :=
  ∃ before now index mishap later held caller reason rejected failure,
    past = before ++ ⟨now, .advance index (.store mishap)⟩ :: later ∧
    Reached store disk before held ∧ held.calls[index]? = some caller ∧
    caller.stage = .refreshClearing reason ∧ held.keeper.session.record = some rejected ∧
    (store.clearAmid held.disk mishap).2 = .error failure ∧
    store.load traffic.disk = store.load held.disk ∧
    (held.keeper.session.persistFailure = none → store.load traffic.disk = .ok (some rejected))

theorem Unremoved.later (h : Unremoved store disk past traffic) (more : List Moment)
    (hload : store.load next.disk = store.load traffic.disk) :
    Unremoved store disk (past ++ more) next := by
  obtain ⟨before, now, index, mishap, later, held, caller, reason, rejected, failure, rfl, hheld,
    hcaller, hstage, hrecord, hfails, hsame, hrejected⟩ := h
  refine ⟨before, now, index, mishap, later ++ more, held, caller, reason, rejected, failure, ?_,
    hheld, hcaller, hstage, hrecord, hfails, hload.trans hsame,
    fun hpersist => hload.trans (hrejected hpersist)⟩
  simp

/-- What is stored is the record of the session, unless the session or a rejection explains it. -/
def Agrees (store : Store) (disk : Disk) (past : List Moment) (traffic : Traffic)
    (session : Session) : Prop :=
  session.persistFailure = none → store.load traffic.disk = .ok session.record ∨
    session.record = none ∧ Unremoved store disk past traffic

theorem Agrees.later (h : Agrees store disk past traffic session) (more : List Moment)
    (hload : store.load next.disk = store.load traffic.disk) :
    Agrees store disk (past ++ more) next session := by
  intro hnone
  rcases h hnone with hagrees | ⟨hlost, hleft⟩
  · exact .inl (hload.trans hagrees)
  · exact .inr ⟨hlost, hleft.later more hload⟩

/-- Only the record of a session and its failure matter. -/
theorem Agrees.congr (h : Agrees store disk past traffic session)
    (hrecord : other.record = session.record)
    (hpersist : other.persistFailure = session.persistFailure) :
    Agrees store disk past traffic other := by
  intro hnone
  rw [hrecord]
  exact h (hpersist.symm.trans hnone)

/-- What is known in a run of the record in memory and the stored one. -/
structure StoreKnown (store : Store) (disk : Disk) (past : List Moment) (traffic : Traffic) :
    Prop where
  usable : store.Usable traffic.disk
  draft : store.DraftReadable traffic.disk
  retried : traffic.Each fun _ caller => ∀ record, caller.stage = .retryStoring record →
    traffic.keeper.session.record = some record
  refreshed : traffic.Each fun _ caller => caller.stage.refreshes = true →
    ∃ record, traffic.keeper.session.record = some record
  outside : traffic.keeper.gate = false →
    Agrees store disk past traffic traffic.keeper.session
  /-- The call inside leaves a session that agrees with what is stored already. -/
  inside : traffic.Each fun _ caller => caller.stage.inside = true →
    Agrees store disk past traffic (caller.stage.write traffic.keeper.session)

theorem StoreKnown.arrive (h : StoreKnown store disk past traffic) (call : Call) :
    StoreKnown store disk (past ++ [moment]) (traffic.arrive call) where
  usable := h.usable
  draft := h.draft
  retried := each_arrive h.retried fun record hstage => by cases call <;> cases hstage
  refreshed := each_arrive h.refreshed fun hstage => by cases call <;> cases hstage
  outside hgate := (h.outside hgate).later _ rfl
  inside := each_arrive
    (fun index caller hcaller hin => (h.inside index caller hcaller hin).later _ rfl)
    fun hin => by cases call <;> cases hin

theorem usable_of_event? {wait : Wait} {input : Input} {event : Event}
    (h : store.Usable traffic.disk)
    (hevent : traffic.event? store wait input = some (after, event)) : store.Usable after := by
  rcases event?_cases hevent with ⟨-, -, rfl⟩ | ⟨_, -, -, rfl⟩ |
    ⟨record, mishap, -, -, -, rfl⟩ | ⟨mishap, -, -, -, rfl⟩
  · exact h
  · exact h
  · exact h.saveAmid record mishap
  · exact h.clearAmid mishap

theorem draftReadable_of_event? {wait : Wait} {input : Input} {event : Event}
    (h : store.DraftReadable traffic.disk) (husable : store.Usable traffic.disk)
    (hevent : traffic.event? store wait input = some (after, event)) :
    store.DraftReadable after := by
  rcases event?_cases hevent with ⟨-, -, rfl⟩ | ⟨_, -, -, rfl⟩ |
    ⟨record, mishap, -, -, -, rfl⟩ | ⟨mishap, -, -, -, rfl⟩
  · exact h
  · exact h
  · exact h.saveAmid husable.rooted husable.path record mishap
  · exact h.clearAmid husable.path mishap

section Put

variable {input : Input} {event : Event}

/-- A call that goes on keeps the records that calls inside rely on. -/
theorem StoreKnown.put_records (h : StoreKnown store disk past traffic) (hguarded : traffic.Guarded)
    (now : UInt64) (hcaller : traffic.calls[index]? = some caller)
    (hevent : traffic.event? store caller.stage.wait input = some (after, event)) :
    ((traffic.put index caller after (caller.stage.step now traffic.keeper event)).Each
      fun _ held => ∀ record, held.stage = .retryStoring record →
        (caller.stage.write traffic.keeper.session).record = some record) ∧
    (traffic.put index caller after (caller.stage.step now traffic.keeper event)).Each
      fun _ held => held.stage.refreshes = true →
        ∃ record, (caller.stage.write traffic.keeper.session).record = some record := by
  have hleads := leads_of_event? now hevent
  have hkept : ∀ {other held}, index ≠ other → traffic.calls[other]? = some held →
      held.stage.inside = true →
      (caller.stage.write traffic.keeper.session).record = traffic.keeper.session.record :=
    fun hne hheld hin => Stage.record_write_of_outside
      (hguarded.outside hcaller hheld hne hin) _
  constructor
  · refine each_put (fun record hnext => ?_) fun other held hne hheld record hstage => ?_
    · obtain ⟨hrecord, hwrite⟩ := hleads.of_retryStoring hnext
      rw [hwrite, hrecord]
    · rw [hkept hne hheld (by rw [hstage]; rfl)]
      exact h.retried other held hheld record hstage
  · refine each_put (fun hnext => ?_) fun other held hne hheld hstage => ?_
    · obtain ⟨hbefore, hwrite⟩ := hleads.refreshes hnext
      rw [hwrite]
      exact hbefore.elim (h.refreshed index caller hcaller) id
    · rw [hkept hne hheld (Stage.inside_of_refreshes hstage)]
      exact h.refreshed other held hheld hstage

/-- Whoever is given the outcome of a save leaves what agrees with the store then. -/
theorem StoreKnown.agrees_of_save (h : StoreKnown store disk past traffic) {call : Call}
    {stage reached : Stage} {record : Record} (mishap : Option Mishap) (moment : Moment)
    (hnext : next.disk = (store.saveAmid record traffic.disk mishap).1)
    (hcaller : traffic.calls[index]? = some ⟨call, stage⟩) (hwait : stage.wait = .save record)
    (hleads : Stage.Leads now traffic.keeper stage
      (.stored (store.saveAmid record traffic.disk mishap).2) reached) :
    Agrees store disk (past ++ [moment]) next
      (reached.write (stage.write traffic.keeper.session)) := by
  have hsaved : (store.saveAmid record traffic.disk mishap).2 = .ok () →
      store.load next.disk = .ok (some record) := by
    intro hok
    rw [hnext]
    exact h.usable.load_saveAmid h.draft hok
  cases houtcome : (store.saveAmid record traffic.disk mishap).2 with
  | ok done =>
      rw [houtcome] at hleads
      intro _
      have hload := hsaved houtcome
      rcases Stage.wait_eq_save hwait with rfl | rfl | rfl
      · cases hleads
        exact .inl hload
      · cases hleads
        exact .inl hload
      · cases hleads
        have hrecord := h.retried index _ hcaller record rfl
        exact .inl (hload.trans (congrArg _ hrecord.symm))
  | error failure =>
      rw [houtcome] at hleads
      -- Only a refused exchange leaves a session that does not say that it is not stored.
      rcases Stage.wait_eq_save hwait with rfl | rfl | rfl
      · cases hleads
        refine (h.inside index _ hcaller rfl).later _ ?_
        rw [hnext]
        exact h.usable.load_saveAmid_of_ne (by simp [houtcome])
      · cases hleads
        intro hpersist
        cases hpersist
      · cases hleads
        intro hpersist
        cases hpersist

/-- Whoever is given the outcome of a removal leaves what agrees with the store then. -/
theorem StoreKnown.agrees_of_clear (h : StoreKnown store disk past traffic)
    (hreached : Reached store disk past traffic) {call : Call} {stage reached : Stage}
    (mishap : Option Mishap) (hnext : next.disk = (store.clearAmid traffic.disk mishap).1)
    (hcaller : traffic.calls[index]? = some ⟨call, stage⟩) (hwait : stage.wait = .clear)
    (hleads : Stage.Leads now traffic.keeper stage
      (.stored (store.clearAmid traffic.disk mishap).2) reached) :
    Agrees store disk (past ++ [⟨now, .advance index (.store mishap)⟩]) next
      (reached.write (stage.write traffic.keeper.session)) := by
  cases houtcome : (store.clearAmid traffic.disk mishap).2 with
  | ok done =>
      rw [houtcome] at hleads
      intro _
      have hload : store.load next.disk = .ok none := by
        rw [hnext]
        exact h.usable.load_clearAmid houtcome
      rcases Stage.wait_eq_clear hwait with rfl | ⟨reason, rfl⟩ <;>
        · cases hleads
          exact .inl hload
  | error failure =>
      rw [houtcome] at hleads
      have hkept : next.disk = traffic.disk := by
        rw [hnext]
        exact Store.clearAmid_of_ne (by simp [houtcome])
      have hload : store.load next.disk = store.load traffic.disk := by rw [hkept]
      have hagrees := h.inside index _ hcaller
      rcases Stage.wait_eq_clear hwait with rfl | ⟨reason, rfl⟩
      · cases hleads
        exact (hagrees rfl).later _ hload
      · cases hleads
        obtain ⟨record, hrecord⟩ := h.refreshed index _ hcaller rfl
        refine fun _ => .inr ⟨rfl, past, now, index, mishap, [], traffic, _, reason, record,
          failure, rfl, hreached, hcaller, rfl, hrecord, houtcome, hload, fun hpersist => ?_⟩
        rcases hagrees rfl hpersist with hstored | ⟨hlost, -⟩
        · exact (hload.trans hstored).trans (congrArg _ hrecord)
        · exact (Option.some_ne_none record (hrecord.symm.trans hlost)).elim

/-- Whoever goes on inside leaves what agrees with the store then. -/
theorem StoreKnown.agrees_of_inside (h : StoreKnown store disk past traffic)
    (hreached : Reached store disk past traffic) (now : UInt64)
    (hcaller : traffic.calls[index]? = some caller) (hin : caller.stage.inside = true)
    (hevent : traffic.event? store caller.stage.wait input = some (after, event)) :
    Agrees store disk (past ++ [⟨now, .advance index input⟩])
      (traffic.put index caller after (caller.stage.step now traffic.keeper event))
      ((caller.stage.step now traffic.keeper event).2.write
        (caller.stage.write traffic.keeper.session)) := by
  have hleads := leads_of_event? now hevent
  have hagrees := h.inside index caller hcaller hin
  rcases event?_cases hevent with ⟨-, rfl, rfl⟩ | ⟨reply, -, rfl, rfl⟩ |
    ⟨record, mishap, hwait, rfl, rfl, rfl⟩ | ⟨mishap, hwait, rfl, rfl, rfl⟩
  · rw [hleads.write_of_unstored (by simp)]
    exact hagrees.later _ rfl
  · rw [hleads.write_of_unstored (by simp)]
    exact hagrees.later _ rfl
  · exact h.agrees_of_save mishap _ rfl hcaller hwait hleads
  · exact h.agrees_of_clear hreached mishap rfl hcaller hwait hleads

/-- A step of a call outside leaves what agreed with the store in agreement with it. -/
theorem Agrees.of_outside {result : Keeper × Stage} (hout : caller.stage.inside = false)
    (hevent : traffic.event? store caller.stage.wait input = some (after, event)) (stage : Stage)
    (h : Agrees store disk past traffic (stage.write traffic.keeper.session)) :
    Agrees store disk (past ++ [moment]) (traffic.put index caller after result)
      (stage.write (caller.stage.write traffic.keeper.session)) := by
  obtain ⟨hsave, hclear⟩ := Stage.wait_of_outside hout
  have hdisk := disk_of_wait hsave hclear hevent
  obtain ⟨hrecord, hpersist⟩ := stage.write_congr (Stage.record_write_of_outside hout _)
    (Stage.persistFailure_write_of_outside hout traffic.keeper.session)
  exact (h.congr hrecord hpersist).later _ (congrArg _ hdisk)

theorem StoreKnown.put (h : StoreKnown store disk past traffic)
    (hreached : Reached store disk past traffic) (now : UInt64)
    (hcaller : traffic.calls[index]? = some caller)
    (hevent : traffic.event? store caller.stage.wait input = some (after, event)) :
    StoreKnown store disk (past ++ [⟨now, .advance index input⟩])
      (traffic.put index caller after (caller.stage.step now traffic.keeper event)) := by
  have hguarded := hreached.guarded
  have hleads := leads_of_event? now hevent
  have hsession := session_put now index hevent
  obtain ⟨hretried, hrefreshed⟩ := h.put_records hguarded now hcaller hevent
  obtain ⟨hadmits, hopen⟩ := admits_of_event? hevent
  have hgate : (caller.stage.step now traffic.keeper event).1.gate = _ :=
    congrArg Keeper.gate (Stage.keeper_step now traffic.keeper hadmits)
  have hnext := (hguarded.put now hcaller hevent).closed index _ (getElem?_put_self hcaller _ _)
  -- The session by itself is what a call that is over leaves.
  refine ⟨usable_of_event? h.usable hevent, draftReadable_of_event? h.draft h.usable hevent,
    hsession ▸ hretried, hsession ▸ hrefreshed, ?_, ?_⟩
  · intro hopened
    rw [hsession]
    have hleft : (caller.stage.step now traffic.keeper event).2.inside = false := by
      rw [← Bool.not_eq_true]
      intro hin
      exact Bool.false_ne_true (hopened.symm.trans (hnext hin))
    cases hin : caller.stage.inside with
    | true =>
        exact (h.agrees_of_inside hreached now hcaller hin hevent).congr
          (Stage.record_write_of_outside hleft _).symm
          (Stage.persistFailure_write_of_outside hleft _).symm
    | false =>
        have hbefore : traffic.keeper.gate = false := by
          rw [hleft, hin, if_pos rfl] at hgate
          exact hgate.symm.trans hopened
        exact (h.outside hbefore).of_outside hin hevent (.over .loggedOut)
  · refine each_put (fun hin => ?_) fun other held hne hheld hin => ?_
    · rw [hsession]
      cases hbefore : caller.stage.inside with
      | true => exact h.agrees_of_inside hreached now hcaller hbefore hevent
      | false =>
          have hwait := hleads.wait_of_inside hbefore hin
          have hturn : ∀ outcome, event ≠ .stored outcome := by
            rintro outcome rfl
            rw [hwait] at hadmits
            exact hadmits
          rw [hleads.write_of_unstored hturn]
          exact (h.outside (hopen hwait)).of_outside hbefore hevent (.over .loggedOut)
    · rw [hsession]
      exact (h.inside other held hheld hin).of_outside (hguarded.outside hcaller hheld hne hin)
        hevent held.stage

end Put

theorem Reached.storeKnown (h : Reached store disk past traffic) (hroot : disk.Rooted)
    (hdraft : store.DraftReadable disk) : StoreKnown store disk past traffic := by
  apply h.induction
  · intro stored hload
    exact {
      usable := Store.usable_of_load hroot hload
      draft := hdraft
      retried := fun index caller hcaller => by simp at hcaller
      refreshed := fun index caller hcaller => by simp at hcaller
      outside := fun _ _ => .inl hload
      inside := fun index caller hcaller => by simp at hcaller }
  · intro past traffic moment next hreached hknown hstep
    obtain ⟨now, action⟩ := moment
    rcases step_cases hstep with ⟨call, -, rfl⟩ |
      ⟨index, input, caller, after, event, rfl, hcaller, hevent, rfl⟩
    · exact hknown.arrive call
    · exact hknown.put hreached now hcaller hevent

end Traffic

end Credential

end ChatGateway
