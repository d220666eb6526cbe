import ChatGateway.Proofs.AtomicSave
import ChatGateway.Proofs.Visits

/-!
# Calls that fail

A call that completes a flow, and one that logs out, write to the session only when nothing can
go wrong any more.  So a call that is refused or breaks off, wherever on its way, leaves everything
that the next one finds as it was.
-/

namespace ChatGateway

namespace Credential

namespace Pasted

/-- The text is the code and the state with one `#` between them, blanks around it aside. -/
structure Joins (pasted : Pasted) (text : String) : Prop where
  text : Text.trimList text.toList = pasted.code.toList ++ '#' :: pasted.state.toList
  code : pasted.code ≠ "" ∧ '#' ∉ pasted.code.toList
  state : pasted.state ≠ "" ∧ '#' ∉ pasted.state.toList

theorem read_eq_ok {pasted : Pasted} {text : String} :
    read text = .ok pasted ↔ pasted.Joins text := by
  rw [read]
  constructor
  · intro h
    split at h
    next code state hcut =>
      obtain ⟨htext, hcode⟩ := Text.cut_eq_some.1 hcut
      split at h
      · cases h
      next hparts =>
        cases h
        simp only [Bool.or_eq_true, List.isEmpty_iff, List.contains_iff_mem, not_or] at hparts
        obtain ⟨⟨hsome, hstate⟩, hfree⟩ := hparts
        exact ⟨by simpa using htext, ⟨by simpa using hsome, by simpa using hcode⟩,
          by simpa using hstate, by simpa using hfree⟩
    · cases h
  · rintro ⟨htext, ⟨hsome, hcode⟩, hstate, hfree⟩
    have hcode' : pasted.code.toList.isEmpty = false := by simpa using hsome
    have hstate' : pasted.state.toList.isEmpty = false := by simpa using hstate
    rw [Text.cut_eq_some.2 ⟨htext, hcode⟩]
    simp [hcode', hstate', hfree]

end Pasted

namespace Stage

variable {now : UInt64} {keeper : Keeper} {stage next : Stage} {event : Event} {call : Call}
  {pasted : String}

/-- A call at this stage has done what it came for, or can fail no more. -/
def takesEffect : Stage -> Bool
  | .exchangeStored _ | .logoutCleared => true
  | .over (.completed _) | .over .loggedOut => true
  | _ => false

/-- Before a call takes effect it writes nothing, and what the store does for it fails. -/
theorem Leads.of_takesEffect (h : Leads now keeper stage event next) (hof : stage.Of call)
    (hcall : call = .logout ∨ ∃ pasted, call = .complete pasted)
    (hnext : next.takesEffect = false) :
    stage.takesEffect = false ∧ stage.settling? = none ∧
      stage.write keeper.session = keeper.session ∧
      ∀ outcome, event = .stored outcome → outcome ≠ .ok () := by
  rcases hcall with rfl | ⟨pasted, rfl⟩ <;> cases h <;>
    simp_all [Of, takesEffect, settling?, write]

theorem Leads.ne_completing (h : Leads now keeper stage event next) :
    next ≠ .completing pasted := by
  cases h <;> exact nofun

/-- Once it is past the pasted text, a call that completes a flow asks for nothing more. -/
theorem Leads.request?_of_complete (h : Leads now keeper stage event next)
    (hof : stage.Of (.complete pasted)) (hpast : stage ≠ .completing pasted) :
    next.request? = none := by
  cases h <;> simp_all [Of, request?, wait]

end Stage

namespace Traffic

variable {store : Store} {after : Disk} {traffic between next : Traffic} {visit : Visit}
  {call : Call} {stage : Stage} {pasted : String} {failure : Failure}

/-- Nothing that the next call finds has changed since the traffic before. -/
structure Untouched (store : Store) (before : Traffic) (stage : Stage) (traffic : Traffic) :
    Prop where
  keeper : traffic.keeper = { before.keeper with gate := stage.inside || before.keeper.gate }
  entered : stage.inside = true → before.keeper.gate = false
  rooted : traffic.disk.Rooted
  load : store.load traffic.disk = store.load before.disk
  writable : store.Writable before.disk → store.Writable traffic.disk
  readable : store.Writable before.disk → store.DraftReadable before.disk →
    store.DraftReadable traffic.disk

/-- The gate is closed while the call is inside, and open as before when it is out again. -/
theorem Untouched.gate_put (h : Untouched store traffic stage between) (now : UInt64)
    {input : Input} {event : Event}
    (hevent : between.event? store stage.wait input = some (after, event)) :
    ((stage.step now between.keeper event).2.inside = true → traffic.keeper.gate = false) ∧
      (stage.step now between.keeper event).1.gate =
        ((stage.step now between.keeper event).2.inside || traffic.keeper.gate) := by
  have hgate := congrArg Keeper.gate (Stage.keeper_step now between.keeper
    (admits_of_event? hevent).1)
  have hbefore := congrArg Keeper.gate h.keeper
  simp only at hgate hbefore
  have hleads := leads_of_event? now hevent
  rw [hgate]
  cases hin : stage.inside with
  | true =>
      have hopen := h.entered hin
      refine ⟨fun _ => hopen, ?_⟩
      cases hnext : (stage.step now between.keeper event).2.inside <;>
        simp [hbefore, hin, hopen]
  | false =>
      rw [hin, Bool.false_or] at hbefore
      cases hnext : (stage.step now between.keeper event).2.inside with
      | true =>
          have hopen := (admits_of_event? hevent).2 (hleads.wait_of_inside hin hnext)
          exact ⟨fun _ => hbefore ▸ hopen, by simp⟩
      | false => exact ⟨nofun, by simp [hbefore]⟩

theorem Untouched.put (h : Untouched store traffic stage between) (hof : stage.Of call)
    (hcall : call = .logout ∨ ∃ pasted, call = .complete pasted) (index : Nat) (now : UInt64)
    {input : Input} {event : Event}
    (hevent : between.event? store stage.wait input = some (after, event))
    (hnext : (stage.step now between.keeper event).2.takesEffect = false) :
    Untouched store traffic (stage.step now between.keeper event).2
      (between.put index ⟨call, stage⟩ after (stage.step now between.keeper event)) := by
  obtain ⟨-, hsettles, hwrite, hfails⟩ :=
    (leads_of_event? now hevent).of_takesEffect hof hcall hnext
  obtain ⟨hentered, hgate⟩ := h.gate_put now hevent
  have hkeeper := Stage.keeper_step now between.keeper (admits_of_event? hevent).1
  have hdisk : after.Rooted ∧ store.load after = store.load traffic.disk ∧
      (store.Writable traffic.disk → store.Writable after) ∧
      (store.Writable traffic.disk → store.DraftReadable traffic.disk →
        store.DraftReadable after) := by
    rcases event?_cases hevent with ⟨-, -, rfl⟩ | ⟨reply, -, -, rfl⟩ |
      ⟨record, mishap, -, -, rfl, rfl⟩ | ⟨mishap, -, -, rfl, rfl⟩
    · exact ⟨h.rooted, h.load, h.writable, h.readable⟩
    · exact ⟨h.rooted, h.load, h.writable, h.readable⟩
    · exact ⟨(store.saveAmid_rooted record h.rooted mishap).1,
        (Store.load_saveAmid_of_ne h.rooted (hfails _ rfl)).trans h.load,
        fun hwritable => (h.writable hwritable).saveAmid h.rooted record mishap,
        fun hwritable hreadable =>
          (h.readable hwritable hreadable).saveAmid h.rooted hwritable.path record mishap⟩
    · rw [Store.clearAmid_of_ne (hfails _ rfl)]
      exact ⟨h.rooted, h.load, h.writable, h.readable⟩
  refine ⟨?_, hentered, hdisk.1, hdisk.2.1, hdisk.2.2.1, hdisk.2.2.2⟩
  show (stage.step now between.keeper event).1 = _
  rw [hkeeper] at hgate ⊢
  rw [hwrite, hsettles, h.keeper]
  rw [hwrite, hsettles, h.keeper] at hgate
  exact congrArg (fun gate => { traffic.keeper with gate }) hgate

/-- What a call that completes a flow sends is settled by its first step. -/
theorem Visits.sent (h : traffic.Visits store visit next) (hcall : visit.call = .complete pasted) :
    next.sent = traffic.sent ++ (Stage.complete traffic.keeper pasted).2.request?.toList.map
      fun request => (traffic.calls.length, request) := by
  have hend := h.induction
    (P := fun _ between stage =>
      (stage = .completing pasted ∧ between.keeper = traffic.keeper ∧
        between.sent = traffic.sent) ∨
      stage ≠ .completing pasted ∧ between.sent = traffic.sent ++
        (Stage.complete traffic.keeper pasted).2.request?.toList.map
          fun request => (traffic.calls.length, request))
    (.inl ⟨by rw [hcall]; rfl, rfl, rfl⟩)
    (by
      intro inputs between stage now input after event _ hof hbefore hevent
      have hleads := leads_of_event? now hevent
      refine .inr ⟨hleads.ne_completing, ?_⟩
      rcases hbefore with ⟨rfl, hkeeper, hsent⟩ | ⟨hpast, hsent⟩
      · have hturn : event = .turn := by
          have hadmits := (admits_of_event? hevent).1
          cases event <;> first | rfl | exact hadmits.elim
        subst hturn
        rw [put, hsent, ← hkeeper]
        rfl
      · rw [hcall] at hof
        rw [put, hleads.request?_of_complete hof hpast, hsent]
        exact List.append_nil _)
  rcases hend with ⟨hstage, -⟩ | ⟨-, hsent⟩
  · cases hanswer : visit.answer <;> rw [hanswer] at hstage <;> cases hstage
  · exact hsent

end Traffic

end Credential

end ChatGateway
