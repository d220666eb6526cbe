import ChatGateway.Proofs.LogoutFinal

/-!
# What the fields of a session say about each other

A session that remembers a rejected refresh has neither a record nor a pending flow, and one that
could not store its record has a record.  A refreshed record does not clear what is remembered,
and storing a record once more reports a failure long after the record was looked at: both are
sound because the call holds the gate, and nobody else takes the record away meanwhile.
-/

namespace ChatGateway

namespace Credential

/-- What is remembered of a lost or an unstored record fits the rest of the session. -/
structure Session.Sound (session : Session) : Prop where
  lost : ∀ {reason}, session.refreshFailure = some reason →
    session.record = none ∧ session.pending = none
  held : ∀ {failure}, session.persistFailure = some failure →
    ∃ record, session.record = some record

theorem Session.sound_ofStored (stored : Option Record) : (Session.ofStored stored).Sound where
  lost h := by cases h
  held h := by cases h

namespace Stage

variable {now : UInt64} {keeper : Keeper} {stage next : Stage} {event : Event}

/-- A call at this stage has found a record in memory, and relies on it until it writes. -/
def keepsRecord : Stage -> Bool
  | .retryStoring _ | .retryStored _ => true
  | .refreshing _ | .refreshStoring _ | .refreshStored _ _ => true
  | _ => false

theorem inside_of_keepsRecord (h : stage.keepsRecord = true) : stage.inside = true := by
  cases stage <;> simp_all [keepsRecord, inside]

theorem Leads.keepsRecord (h : Leads now keeper stage event next)
    (hnext : next.keepsRecord = true) :
    (stage.keepsRecord = true ∨ ∃ record, keeper.session.record = some record) ∧
      stage.write keeper.session = keeper.session := by
  cases h <;> simp_all [Stage.keepsRecord, write]

/-- What a call writes fits the session, if the record that it relies on is still there. -/
theorem sound_write {session : Session} (h : session.Sound)
    (hkept : stage.keepsRecord = true → ∃ record, session.record = some record) :
    (stage.write session).Sound := by
  cases stage with
  | starting flow => exact ⟨nofun, h.held⟩
  | exchangeStored record => exact ⟨nofun, nofun⟩
  | retryStored stored => exact ⟨h.lost, fun _ => hkept rfl⟩
  | refreshStored record stored =>
      -- The record that was refreshed is there, so no rejection is remembered.
      refine ⟨fun hlost => ?_, fun _ => ⟨record, rfl⟩⟩
      obtain ⟨kept, hrecord⟩ := hkept rfl
      rw [(h.lost hlost).1] at hrecord
      cases hrecord
  | refreshCleared reason => exact ⟨fun _ => ⟨rfl, rfl⟩, nofun⟩
  | logoutCleared => exact ⟨nofun, nofun⟩
  | _ => exact h

end Stage

namespace Traffic

variable {store : Store} {disk after : Disk} {traffic next : Traffic} {past : List Moment}
  {index : Nat} {caller : Caller}

/-- What is known in a run of the session's fields and of the calls that rely on them. -/
structure SessionKnown (traffic : Traffic) : Prop where
  sound : traffic.keeper.session.Sound
  kept : traffic.Each fun _ caller => caller.stage.keepsRecord = true →
    ∃ record, traffic.keeper.session.record = some record

theorem SessionKnown.put (h : traffic.SessionKnown) (hguarded : traffic.Guarded) {input : Input}
    {event : Event} (now : UInt64) (hcaller : traffic.calls[index]? = some caller)
    (hevent : traffic.event? store caller.stage.wait input = some (after, event)) :
    (traffic.put index caller after (caller.stage.step now traffic.keeper event)).SessionKnown := by
  have hsession := session_put now index hevent
  refine ⟨?_, each_put (fun hnext => ?_) fun other held hne hheld hkeeps => ?_⟩
  · rw [hsession]
    exact Stage.sound_write h.sound (h.kept index caller hcaller)
  · obtain ⟨hbefore, hwrite⟩ := (leads_of_event? now hevent).keepsRecord hnext
    rw [hsession, hwrite]
    exact hbefore.elim (h.kept index caller hcaller) id
  · have hout := hguarded.outside hcaller hheld hne (Stage.inside_of_keepsRecord hkeeps)
    rw [hsession, Stage.record_write_of_outside hout]
    exact h.kept other held hheld hkeeps

theorem Reached.sessionKnown (h : Reached store disk past traffic) : traffic.SessionKnown := by
  apply h.induction (P := fun _ traffic => traffic.SessionKnown)
  · intro stored _
    refine ⟨Session.sound_ofStored stored, fun index caller hcaller => ?_⟩
    simp at hcaller
  · intro past traffic moment next hreached hknown hstep
    rcases step_cases hstep with ⟨call, -, rfl⟩ |
      ⟨index, input, caller, after, event, -, hcaller, hevent, rfl⟩
    · exact ⟨hknown.sound, each_arrive hknown.kept fun hkeeps => by cases call <;> cases hkeeps⟩
    · exact hknown.put hreached.guarded moment.now hcaller hevent

/--
At every moment of every run a session that remembers a rejected refresh has neither a record nor
a pending flow, and a session whose record could not be stored has one.
-/
theorem lost_or_held (h : Reached store disk past traffic) :
    (∀ reason, traffic.keeper.session.refreshFailure = some reason →
      traffic.keeper.session.record = none ∧ traffic.keeper.session.pending = none) ∧
    ∀ failure, traffic.keeper.session.persistFailure = some failure →
      ∃ record, traffic.keeper.session.record = some record :=
  ⟨fun _ => h.sessionKnown.sound.lost, fun _ => h.sessionKnown.sound.held⟩

/-- A refreshed record cannot be stored. -/
def leftUnstored : List Moment :=
  shortFlow ++ [.begin .token, .advance 2 .turn, .advance 2 .turn, .advance 2 .turn,
    .advance 2 .turn, .advance 2 .turn, .advance 2 (.reply (.granted ⟨"second", none, 30, none⟩)),
    .advance 2 (.store (some ⟨.writeDraft, "no space left"⟩)), .advance 2 .turn,
    .advance 2 .turn].map fun action => ⟨1000, action⟩

/-- It cannot be stored once more either, and its refresh is rejected. -/
def lostUnstored : List Moment :=
  leftUnstored ++ [.begin .token, .advance 3 .turn, .advance 3 .turn, .advance 3 .turn,
    .advance 3 (.store (some ⟨.writeDraft, "no space left"⟩)), .advance 3 .turn, .advance 3 .turn,
    .advance 3 .turn, .advance 3 .turn, .advance 3 .turn,
    .advance 3 (.reply (.rejected 400 "invalid_grant")), .advance 3 (.store none),
    .advance 3 .turn].map fun action => ⟨1000, action⟩

set_option maxRecDepth 8000 in
theorem lost_or_held_unstored :
    (∃ held, Reached ⟨["tokens.json"]⟩ .empty leftUnstored held ∧
      held.keeper.session.persistFailure = some "Storage error: no space left" ∧
      ∃ record, held.keeper.session.record = some record) ∧
    ∃ lost, Reached ⟨["tokens.json"]⟩ .empty lostUnstored lost ∧
      lost.keeper.session.refreshFailure = some (TokenReply.rejection 400 "invalid_grant") ∧
      lost.keeper.session.record = none ∧ lost.keeper.session.pending = none := by
  obtain ⟨held, hheld, hfailure⟩ :
      ∃ held, Reached ⟨["tokens.json"]⟩ .empty leftUnstored held ∧
        held.keeper.session.persistFailure = some "Storage error: no space left" :=
    ⟨_, ⟨_, rfl, rfl⟩, rfl⟩
  obtain ⟨lost, hlost, hreason⟩ :
      ∃ lost, Reached ⟨["tokens.json"]⟩ .empty lostUnstored lost ∧
        lost.keeper.session.refreshFailure = some (TokenReply.rejection 400 "invalid_grant") :=
    ⟨_, ⟨_, rfl, rfl⟩, rfl⟩
  exact ⟨⟨held, hheld, hfailure, (lost_or_held hheld).2 _ hfailure⟩,
    lost, hlost, hreason, (lost_or_held hlost).1 _ hreason⟩

end Traffic

end Credential

end ChatGateway
