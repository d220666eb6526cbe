import ChatGateway.Proofs.Delivery

/-!
# The events of a body

Every frame of a body either goes on with an event or closes the stream, with success
or with a failure.  The deltas of a body are those of the events before the first
closing frame, taken one after another, and then the one delta of the closing; a
complete message whose last counts have no total has none.
-/

namespace ChatGateway

namespace Stream

open Chat (Usage)

inductive Closing where
  | completed
  | failed (failure : Failure)
  deriving DecidableEq, Repr

/-- What a decoded item means: an event to go on with, or a reason to close. -/
def meaning : Except Failure Frame -> Except Closing Event
  | .error failure => .error (.failed failure)
  | .ok frame =>
      match Event.read frame.data with
      | .error fault => .error (.failed (Intake.unreadable frame fault))
      | .ok .messageStop => .error .completed
      | .ok (.error report) => .error (.failed (Failure.ofStreamError report))
      | .ok event => .ok event

/-- The events before the first item that closes the stream. -/
def opening : List (Except Failure Frame) -> List Event
  | [] => []
  | item :: rest =>
      match meaning item with
      | .ok event => event :: opening rest
      | .error _ => []

def closing? : List (Except Failure Frame) -> Option Closing
  | [] => none
  | item :: rest =>
      match meaning item with
      | .ok _ => closing? rest
      | .error closing => some closing

/-- Items after one that closes the stream change neither its events nor its closing. -/
theorem opening_append_of_closing {items : List (Except Failure Frame)}
    (more : List (Except Failure Frame)) (h : closing? items ≠ none) :
    opening (items ++ more) = opening items ∧ closing? (items ++ more) = closing? items := by
  induction items with
  | nil =>
      exact absurd rfl h
  | cons item rest ih =>
      simp only [List.cons_append, opening, closing?] at h ⊢
      cases hmeaning : meaning item with
      | error closing =>
          simp
      | ok event =>
          simp only [hmeaning] at h ⊢
          obtain ⟨hopening, hclosing⟩ := ih h
          exact ⟨by rw [hopening], hclosing⟩

theorem opening_append {items : List (Except Failure Frame)}
    (more : List (Except Failure Frame)) (h : closing? items = none) :
    opening (items ++ more) = opening items ++ opening more ∧
      closing? (items ++ more) = closing? more := by
  induction items with
  | nil =>
      exact ⟨rfl, rfl⟩
  | cons item rest ih =>
      simp only [List.cons_append, opening, closing?] at h ⊢
      cases hmeaning : meaning item with
      | error closing =>
          simp [hmeaning] at h
      | ok event =>
          simp only [hmeaning] at h ⊢
          obtain ⟨hopening, hclosing⟩ := ih h
          exact ⟨by rw [hopening, List.cons_append], hclosing⟩

/-- The first closing item, with the items that go on before it. -/
theorem closing?_eq_some {items : List (Except Failure Frame)} {closing : Closing}
    (h : closing? items = some closing) :
    ∃ before item after, items = before ++ item :: after ∧ meaning item = .error closing ∧
      ∀ other ∈ before, ∃ event, meaning other = .ok event := by
  induction items with
  | nil =>
      simp [closing?] at h
  | cons item rest ih =>
      simp only [closing?] at h
      cases hmeaning : meaning item with
      | error found =>
          rw [hmeaning] at h
          cases h
          exact ⟨[], item, rest, rfl, hmeaning, by simp⟩
      | ok event =>
          rw [hmeaning] at h
          obtain ⟨before, last, after, hsplit, hlast, hbefore⟩ := ih h
          refine ⟨item :: before, last, after, by rw [hsplit]; rfl, hlast, ?_⟩
          intro other hother
          rcases List.mem_cons.1 hother with rfl | hother
          · exact ⟨event, hmeaning⟩
          · exact hbefore other hother

theorem closing?_of_meaning {before after : List (Except Failure Frame)}
    {item : Except Failure Frame} {closing : Closing} (hitem : meaning item = .error closing)
    (hbefore : closing? before = none) :
    closing? (before ++ item :: after) = some closing := by
  rw [(opening_append (item :: after) hbefore).2]
  simp [closing?, hitem]

namespace Progress

def run : Progress -> List Event -> Progress × List Delta
  | progress, [] => (progress, [])
  | progress, event :: rest =>
      let (after, brought) := progress.step event
      let (reached, deltas) := run after rest
      (reached, brought.delta?.toList ++ deltas)

@[simp] theorem run_nil (progress : Progress) : progress.run [] = (progress, []) := rfl

theorem run_cons (progress : Progress) (event : Event) (rest : List Event) :
    progress.run (event :: rest) =
      (((progress.step event).1.run rest).1,
        (progress.step event).2.delta?.toList ++ ((progress.step event).1.run rest).2) := rfl

theorem run_append (progress : Progress) (first second : List Event) :
    progress.run (first ++ second) =
      (((progress.run first).1.run second).1,
        (progress.run first).2 ++ ((progress.run first).1.run second).2) := by
  induction first generalizing progress with
  | nil =>
      simp
  | cons event rest ih =>
      simp [run_cons, ih]

/-- What closes a stream. -/
def close (progress : Progress) : Closing -> Brought
  | .completed => progress.complete
  | .failed failure => .one (.failed failure)

theorem complete_cases (progress : Progress) :
    (∃ usage, progress.complete = .one (.done usage)) ∨ progress.complete = .breakOff := by
  unfold complete
  cases Usage.ofCounts? progress.inputTokens progress.outputTokens with
  | none => exact .inr rfl
  | some usage => exact .inl ⟨usage, rfl⟩

end Progress

namespace Intake

/-- An item that closes the stream brings the closing delta. -/
theorem interpret_of_closing {item : Except Failure Frame} {closing : Closing}
    (progress : Progress) (h : meaning item = .error closing) :
    interpret progress item = (progress, progress.close closing) := by
  cases item with
  | error failure =>
      cases h
      rfl
  | ok frame =>
      simp only [meaning, interpret] at h ⊢
      cases hread : Event.read frame.data with
      | error fault =>
          rw [hread] at h
          cases h
          rfl
      | ok event =>
          rw [hread] at h
          cases event <;> cases h <;> rfl

/-- An item that goes on brings what its event brings, and that is not terminal. -/
theorem interpret_of_event {item : Except Failure Frame} {event : Event}
    (progress : Progress) (h : meaning item = .ok event) :
    interpret progress item = progress.step event ∧
      (progress.step event).2 ≠ .breakOff ∧
      ∀ delta, (progress.step event).2 = .one delta → delta.isTerminal = false := by
  cases item with
  | error failure =>
      cases h
  | ok frame =>
      simp only [meaning, interpret] at h ⊢
      cases hread : Event.read frame.data with
      | error fault =>
          rw [hread] at h
          cases h
      | ok found =>
          rw [hread] at h
          cases found with
          | messageStop => cases h
          | error report => cases h
          | blockStart index block =>
              cases h
              refine ⟨rfl, ?_⟩
              simp only [Progress.step]
              split
              · exact ⟨by simp, by rintro delta ⟨⟩; rfl⟩
              · exact ⟨by simp, by rintro delta ⟨⟩⟩
          | _ =>
              cases h
              exact ⟨rfl, by simp [Progress.step], by rintro delta ⟨⟩ <;> rfl⟩

/-- The deltas of items are those of the events before the closing, and the closing one. -/
theorem interpretAll_eq (progress : Progress) (items : List (Except Failure Frame)) :
    interpretAll progress items =
      match closing? items with
      | none => (some (progress.run (opening items)).1, (progress.run (opening items)).2)
      | some closing =>
          (none, (progress.run (opening items)).2 ++
            ((progress.run (opening items)).1.close closing).delta?.toList) := by
  induction items generalizing progress with
  | nil =>
      rfl
  | cons item rest ih =>
      simp only [interpretAll, opening, closing?]
      cases hmeaning : meaning item with
      | error closing =>
          simp only [interpret_of_closing progress hmeaning]
          cases closing with
          | failed failure => rfl
          | completed =>
              rcases progress.complete_cases with ⟨usage, hcomplete⟩ | hcomplete
              · simp [Progress.close, hcomplete, Delta.isTerminal, Brought.delta?]
              · simp [Progress.close, hcomplete, Brought.delta?]
      | ok event =>
          obtain ⟨hinterpret, hgoes, hopen⟩ := interpret_of_event progress hmeaning
          simp only [hinterpret, Progress.run_cons]
          cases hstep : progress.step event with
          | mk after brought =>
              cases brought with
              | nothing =>
                  simp only [ih after, Brought.delta?, Option.toList_none, List.nil_append]
              | breakOff =>
                  rw [hstep] at hgoes
                  exact absurd rfl hgoes
              | one delta =>
                  have hdelta : delta.isTerminal = false := hopen delta (by rw [hstep])
                  simp only [hdelta, ih after, Bool.false_eq_true, if_false]
                  cases closing? rest <;> simp [Brought.delta?]

/-- The closing of a body: the one that a frame brings, or the way its bytes stop. -/
def closingOf (bytes : List UInt8) (stop : Stop) : Closing :=
  (closing? (framesOf bytes)).getD (.failed (stop.failure (remainder bytes)))

theorem translation_eq (bytes : List UInt8) (stop : Stop) :
    translation bytes stop =
      (Progress.initial.run (opening (framesOf bytes))).2 ++
        ((Progress.initial.run (opening (framesOf bytes))).1.close
          (closingOf bytes stop)).delta?.toList := by
  rw [translation, interpretAll_eq, closingOf]
  cases closing? (framesOf bytes) <;> rfl

end Intake

/-! ## The counts that are reported last -/

/-- The tokens that an event reports. -/
def Event.tokens? : Event -> Option TokenReport
  | .messageStart _ tokens => tokens
  | .messageDelta _ tokens => tokens
  | _ => none

/-- The counts of one kind that events report. -/
def countsOf (count : TokenReport -> Option UInt32) (events : List Event) : List UInt32 :=
  events.filterMap fun event => event.tokens?.bind count

/-- The last report of a count, 0 if there is none. -/
def lastCount (count : TokenReport -> Option UInt32) (events : List Event) : UInt32 :=
  (countsOf count events).getLast?.getD 0

/-- The two counts that are reported last have a total in 32 bits. -/
def HasTotal (events : List Event) : Prop :=
  (lastCount TokenReport.input events).toNat + (lastCount TokenReport.output events).toNat <
    UInt32.size

instance (events : List Event) : Decidable (HasTotal events) :=
  inferInstanceAs (Decidable (_ < _))

/-- The last report of each count. -/
def lastUsage (events : List Event) (h : HasTotal events) : Usage :=
  ⟨lastCount TokenReport.input events, lastCount TokenReport.output events, h⟩

namespace Progress

/-- An event takes the place of a count exactly if it reports that count. -/
theorem counts_step (progress : Progress) (event : Event) :
    (progress.step event).1.inputTokens =
        (event.tokens?.bind TokenReport.input).getD progress.inputTokens ∧
      (progress.step event).1.outputTokens =
        (event.tokens?.bind TokenReport.output).getD progress.outputTokens := by
  cases event with
  | messageStart id tokens => cases tokens <;> exact ⟨rfl, rfl⟩
  | messageDelta stopReason tokens => cases tokens <;> exact ⟨rfl, rfl⟩
  | blockStart index block =>
      simp only [step]
      split <;> exact ⟨rfl, rfl⟩
  | _ => exact ⟨rfl, rfl⟩

/-- A count that each event replaces if it reports it is the last one reported in a run. -/
theorem run_count {count : TokenReport -> Option UInt32} {held : Progress -> UInt32}
    (hstep : ∀ (progress : Progress) (event : Event),
      held (progress.step event).1 = (event.tokens?.bind count).getD (held progress))
    (progress : Progress) (events : List Event) :
    held (progress.run events).1 = (countsOf count events).getLast?.getD (held progress) := by
  induction events generalizing progress with
  | nil => rfl
  | cons event rest ih =>
      rw [run_cons, ih, hstep, countsOf, countsOf, List.filterMap_cons]
      cases event.tokens?.bind count with
      | none => rfl
      | some found => simp only [Option.getD_some, List.getLast?_cons]

theorem complete_run (events : List Event) :
    (initial.run events).1.complete =
      if h : HasTotal events then .one (.done (lastUsage events h)) else .breakOff := by
  have hinput : (initial.run events).1.inputTokens = lastCount TokenReport.input events :=
    run_count (fun progress event => (counts_step progress event).1) initial events
  have houtput : (initial.run events).1.outputTokens = lastCount TokenReport.output events :=
    run_count (fun progress event => (counts_step progress event).2) initial events
  rw [complete, hinput, houtput]
  by_cases h : HasTotal events
  · have husage : Usage.ofCounts? (lastCount TokenReport.input events)
        (lastCount TokenReport.output events) = some (lastUsage events h) := dif_pos h
    rw [husage, dif_pos h]
  · have hnone : Usage.ofCounts? (lastCount TokenReport.input events)
        (lastCount TokenReport.output events) = none := dif_neg h
    rw [hnone, dif_neg h]

theorem close_of_hasTotal {events : List Event} (h : HasTotal events) :
    (initial.run events).1.close .completed = .one (.done (lastUsage events h)) := by
  rw [close, complete_run, dif_pos h]

theorem close_of_not_hasTotal {events : List Event} (h : ¬ HasTotal events) :
    (initial.run events).1.close .completed = .breakOff := by
  rw [close, complete_run, dif_neg h]

end Progress

end Stream

end ChatGateway
