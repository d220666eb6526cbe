import ChatGateway.Proofs.Calls

/-!
# Whose arguments a piece is

A history lists the events of a turn with the deltas that they bring.  A piece of arguments
is counted to the call that the latest tool use with the piece's block index began.  Where
no tool use had that index it is counted to call 0, whether or not that is its own.
-/

namespace ChatGateway

namespace Stream

abbrev History := List (Event × Option Delta)

/-- The number of the call that an entry begins, if it begins one under this index. -/
def announcement? (index : UInt32) (entry : Event × Option Delta) : Option UInt32 :=
  if entry.1.opened? = some index then entry.2.bind Delta.callNumber? else none

/-- The number of the call that the latest tool use with this index began. -/
def announced? (index : UInt32) (past : History) : Option UInt32 :=
  (past.filterMap (announcement? index)).getLast?

theorem announced?_cons (index : UInt32) (entry : Event × Option Delta) (later : History) :
    announced? index (entry :: later) =
      (announced? index later).or (announcement? index entry) := by
  rw [announced?, List.filterMap_cons]
  cases announcement? index entry with
  | none => simp [announced?]
  | some call =>
      simp only [List.getLast?_cons, announced?]
      cases (later.filterMap (announcement? index)).getLast? <;> rfl

namespace Progress

/-- The events of a turn, each with the delta that it brings. -/
def history : Progress -> List Event -> History
  | _, [] => []
  | progress, event :: rest =>
      (event, (progress.step event).2.delta?) :: history (progress.step event).1 rest

@[simp] theorem map_fst_history (progress : Progress) (events : List Event) :
    (progress.history events).map Prod.fst = events := by
  induction events generalizing progress with
  | nil => rfl
  | cons event rest ih => rw [history, List.map_cons, ih]

/-- A history holds the deltas of the run, in their order. -/
theorem filterMap_snd_history (progress : Progress) (events : List Event) :
    (progress.history events).filterMap Prod.snd = (progress.run events).2 := by
  induction events generalizing progress with
  | nil => rfl
  | cons event rest ih =>
      rw [history, run_cons, ← ih]
      cases (progress.step event).2.delta? <;> simp

theorem history_append (progress : Progress) (first second : List Event) :
    progress.history (first ++ second) =
      progress.history first ++ (progress.run first).1.history second := by
  induction first generalizing progress with
  | nil => rfl
  | cons event rest ih =>
      rw [List.cons_append, history, ih, history, run_cons, List.cons_append]

/-- What comes before an entry is a history, and the entry's event brings its delta after it. -/
theorem history_eq_append_cons {events : List Event} {before after : History}
    {event : Event} {delta : Option Delta} {progress : Progress}
    (h : progress.history events = before ++ (event, delta) :: after) :
    before = progress.history (before.map Prod.fst) ∧
      delta = ((progress.run (before.map Prod.fst)).1.step event).2.delta? := by
  induction before generalizing progress events with
  | nil =>
      cases events with
      | nil => cases h
      | cons first rest =>
          cases h
          exact ⟨rfl, rfl⟩
  | cons entry before ih =>
      cases events with
      | nil => cases h
      | cons first rest =>
          rw [history, List.cons_append] at h
          obtain ⟨rfl, hrest⟩ := List.cons.inj h
          obtain ⟨hbefore, hdelta⟩ := ih hrest
          rw [List.map_cons, history, run_cons]
          exact ⟨by rw [← hbefore], hdelta⟩

/-- One event puts the number that it announces into the table. -/
theorem lookup_step (progress : Progress) (event : Event) (index : UInt32) :
    (progress.step event).1.toolCalls.lookup index =
      (announcement? index (event, (progress.step event).2.delta?)).or
        (progress.toolCalls.lookup index) := by
  cases hopened : event.opened? with
  | none =>
      rw [(progress.step_of_not_opened hopened).1]
      simp [announcement?, hopened]
  | some other =>
      obtain ⟨hcalls, hnumber⟩ := progress.step_of_opened hopened
      rw [hcalls, ToolCalls.lookup_set]
      by_cases hindex : index = other
      · simp [announcement?, hopened, hnumber, hindex]
      · have hne : other ≠ index := Ne.symm hindex
        simp [announcement?, hopened, hindex, hne]

/-- The table holds the latest number announced under each index. -/
theorem lookup_run (progress : Progress) (events : List Event) (index : UInt32) :
    (progress.run events).1.toolCalls.lookup index =
      (announced? index (progress.history events)).or (progress.toolCalls.lookup index) := by
  induction events generalizing progress with
  | nil => rfl
  | cons event rest ih =>
      rw [run_cons, history, announced?_cons, Option.or_assoc, ← lookup_step]
      exact ih (progress.step event).1

theorem announced?_history (progress : Progress) (events : List Event) (index : UInt32) :
    announced? index (progress.history events) ≠ none ↔
      ∃ event ∈ events, event.opened? = some index := by
  induction events generalizing progress with
  | nil => simp [history, announced?]
  | cons event rest ih =>
      have hfirst : announcement? index (event, (progress.step event).2.delta?) ≠ none ↔
          event.opened? = some index := by
        by_cases hopened : event.opened? = some index
        · simp [announcement?, hopened, (progress.step_of_opened hopened).2]
        · simp [announcement?, hopened]
      rw [history, announced?_cons]
      simp only [ne_eq, Option.or_eq_none_iff, not_and_or]
      rw [← ne_eq, ← ne_eq, ih, hfirst]
      simp [or_comm]

end Progress

/-- Every piece of arguments is counted to the call of the latest tool use with its index. -/
def ArgumentsOwned (past : History) : Prop :=
  ∀ before index piece call text after,
    past = before ++ (.blockDelta index piece, some (.content (.arguments call text))) :: after →
    announced? index before = some call

namespace Progress

/-- The number that a piece of arguments gets. -/
theorem arguments_of_history {events : List Event} {before after : History} {index : UInt32}
    {piece : String} {delta : Option Delta}
    (h : initial.history events =
      before ++ (.blockDelta index (.inputJson piece), delta) :: after) :
    delta = some (.content (.arguments ((announced? index before).getD 0) piece)) := by
  obtain ⟨hbefore, hdelta⟩ := history_eq_append_cons h
  have hlookup := initial.lookup_run (before.map Prod.fst) index
  have hnone : initial.toolCalls.lookup index = none := rfl
  rw [← hbefore, hnone, Option.or_none] at hlookup
  rw [hdelta, ← hlookup]
  rfl

/--
The history of a turn pairs its events with all the deltas of its run.  In it a piece of
arguments is counted to the call that the latest tool use with its block index began, and to
call 0 if no tool use had that index.  So every piece is counted to its own call exactly if
every piece comes after a tool use with its index.
-/
theorem arguments_owned_iff (events : List Event) :
    ((initial.history events).map Prod.fst = events ∧
      (initial.history events).filterMap Prod.snd = (initial.run events).2) ∧
    (∀ before index piece delta after,
      initial.history events =
        before ++ (.blockDelta index (.inputJson piece), delta) :: after →
      delta = some (.content (.arguments ((announced? index before).getD 0) piece))) ∧
    (ArgumentsOwned (initial.history events) ↔
      ∀ before index piece after,
        events = before ++ .blockDelta index (.inputJson piece) :: after →
        ∃ event ∈ before, event.opened? = some index) := by
  refine ⟨⟨initial.map_fst_history events, initial.filterMap_snd_history events⟩,
    fun before index piece delta after h => arguments_of_history h, ?_, ?_⟩
  · intro howned before index piece after hevents
    let reached := (initial.run before).1
    have hhistory : initial.history events = initial.history before ++
        (.blockDelta index (.inputJson piece),
          (reached.step (.blockDelta index (.inputJson piece))).2.delta?) ::
        (reached.step (.blockDelta index (.inputJson piece))).1.history after := by
      rw [hevents, history_append]
      rfl
    have hcall := howned _ _ _ _ _ _ hhistory
    rw [← initial.announced?_history before index, hcall]
    simp
  -- Only a piece of JSON brings arguments, so its event is one that `hopened` speaks of.
  · intro hopened before index piece call text after hhistory
    obtain ⟨hbefore, hdelta⟩ := history_eq_append_cons hhistory
    obtain rfl : piece = .inputJson text := by
      cases piece with
      | inputJson own =>
          cases hdelta
          rfl
      | _ => cases hdelta
    have hevents := congrArg (List.map Prod.fst) hhistory
    rw [map_fst_history, List.map_append, List.map_cons] at hevents
    have hannounced := (initial.announced?_history _ index).2 (hopened _ _ _ _ hevents)
    rw [← hbefore] at hannounced
    obtain ⟨own, hown⟩ := Option.ne_none_iff_exists'.1 hannounced
    have hcall := arguments_of_history hhistory
    rw [hown] at hcall ⊢
    cases hcall
    rfl

/-- A piece of a block that began no call is counted to the call of another block. -/
theorem arguments_of_unopened_block :
    let events : List Event := [
      .blockStart 0 ⟨"tool_use", some "t", some "f"⟩,
      .blockStart 1 ⟨"server_tool_use", some "s", some "search"⟩,
      .blockDelta 1 (.inputJson "\x7b\x7d")]
    initial.history events = [
      (.blockStart 0 ⟨"tool_use", some "t", some "f"⟩, some (.toolCall 0 "t" "f")),
      (.blockStart 1 ⟨"server_tool_use", some "s", some "search"⟩, none),
      (.blockDelta 1 (.inputJson "\x7b\x7d"), some (.content (.arguments 0 "\x7b\x7d")))] ∧
    ¬ ArgumentsOwned (initial.history events) := by
  intro events
  have hhistory : initial.history events = [
      (.blockStart 0 ⟨"tool_use", some "t", some "f"⟩, some (.toolCall 0 "t" "f")),
      (.blockStart 1 ⟨"server_tool_use", some "s", some "search"⟩, none),
      (.blockDelta 1 (.inputJson "\x7b\x7d"), some (.content (.arguments 0 "\x7b\x7d")))] := by
    decide
  refine ⟨hhistory, ?_⟩
  intro howned
  have hnumber := howned (initial.history events).dropLast 1 (.inputJson "\x7b\x7d") 0
    "\x7b\x7d" [] (by decide)
  exact absurd hnumber (by decide)

end Progress

end Stream

end ChatGateway
