import ChatGateway.Proofs.Events
import ChatGateway.Proofs.Rendering

/-!
# The terminal delta and the closing frame

A body ends with exactly one terminal delta, and a stream to a caller with exactly
one closing frame, or the stream breaks off and has neither.  The first closing frame
of the body and the counts reported before it decide which, and nothing that comes
after it matters.
-/

namespace ChatGateway

namespace Stream

/-- The items end with one that satisfies `p`, and no other one does. -/
def EndsWithOnly (p : α -> Prop) (items : List α) : Prop :=
  ∃ init last, items = init ++ [last] ∧ p last ∧ ∀ item ∈ init, ¬ p item

/-! ## What the first closing frame says -/

/-- A frame with the event that completes a message comes before any failure and any error. -/
def CompletesFirst (items : List (Except Failure Frame)) : Prop :=
  ∃ before frame after, items = before ++ .ok frame :: after ∧
    Event.read frame.data = .ok .messageStop ∧
    ∀ item ∈ before, ∃ earlier event, item = .ok earlier ∧
      Event.read earlier.data = .ok event ∧ ∀ report, event ≠ .error report

/-- The message is complete, but the counts that were reported last have no total. -/
def BreaksOff (items : List (Except Failure Frame)) : Prop :=
  CompletesFirst items ∧ ¬ HasTotal (opening items)

theorem meaning_eq_completed {item : Except Failure Frame} :
    meaning item = .error .completed ↔
      ∃ frame, item = .ok frame ∧ Event.read frame.data = .ok .messageStop := by
  cases item with
  | error failure =>
      simp [meaning]
  | ok frame =>
      simp only [meaning, Except.ok.injEq, exists_eq_left']
      cases Event.read frame.data with
      | error fault => simp
      | ok event => cases event <;> simp

theorem meaning_eq_ok {item : Except Failure Frame} {event : Event}
    (h : meaning item = .ok event) :
    ∃ frame, item = .ok frame ∧ Event.read frame.data = .ok event ∧
      ∀ report, event ≠ .error report := by
  cases item with
  | error failure =>
      cases h
  | ok frame =>
      refine ⟨frame, rfl, ?_⟩
      simp only [meaning] at h
      cases hread : Event.read frame.data with
      | error fault =>
          rw [hread] at h
          cases h
      | ok found =>
          rw [hread] at h
          cases found <;> cases h <;> simp

theorem meaning_of_read {frame : Frame} {event : Event}
    (hread : Event.read frame.data = .ok event) (hreport : ∀ report, event ≠ .error report) :
    meaning (.ok frame) = .error .completed ∨ meaning (.ok frame) = .ok event := by
  simp only [meaning, hread]
  cases event with
  | messageStop => exact Or.inl rfl
  | error report => exact absurd rfl (hreport report)
  | _ => exact Or.inr rfl

theorem completesFirst_iff {items : List (Except Failure Frame)} :
    CompletesFirst items ↔ closing? items = some .completed := by
  constructor
  · rintro ⟨before, frame, after, rfl, hstop, hbefore⟩
    cases hclosing : closing? before with
    | none =>
        exact closing?_of_meaning (meaning_eq_completed.2 ⟨frame, rfl, hstop⟩) hclosing
    | some closing =>
        -- an earlier item closes the stream, and being no failure it completes it
        obtain ⟨first, item, rest, hsplit, hitem, _⟩ := closing?_eq_some hclosing
        obtain ⟨earlier, event, rfl, hread, hreport⟩ := hbefore item (by simp [hsplit])
        rw [(opening_append_of_closing _ (by simp [hclosing])).2, hclosing]
        rcases meaning_of_read hread hreport with hmeaning | hmeaning
        · rw [hmeaning] at hitem
          cases hitem
          rfl
        · rw [hmeaning] at hitem
          cases hitem
  · intro h
    obtain ⟨before, item, after, hsplit, hitem, hbefore⟩ := closing?_eq_some h
    obtain ⟨frame, rfl, hread⟩ := meaning_eq_completed.1 hitem
    refine ⟨before, frame, after, hsplit, hread, ?_⟩
    intro item hmem
    obtain ⟨event, hevent⟩ := hbefore item hmem
    obtain ⟨earlier, hearlier, hread, hreport⟩ := meaning_eq_ok hevent
    exact ⟨earlier, event, hearlier, hread, hreport⟩

/-! ## The terminal delta -/

theorem Brought.eq_one_of_delta? {brought : Brought} {delta : Delta}
    (h : brought.delta? = some delta) : brought = .one delta := by
  cases brought with
  | one held =>
      cases h
      rfl
  | _ => cases h

theorem Progress.run_opening (progress : Progress) (items : List (Except Failure Frame)) :
    ∀ delta ∈ (progress.run (opening items)).2, delta.isTerminal = false := by
  induction items generalizing progress with
  | nil =>
      simp [opening]
  | cons item rest ih =>
      simp only [opening]
      cases hmeaning : meaning item with
      | error closing =>
          simp
      | ok event =>
          intro delta hdelta
          rw [run_cons, List.mem_append, Option.mem_toList] at hdelta
          rcases hdelta with hfirst | hrest
          · obtain ⟨-, -, hopen⟩ := Intake.interpret_of_event progress hmeaning
            exact hopen delta (Brought.eq_one_of_delta? hfirst)
          · exact ih (progress.step event).1 delta hrest

namespace Intake

/-- A body is complete only through a frame, never through the way it stops. -/
theorem closingOf_eq_completed {bytes : List UInt8} {stop : Stop} :
    closingOf bytes stop = .completed ↔ CompletesFirst (framesOf bytes) := by
  rw [completesFirst_iff, closingOf]
  cases closing? (framesOf bytes) <;> simp

/-- What closes a body of these bytes that stops so. -/
def lastBrought (bytes : List UInt8) (stop : Stop) : Brought :=
  (Progress.initial.run (opening (framesOf bytes))).1.close (closingOf bytes stop)

/--
A body is complete with the usage that was reported last, or the counts that were reported last
have no total and it breaks off, or it fails.
-/
theorem lastBrought_cases (bytes : List UInt8) (stop : Stop) :
    (∃ h : HasTotal (opening (framesOf bytes)), CompletesFirst (framesOf bytes) ∧
      lastBrought bytes stop = .one (.done (lastUsage _ h))) ∨
    (BreaksOff (framesOf bytes) ∧ lastBrought bytes stop = .breakOff) ∨
    (¬ CompletesFirst (framesOf bytes) ∧ ∃ failure, closingOf bytes stop = .failed failure ∧
      lastBrought bytes stop = .one (.failed failure)) := by
  unfold lastBrought
  cases hclosing : closingOf bytes stop with
  | completed =>
      have hcompletes := closingOf_eq_completed.1 hclosing
      by_cases htotal : HasTotal (opening (framesOf bytes))
      · exact .inl ⟨htotal, hcompletes, Progress.close_of_hasTotal htotal⟩
      · exact .inr (.inl ⟨⟨hcompletes, htotal⟩, Progress.close_of_not_hasTotal htotal⟩)
  | failed failure =>
      refine .inr (.inr ⟨fun hcompletes => ?_, failure, rfl, rfl⟩)
      rw [closingOf_eq_completed.2 hcompletes] at hclosing
      cases hclosing

theorem lastBrought_of_completesFirst {bytes : List UInt8} (stop : Stop)
    (h : CompletesFirst (framesOf bytes)) (htotal : HasTotal (opening (framesOf bytes))) :
    lastBrought bytes stop = .one (.done (lastUsage _ htotal)) := by
  rw [lastBrought, closingOf_eq_completed.2 h, Progress.close_of_hasTotal htotal]

theorem lastBrought_of_breaksOff {bytes : List UInt8} {stop : Stop}
    (h : BreaksOff (framesOf bytes)) : lastBrought bytes stop = .breakOff := by
  rw [lastBrought, closingOf_eq_completed.2 h.1, Progress.close_of_not_hasTotal h.2]

theorem lastBrought_of_not_completesFirst {bytes : List UInt8} (stop : Stop)
    (h : ¬ CompletesFirst (framesOf bytes)) :
    ∃ failure, closingOf bytes stop = .failed failure ∧
      lastBrought bytes stop = .one (.failed failure) := by
  rcases lastBrought_cases bytes stop with ⟨-, hcompletes, -⟩ | ⟨hbreaks, -⟩ | ⟨-, hfails⟩
  · exact absurd hcompletes h
  · exact absurd hbreaks.1 h
  · exact hfails

theorem isTerminal_of_lastBrought {bytes : List UInt8} {stop : Stop} {delta : Delta}
    (h : lastBrought bytes stop = .one delta) : delta.isTerminal = true := by
  rcases lastBrought_cases bytes stop with ⟨_, -, hone⟩ | ⟨-, hnone⟩ | ⟨-, failure, -, hone⟩
  · rw [hone] at h
    cases h
    rfl
  · rw [hnone] at h
    cases h
  · rw [hone] at h
    cases h
    rfl

theorem isTerminal_of_mem_lastBrought (bytes : List UInt8) (stop : Stop) :
    ∀ delta ∈ (lastBrought bytes stop).delta?, delta.isTerminal = true :=
  fun _ hdelta => isTerminal_of_lastBrought (Brought.eq_one_of_delta? hdelta)

theorem translation_eq_lastBrought (bytes : List UInt8) (stop : Stop) :
    translation bytes stop = (Progress.initial.run (opening (framesOf bytes))).2 ++
      (lastBrought bytes stop).delta?.toList :=
  translation_eq bytes stop

variable {idle : Nat} {reads : List (Nat × Read)}

/-- The deltas of a body: none of its events brings a terminal one, and then comes the last. -/
theorem deltas_eq_append (idle : Nat) (reads : List (Nat × Read)) :
    ∃ init lasts : List (Timed Delta), deltas idle reads = init ++ lasts ∧
      (∀ due ∈ init, due.value.isTerminal = false) ∧
      lasts.map Timed.value =
        (lastBrought (arrived idle reads) (stopOf idle reads)).delta?.toList := by
  have hvalues := deltas_eq_translation idle reads
  rw [translation_eq_lastBrought] at hvalues
  obtain ⟨init, lasts, hsplit, hinit, hlasts⟩ := List.map_eq_append_iff.1 hvalues
  refine ⟨init, lasts, hsplit, ?_, hlasts⟩
  intro due hdue
  have hmem : due.value ∈ init.map Timed.value := List.mem_map.2 ⟨due, hdue, rfl⟩
  rw [hinit] at hmem
  exact Progress.run_opening _ _ _ hmem

theorem deltas_of_lastBrought {delta : Delta}
    (h : lastBrought (arrived idle reads) (stopOf idle reads) = .one delta) :
    ∃ (init : List (Timed Delta)) (time : Nat), deltas idle reads = init ++ [⟨time, delta⟩] ∧
      ∀ due ∈ init, due.value.isTerminal = false := by
  obtain ⟨init, lasts, hsplit, hinit, hlasts⟩ := deltas_eq_append idle reads
  rw [h] at hlasts
  obtain ⟨last, rfl, rfl⟩ := List.map_eq_singleton_iff.1 hlasts
  exact ⟨init, last.time, hsplit, hinit⟩

/-- A body that breaks off has no terminal delta. -/
theorem deltas_of_breaksOff (h : BreaksOff (framesOf (arrived idle reads))) :
    ∀ due ∈ deltas idle reads, due.value.isTerminal = false := by
  obtain ⟨init, lasts, hsplit, hinit, hlasts⟩ := deltas_eq_append idle reads
  rw [lastBrought_of_breaksOff h] at hlasts
  rw [hsplit, List.map_eq_nil_iff.1 hlasts, List.append_nil]
  exact hinit

/-! ## What comes after the closing frame -/

theorem translation_of_closing {head tail : List UInt8} (stop stop' : Stop)
    (h : closing? (framesOf head) ≠ none) :
    translation (head ++ tail) stop = translation head stop' := by
  obtain ⟨hopening, hclosing⟩ :=
    opening_append_of_closing (framesOf (remainder head ++ tail)) h
  rw [← framesOf_append] at hopening hclosing
  rw [translation_eq, translation_eq, closingOf, closingOf, hopening, hclosing]
  obtain ⟨closing, hsome⟩ := Option.ne_none_iff_exists'.1 h
  simp [hsome]

/-- A chunk that closes the stream leaves nothing to the bytes behind it. -/
theorem step_chunk_of_ended {state : Intake} {head : List UInt8} (tail : List UInt8)
    (h : (state.step (.chunk head)).1 = .ended) :
    state.step (.chunk (head ++ tail)) = (.ended, (state.step (.chunk head)).2) := by
  rw [step_chunk_append, h]
  simp

theorem deltasFrom_of_ended {idle : Nat} {state : Intake} {seen : List (Nat × Read)}
    {delay : Nat} {head : List UInt8} (now : Nat) (settled : state.Settled)
    (tail tail' : List UInt8) (rest rest' : List (Nat × Read))
    (h : (state.step (.chunk (arrived idle (seen ++ [(delay, .chunk head)])))).1 = .ended) :
    deltasFrom idle now state (seen ++ (delay, .chunk (head ++ tail')) :: rest') =
        deltasFrom idle now state (seen ++ (delay, .chunk (head ++ tail)) :: rest) ∧
      endFrom idle now state (seen ++ (delay, .chunk (head ++ tail')) :: rest') =
        endFrom idle now state (seen ++ (delay, .chunk (head ++ tail)) :: rest) := by
  induction seen generalizing now state with
  | nil =>
      cases state with
      | ended =>
          exact ⟨rfl, rfl⟩
      | running decoder progress =>
          by_cases hlate : idle < delay
          · simp [deltasFrom, endFrom, hlate]
          · simp only [List.nil_append, arrived, hlate, if_false, List.append_nil] at h
            simp [deltasFrom, endFrom, hlate, step_chunk_of_ended _ h]
  | cons read seen ih =>
      obtain ⟨wait, read⟩ := read
      cases state with
      | ended =>
          exact ⟨rfl, rfl⟩
      | running decoder progress =>
          by_cases hlate : idle < wait
          · simp [deltasFrom, endFrom, hlate]
          · simp only [List.cons_append, deltasFrom, endFrom, hlate, if_false]
            cases read with
            | chunk bytes =>
                simp only [List.cons_append, arrived, hlate, if_false] at h
                rw [step_chunk_append] at h
                obtain ⟨hdeltas, hends⟩ := ih (now + wait) (step_chunk_settled _ bytes) h
                exact ⟨by rw [hdeltas], hends⟩
            | failed reason => simp [step, endFrom_ended]
            | closed => simp [step, endFrom_ended]

theorem step_initial_of_closing {bytes : List UInt8} (h : closing? (framesOf bytes) ≠ none) :
    (initial.step (.chunk bytes)).1 = .ended := by
  obtain ⟨closing, hsome⟩ := Option.ne_none_iff_exists'.1 h
  rw [initial, step_chunk]
  simp only [Decoder.empty, List.nil_append, interpretAll_eq, hsome, settle]

end Intake

open Intake (deltas)

/-! ## The closing frame -/

section Frames

variable {idle : Nat} {reads : List (Nat × Read)}

/-- Frames that are comments and chunks neither complete a stream nor fail it. -/
theorem Outgoing.neither_of_plain {frame : Outgoing} (h : frame.isComment = true ∨ frame.IsChunk) :
    ¬ frame.IsDone ∧ ¬ frame.IsError := by
  rcases h with hcomment | hchunk
  · cases frame with
    | keepAlive => exact keepAlive_neither
    | _ => cases hcomment
  · exact hchunk.neither

theorem Encoder.frames_of_lastBrought {delta : Delta} (stop : Nat) (encoder : Encoder)
    (h : Intake.lastBrought (arrived idle reads) (stopOf idle reads) = .one delta) :
    ∃ (before : List (Timed Outgoing)) (time : Nat),
      encoder.frames stop (deltas idle reads) =
        before ++ [⟨time, Encoder.closingFrame delta⟩] ∧
      ∀ due ∈ before, ¬ due.value.IsDone ∧ ¬ due.value.IsError := by
  obtain ⟨init, time, hsplit, hinit⟩ := Intake.deltas_of_lastBrought h
  obtain ⟨before, hframes, hbefore⟩ := encoder.frames_of_terminal stop hinit
    (show (⟨time, delta⟩ : Timed Delta).value.isTerminal = true from
      Intake.isTerminal_of_lastBrought h)
  refine ⟨before, time, by rw [hsplit, hframes], ?_⟩
  intro due hdue
  exact Outgoing.neither_of_plain (hbefore due hdue)

theorem deltas_endsWithOnly (h : ¬ BreaksOff (framesOf (arrived idle reads))) :
    EndsWithOnly (fun due => due.value.isTerminal = true) (deltas idle reads) := by
  have hone : ∃ delta, Intake.lastBrought (arrived idle reads) (stopOf idle reads) =
      .one delta := by
    rcases Intake.lastBrought_cases (arrived idle reads) (stopOf idle reads) with
      ⟨_, -, hone⟩ | ⟨hbreaks, -⟩ | ⟨-, failure, -, hone⟩
    · exact ⟨_, hone⟩
    · exact absurd hbreaks h
    · exact ⟨_, hone⟩
  obtain ⟨delta, hdelta⟩ := hone
  obtain ⟨init, time, hsplit, hinit⟩ := Intake.deltas_of_lastBrought hdelta
  refine ⟨init, ⟨time, delta⟩, hsplit, Intake.isTerminal_of_lastBrought hdelta, ?_⟩
  intro due hdue
  simp [hinit due hdue]

theorem exists_done_iff (idle : Nat) (reads : List (Nat × Read)) :
    (∃ due ∈ deltas idle reads, ∃ usage, due.value = .done usage) ↔
      CompletesFirst (framesOf (arrived idle reads)) ∧
        HasTotal (opening (framesOf (arrived idle reads))) := by
  constructor
  · rintro ⟨due, hdue, usage, hdone⟩
    obtain ⟨init, lasts, hsplit, hinit, hlasts⟩ := Intake.deltas_eq_append idle reads
    rw [hsplit, List.mem_append] at hdue
    rcases hdue with hmem | hmem
    · have hopen := hinit due hmem
      simp [hdone, Delta.isTerminal] at hopen
    · have hvalue := List.mem_map_of_mem (f := Timed.value) hmem
      rw [hlasts, hdone] at hvalue
      rcases Intake.lastBrought_cases (arrived idle reads) (stopOf idle reads) with
        ⟨htotal, hcompletes, -⟩ | ⟨-, hnone⟩ | ⟨-, failure, -, hone⟩
      · exact ⟨hcompletes, htotal⟩
      · simp [hnone, Brought.delta?] at hvalue
      · simp [hone, Brought.delta?] at hvalue
  · rintro ⟨hcompletes, htotal⟩
    obtain ⟨init, time, hsplit, -⟩ :=
      Intake.deltas_of_lastBrought (Intake.lastBrought_of_completesFirst _ hcompletes htotal)
    exact ⟨⟨time, .done (lastUsage _ htotal)⟩, by simp [hsplit], _, rfl⟩

theorem frames_of_completesFirst (stop : Nat) (encoder : Encoder)
    (h : CompletesFirst (framesOf (arrived idle reads)))
    (htotal : HasTotal (opening (framesOf (arrived idle reads)))) :
    EndsWithOnly (fun due => due.value.IsDone) (encoder.frames stop (deltas idle reads)) ∧
      ∀ due ∈ encoder.frames stop (deltas idle reads), ¬ due.value.IsError := by
  obtain ⟨before, time, hframes, hbefore⟩ := Encoder.frames_of_lastBrought stop encoder
    (Intake.lastBrought_of_completesFirst _ h htotal)
  rw [hframes]
  refine ⟨⟨before, _, rfl, Outgoing.done_isDone.1, fun due hdue => (hbefore due hdue).1⟩, ?_⟩
  intro due hdue
  rcases List.mem_append.1 hdue with hmem | hmem
  · exact (hbefore due hmem).2
  · rw [List.mem_singleton.1 hmem]
    exact Outgoing.done_isDone.2

theorem frames_of_not_completesFirst (stop : Nat) (encoder : Encoder)
    (h : ¬ CompletesFirst (framesOf (arrived idle reads))) :
    EndsWithOnly (fun due => due.value.IsError) (encoder.frames stop (deltas idle reads)) ∧
      ∀ due ∈ encoder.frames stop (deltas idle reads), ¬ due.value.IsDone := by
  obtain ⟨failure, -, hone⟩ :=
    Intake.lastBrought_of_not_completesFirst (stopOf idle reads) h
  obtain ⟨before, time, hframes, hbefore⟩ := Encoder.frames_of_lastBrought stop encoder hone
  have hbody := Outgoing.body_isError failure
  rw [hframes]
  refine ⟨⟨before, _, rfl, hbody.1, fun due hdue => (hbefore due hdue).2⟩, ?_⟩
  intro due hdue
  rcases List.mem_append.1 hdue with hmem | hmem
  · exact (hbefore due hmem).1
  · rw [List.mem_singleton.1 hmem]
    exact hbody.2

/-- A stream that breaks off has no closing frame. -/
theorem frames_of_breaksOff (stop : Nat) (encoder : Encoder)
    (h : BreaksOff (framesOf (arrived idle reads))) :
    ∀ due ∈ encoder.frames stop (deltas idle reads), ¬ due.value.IsDone ∧ ¬ due.value.IsError :=
  fun due hdue => Outgoing.neither_of_plain
    (encoder.frames_of_open stop (Intake.deltas_of_breaksOff h) due hdue)

end Frames

/--
A body, whatever its bytes and however it stops, brings exactly one terminal delta, and
brings it last, unless a frame completes the message before anything fails while the
counts that were reported last have no total: then the stream breaks off, without a
terminal delta and without a closing frame.  The terminal delta is `done` exactly if a
frame completes the message first and the counts have a total.  The caller's stream ends
accordingly with the only `[DONE]` and no error, or with the only error and no `[DONE]`.
Once a frame has closed the stream, other bytes after it, in the same chunk or later, and
another stop leave the deltas and the frames as they are, and with the reads before it
unchanged also the comments and all times.
-/
theorem one_terminal_unless_breaks_off (idle stop : Nat) (encoder : Encoder)
    (reads : List (Nat × Read)) :
    (EndsWithOnly (fun due => due.value.isTerminal = true) (deltas idle reads) ↔
      ¬ BreaksOff (framesOf (arrived idle reads))) ∧
    ((∃ due ∈ deltas idle reads, ∃ usage, due.value = .done usage) ↔
      CompletesFirst (framesOf (arrived idle reads)) ∧
        HasTotal (opening (framesOf (arrived idle reads)))) ∧
    (CompletesFirst (framesOf (arrived idle reads)) →
      HasTotal (opening (framesOf (arrived idle reads))) →
      EndsWithOnly (fun due => due.value.IsDone) (encoder.frames stop (deltas idle reads)) ∧
      ∀ due ∈ encoder.frames stop (deltas idle reads), ¬ due.value.IsError) ∧
    (¬ CompletesFirst (framesOf (arrived idle reads)) →
      EndsWithOnly (fun due => due.value.IsError) (encoder.frames stop (deltas idle reads)) ∧
      ∀ due ∈ encoder.frames stop (deltas idle reads), ¬ due.value.IsDone) ∧
    (BreaksOff (framesOf (arrived idle reads)) →
      (∀ due ∈ deltas idle reads, due.value.isTerminal = false) ∧
      ∀ due ∈ encoder.frames stop (deltas idle reads),
        ¬ due.value.IsDone ∧ ¬ due.value.IsError) ∧
    (∀ (head : List UInt8) (other : List (Nat × Read)),
      head <+: arrived idle reads → head <+: arrived idle other →
      closing? (framesOf head) ≠ none →
      (deltas idle other).map Timed.value = (deltas idle reads).map Timed.value ∧
      Encoder.withoutComments (encoder.frames stop (deltas idle other)) =
        Encoder.withoutComments (encoder.frames stop (deltas idle reads))) ∧
    (∀ (seen rest rest' : List (Nat × Read)) (delay : Nat) (head tail tail' : List UInt8),
      reads = seen ++ (delay, .chunk (head ++ tail)) :: rest →
      closing? (framesOf (arrived idle (seen ++ [(delay, .chunk head)]))) ≠ none →
      deltas idle (seen ++ (delay, .chunk (head ++ tail')) :: rest') = deltas idle reads ∧
      encoder.framesOfReads idle (seen ++ (delay, .chunk (head ++ tail')) :: rest') =
        encoder.framesOfReads idle reads) := by
  refine ⟨⟨?_, deltas_endsWithOnly⟩, exists_done_iff idle reads,
    frames_of_completesFirst stop encoder, frames_of_not_completesFirst stop encoder,
    fun h => ⟨Intake.deltas_of_breaksOff h, frames_of_breaksOff stop encoder h⟩, ?_, ?_⟩
  · rintro ⟨init, last, hsplit, hlast, -⟩ hbreaks
    have hopen := Intake.deltas_of_breaksOff hbreaks last (by simp [hsplit])
    rw [hlast] at hopen
    cases hopen
  · rintro head other ⟨tail, htail⟩ ⟨tail', htail'⟩ hclosing
    have hsame : (deltas idle other).map Timed.value = (deltas idle reads).map Timed.value := by
      rw [Intake.deltas_eq_translation, Intake.deltas_eq_translation, ← htail, ← htail',
        Intake.translation_of_closing _ .silent hclosing,
        Intake.translation_of_closing _ .silent hclosing]
    refine ⟨hsame, ?_⟩
    rw [Encoder.withoutComments_frames, Encoder.withoutComments_frames, hsame]
  · rintro seen rest rest' delay head tail tail' rfl hclosing
    obtain ⟨hsame, hends⟩ := Intake.deltasFrom_of_ended 0 Intake.initial_settled tail tail' rest
      rest' (Intake.step_initial_of_closing hclosing)
    refine ⟨hsame, ?_⟩
    rw [Encoder.framesOfReads, Encoder.framesOfReads, Intake.ending, Intake.ending, hends]
    exact congrArg (encoder.frames _) hsame

/-- A complete message, then a block that is no text: the stream is done at the former. -/
theorem one_terminal_unless_breaks_off_before_garbage :
    let stopFrame := Text.bytes "data: \x7b\"type\":\"message_stop\"\x7d\r\n\r\n"
    let encoder : Encoder := ⟨"chatcmpl-1", 0, "m", true⟩
    let reads : List (Nat × Read) := [(4, .chunk (stopFrame ++ [0xFF, 0x0A, 0x0A])), (0, .closed)]
    CompletesFirst (framesOf (arrived 9 reads)) ∧
    EndsWithOnly (fun due => due.value.IsDone) (encoder.frames 0 (deltas 9 reads)) ∧
    encoder.framesOfReads 9 [(4, .chunk (stopFrame ++ [0x64])), (0, .failed "reset")] =
      encoder.framesOfReads 9 reads := by
  intro stopFrame encoder reads
  have hframes (bytes : List UInt8) : framesOf bytes = (Decoder.mk bytes).drain.1 := by
    rw [Decoder.drain_eq]
  have hcompletes : CompletesFirst (framesOf (arrived 9 reads)) := by
    rw [completesFirst_iff, hframes]
    decide +kernel
  have htotal : HasTotal (opening (framesOf (arrived 9 reads))) := by
    rw [hframes]
    decide +kernel
  have hclosing : closing? (framesOf (arrived 9 ([] ++ [(4, .chunk stopFrame)]))) ≠ none := by
    rw [hframes]
    decide +kernel
  obtain ⟨_, _, hdone, _, _, _, hreplaced⟩ := one_terminal_unless_breaks_off 9 0 encoder reads
  exact ⟨hcompletes, (hdone hcompletes htotal).1,
    (hreplaced [] [(0, .closed)] [(0, .failed "reset")] 4 stopFrame [0xFF, 0x0A, 0x0A] [0x64]
      rfl hclosing).2⟩

/-- A body that completes a message whose counts add up to one more than 32 bits hold. -/
def overflowing : List UInt8 := Text.bytes (
  "data: \x7b\"type\":\"message_start\",\"message\":\x7b\"id\":\"m\"," ++
    "\"usage\":\x7b\"input_tokens\":4294967295,\"output_tokens\":1\x7d\x7d\x7d\n\n" ++
  "data: \x7b\"type\":\"message_stop\"\x7d\n\n")

/-- The message is complete, but there is no terminal delta and no closing frame. -/
theorem no_terminal_without_total :
    let encoder : Encoder := ⟨"chatcmpl-1", 0, "m", true⟩
    let reads : List (Nat × Read) := [(0, .chunk overflowing), (0, .closed)]
    CompletesFirst (framesOf (arrived 9 reads)) ∧
    (deltas 9 reads).map Timed.value = [.start "m"] ∧
    ¬ EndsWithOnly (fun due => due.value.isTerminal = true) (deltas 9 reads) ∧
    ¬ EndsWithOnly (fun due => due.value.IsDone) (encoder.framesOfReads 9 reads) ∧
    ¬ EndsWithOnly (fun due => due.value.IsError) (encoder.framesOfReads 9 reads) := by
  intro encoder reads
  have hframes : framesOf (arrived 9 reads) = (Decoder.mk (arrived 9 reads)).drain.1 := by
    rw [Decoder.drain_eq]
  have hbreaks : BreaksOff (framesOf (arrived 9 reads)) := by
    rw [BreaksOff, completesFirst_iff, hframes]
    decide +kernel
  have hdeltas := Intake.deltas_of_breaksOff hbreaks
  have hneither := frames_of_breaksOff (Intake.ending 9 reads) encoder hbreaks
  refine ⟨hbreaks.1, by decide +kernel, ?_, ?_, ?_⟩
  · rintro ⟨init, last, hsplit, hlast, -⟩
    have hopen := hdeltas last (by simp [hsplit])
    rw [hlast] at hopen
    cases hopen
  · rintro ⟨init, last, hsplit, hlast, -⟩
    rw [Encoder.framesOfReads] at hsplit
    exact (hneither last (by simp [hsplit])).1 hlast
  · rintro ⟨init, last, hsplit, hlast, -⟩
    rw [Encoder.framesOfReads] at hsplit
    exact (hneither last (by simp [hsplit])).2 hlast

end Stream

end ChatGateway
