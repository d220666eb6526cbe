import ChatGateway.Proofs.Chunks

/-!
# Why a message ends

A caller is told why the message ended by each event that changes the message as a whole, by what
that event itself reports.  So one reason is told, and told last, exactly if one such event comes
and no more of the message comes after it.
-/

namespace ChatGateway

namespace Stream

open Chat (FinishReason)

/-- What a chunk tells of the message: that here is more of it, or why it ended. -/
inductive Told where
  | more
  | finished (reason : String)
  deriving DecidableEq, Repr

/-- The head of a message tells neither. -/
def Change.told? (change : Change) : Option Told :=
  match change.finish with
  | some reason => some (.finished reason)
  | none => if change.role.isSome then none else some .more

def Chunk.told (chunk : Chunk) : List Told :=
  chunk.choices.filterMap Change.told?

/-- What the chunk of an event tells. -/
def Event.told? : Event -> Option Told
  | .blockStart _ block => if block.kind = "tool_use" then some .more else none
  | .blockDelta _ _ => some .more
  | .messageDelta stopReason _ => some (.finished (FinishReason.ofStopReason stopReason).name)
  | _ => none

/-- The stop reason that an event reports. -/
def Event.stopReason? : Event -> Option String
  | .messageDelta stopReason _ => stopReason
  | _ => none

/-- The last stop reason that is reported, if one is. -/
def lastReported (events : List Event) : Option String :=
  (events.filterMap Event.stopReason?).getLast?

def Received.chunk? : Received -> Option Chunk
  | .chunk held => some held
  | _ => none

/-- The chunks that the caller reads off the frames of timed deltas. -/
def Encoder.chunks (encoder : Encoder) (stop : Nat) (deltas : List (Timed Delta)) : List Chunk :=
  (withoutComments (encoder.frames stop deltas)).filterMap fun frame =>
    (Received.ofText frame.render).bind Received.chunk?

/-- This reason alone is told, and nothing of the message after it. -/
def FinishesWith (told : List Told) (reason : String) : Prop :=
  ∃ count, told = List.replicate count .more ++ [.finished reason]

/-- One event alone changes the message as a whole, and nothing of the message comes after it. -/
def FinishesLast (events : List Event) : Prop :=
  ∃ before stopReason tokens after, events = before ++ .messageDelta stopReason tokens :: after ∧
    (∀ event ∈ before, event.told? = none ∨ event.told? = some .more) ∧
    ∀ event ∈ after, event.told? = none

/-! ## What the chunks tell -/

theorem Shows.told? {event : Event} {change : Change} (h : Shows event change) :
    change.told? = event.told? := by
  cases h with
  | toolUse index call block hkind => simp [Change.told?, Event.told?, hkind]
  | _ => rfl

theorem Event.isShown_of_told? {event : Event} {told : Told} (h : event.told? = some told) :
    event.isShown = true := by
  cases event <;> simp_all [Event.told?, Event.isShown]

theorem Encoder.ChunkShows.told {encoder : Encoder} {event : Event} {chunk : Chunk}
    (h : encoder.ChunkShows event chunk) : chunk.told = event.told?.toList := by
  obtain ⟨change, hshows, hchoices, -⟩ := h
  rw [Chunk.told, hchoices, ← hshows.told?]
  cases hchange : change.told? <;> simp [hchange]

/-- The chunks of the events with content tell what the events tell. -/
theorem told_of_shows {encoder : Encoder} {events : List Event} {chunks : List Chunk}
    (h : List.Forall₂ encoder.ChunkShows (events.filter Event.isShown) chunks) :
    chunks.flatMap Chunk.told = events.filterMap Event.told? := by
  have hshown : ∀ {shown : List Event} {chunks : List Chunk},
      List.Forall₂ encoder.ChunkShows shown chunks →
        chunks.flatMap Chunk.told = shown.filterMap Event.told? := by
    intro shown chunks h
    induction h with
    | nil => rfl
    | @cons event chunk _ _ hfirst _ ih =>
        rw [List.flatMap_cons, hfirst.told, ih]
        cases htold : event.told? <;> simp [htold]
  rw [hshown h, List.filterMap_filter]
  congr
  funext event
  cases hevent : event.isShown with
  | true => rfl
  | false =>
      cases htold : event.told? with
      | none => rfl
      | some told => simp [Event.isShown_of_told? htold] at hevent

/-- What closes a stream tells nothing of the message. -/
theorem Encoder.told_lastReceived (encoder : Encoder) (last : Option Delta) :
    ((last.elim [] encoder.lastReceived).filterMap Received.chunk?).flatMap Chunk.told = [] := by
  cases last with
  | none => rfl
  | some delta =>
      cases delta with
      | done usage =>
          simp only [Option.elim_some, lastReceived]
          cases encoder.includeUsage <;> rfl
      | _ => rfl

theorem Encoder.chunks_eq (encoder : Encoder) (stop : Nat) (deltas : List (Timed Delta)) :
    encoder.chunks stop deltas =
      (encoder.received (deltas.map Timed.value)).filterMap Received.chunk? := by
  have hread := encoder.ofText_written (deltas.map Timed.value)
  rw [← withoutComments_frames encoder stop] at hread
  calc
    encoder.chunks stop deltas =
        ((withoutComments (encoder.frames stop deltas)).map
          fun frame => Received.ofText frame.render).filterMap (·.bind Received.chunk?) := by
      rw [List.filterMap_map]
      rfl
    _ = (encoder.received (deltas.map Timed.value)).filterMap Received.chunk? := by
      rw [hread, List.filterMap_map]
      rfl

open Intake (deltas)

/-- The chunks of a body tell what its events tell, in their order. -/
theorem told_chunks (idle stop : Nat) (encoder : Encoder) (reads : List (Nat × Read)) :
    (encoder.chunks stop (deltas idle reads)).flatMap Chunk.told =
      (opening (framesOf (arrived idle reads))).filterMap Event.told? := by
  have hgoes : ∀ event ∈ opening (framesOf (arrived idle reads)), event.GoesOn :=
    fun event hevent => goesOn_of_mem_opening hevent
  obtain ⟨chunks, after, hreceived, -, hshows⟩ := Encoder.received_run encoder
    Progress.initial
    (Intake.isTerminal_of_mem_lastBrought (arrived idle reads) (stopOf idle reads)) hgoes
  have hchunks : (chunks.map Received.chunk).filterMap Received.chunk? = chunks := by
    rw [List.filterMap_map]
    exact List.filterMap_some
  rw [Encoder.chunks_eq, Intake.deltas_eq_translation, Intake.translation_eq_lastBrought, hreceived,
    List.filterMap_append, List.flatMap_append, Encoder.told_lastReceived, List.append_nil,
    hchunks, told_of_shows hshows]

/-! ## One reason, told last -/

theorem Event.told?_eq_finished {event : Event} {reason : String} :
    event.told? = some (.finished reason) ↔ ∃ stopReason tokens,
      event = .messageDelta stopReason tokens ∧
        reason = (FinishReason.ofStopReason stopReason).name := by
  cases event with
  | messageDelta stopReason tokens => simp [Event.told?, eq_comm]
  | blockStart index block => by_cases hkind : block.kind = "tool_use" <;> simp [Event.told?, hkind]
  | _ => simp [Event.told?]

theorem Event.stopReason?_eq_none {event : Event}
    (h : event.told? = none ∨ event.told? = some .more) : event.stopReason? = none := by
  cases event <;> simp_all [Event.told?, Event.stopReason?]

theorem lastReported_of_last {before after : List Event} {stopReason : Option String}
    {tokens : Option TokenReport}
    (hbefore : ∀ event ∈ before, event.told? = none ∨ event.told? = some .more)
    (hafter : ∀ event ∈ after, event.told? = none) :
    lastReported (before ++ .messageDelta stopReason tokens :: after) = stopReason := by
  have hfront : before.filterMap Event.stopReason? = [] :=
    List.filterMap_eq_nil_iff.2 fun event hevent =>
      Event.stopReason?_eq_none (hbefore event hevent)
  have hback : after.filterMap Event.stopReason? = [] :=
    List.filterMap_eq_nil_iff.2 fun event hevent =>
      Event.stopReason?_eq_none (.inl (hafter event hevent))
  rw [lastReported, List.filterMap_append, hfront, List.nil_append, List.filterMap_cons, hback]
  cases stopReason <;> rfl

/-- What the events tell is one reason and nothing after it exactly if one event does that last. -/
theorem finishesWith_iff {events : List Event} {reason : String} :
    FinishesWith (events.filterMap Event.told?) reason ↔
      FinishesLast events ∧
        reason = (FinishReason.ofStopReason (lastReported events)).name := by
  constructor
  · rintro ⟨count, htold⟩
    obtain ⟨front, back, rfl, hfront, hback⟩ := List.filterMap_eq_append_iff.1 htold
    obtain ⟨quiet, event, after, rfl, hquiet, hevent, hafter⟩ := List.filterMap_eq_cons_iff.1 hback
    obtain ⟨stopReason, tokens, rfl, rfl⟩ := Event.told?_eq_finished.1 hevent
    have hafter := List.filterMap_eq_nil_iff.1 hafter
    have hbefore : ∀ event ∈ front ++ quiet, event.told? = none ∨ event.told? = some .more := by
      intro event hmem
      rcases List.mem_append.1 hmem with hmem | hmem
      · cases htold : event.told? with
        | none => exact .inl rfl
        | some told =>
            have hfound : told ∈ front.filterMap Event.told? :=
              List.mem_filterMap.2 ⟨event, hmem, htold⟩
            rw [hfront] at hfound
            exact .inr (congrArg some (List.eq_of_mem_replicate hfound))
      · exact .inl (hquiet event hmem)
    rw [← List.append_assoc]
    exact ⟨⟨_, stopReason, tokens, after, rfl, hbefore, hafter⟩,
      by rw [lastReported_of_last hbefore hafter]⟩
  · rintro ⟨⟨before, stopReason, tokens, after, rfl, hbefore, hafter⟩, rfl⟩
    rw [lastReported_of_last hbefore hafter]
    have hmore : ∀ told ∈ before.filterMap Event.told?, told = .more := by
      intro told hmem
      obtain ⟨event, hevent, htold⟩ := List.mem_filterMap.1 hmem
      rcases hbefore event hevent with hnone | hmore
      · rw [hnone] at htold
        cases htold
      · rw [hmore] at htold
        exact (Option.some.inj htold).symm
    refine ⟨(before.filterMap Event.told?).length, ?_⟩
    rw [List.filterMap_append, List.filterMap_cons, List.filterMap_eq_nil_iff.2 hafter,
      ← List.eq_replicate_of_mem hmore]
    rfl

/--
In the chunks that the caller reads, of any body, each event that changes the message as a whole
brings one with a finish reason, for what that event itself reports, in the order of the events.
So there is one reason alone, with nothing of the message after it, exactly if one such event
comes after all else of the message; it is then that of the last stop reason reported.
-/
theorem finish_reasons_of_events (idle stop : Nat) (encoder : Encoder)
    (reads : List (Nat × Read)) :
    let events := opening (framesOf (arrived idle reads))
    let told := (encoder.chunks stop (deltas idle reads)).flatMap Chunk.told
    told = events.filterMap Event.told? ∧
    ∀ reason, FinishesWith told reason ↔ FinishesLast events ∧
      reason = (FinishReason.ofStopReason (lastReported events)).name := by
  intro events told
  have htold : told = events.filterMap Event.told? := told_chunks idle stop encoder reads
  refine ⟨htold, fun reason => ?_⟩
  rw [htold]
  exact finishesWith_iff

/-- The data of frames: a message is cut short, then tokens alone are reported, then it ends. -/
def cutShortTwice : List String := [
  "\x7b\"type\":\"message_delta\",\"delta\":\x7b\"stop_reason\":\"max_tokens\"\x7d\x7d",
  "\x7b\"type\":\"message_delta\",\"usage\":\x7b\"output_tokens\":2\x7d\x7d",
  "\x7b\"type\":\"message_stop\"\x7d"]

/-- Each frame comes in a read of its own. -/
def cutShortReads : List (Nat × Read) :=
  cutShortTwice.map fun data => (0, .chunk (Text.bytes ("data:" ++ data ++ "\n\n")))

/-- The caller is told two reasons, and the last one is not the one that was reported. -/
theorem finish_reason_told_twice :
    let encoder : Encoder := ⟨"chatcmpl-1", 0, "m", false⟩
    let told := (encoder.chunks 0 (deltas 9 cutShortReads)).flatMap Chunk.told
    CompletesFirst (framesOf (arrived 9 cutShortReads)) ∧
    lastReported (opening (framesOf (arrived 9 cutShortReads))) = some "max_tokens" ∧
    told = [.finished "length", .finished "stop"] ∧
    ∀ reason, ¬ FinishesWith told reason := by
  intro encoder told
  have hframes : framesOf (arrived 9 cutShortReads) =
      cutShortTwice.map fun data => .ok ⟨none, data⟩ := by
    have hdrain : (Decoder.mk (arrived 9 cutShortReads)).drain.1 =
        cutShortTwice.map fun data => .ok ⟨none, data⟩ := by
      decide +kernel
    rwa [Decoder.drain_eq] at hdrain
  have hevents : opening (framesOf (arrived 9 cutShortReads)) =
      [.messageDelta (some "max_tokens") none, .messageDelta none (some ⟨none, some 2⟩)] := by
    rw [hframes]
    decide +kernel
  have hcompletes : CompletesFirst (framesOf (arrived 9 cutShortReads)) := by
    rw [completesFirst_iff, hframes]
    decide +kernel
  have htold : told = [.finished "length", .finished "stop"] := by
    show (encoder.chunks 0 (deltas 9 cutShortReads)).flatMap Chunk.told = _
    rw [told_chunks, hevents]
    rfl
  refine ⟨hcompletes, by rw [hevents]; rfl, htold, ?_⟩
  rintro reason ⟨count, hfinishes⟩
  rw [htold] at hfinishes
  cases count with
  | zero => simp at hfinishes
  | succ count => simp [List.replicate_succ] at hfinishes

end Stream

end ChatGateway
