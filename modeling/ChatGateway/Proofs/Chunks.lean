import ChatGateway.Proofs.Caller
import ChatGateway.Proofs.Terminal
import Mathlib.Data.List.Forall2

/-!
# The chunks of a body's events

The caller gets one chunk for every event with content, in the order of the events, and
nothing else before the closing frames.
-/

namespace ChatGateway

namespace Stream

/-- The event has content for the caller. -/
def Event.isShown : Event -> Bool
  | .messageStart _ _ => true
  | .blockStart _ block => block.kind = "tool_use"
  | .blockDelta _ _ => true
  | .messageDelta _ _ => true
  | _ => false

/-- The change that the chunk of an event makes; a call may have any number. -/
inductive Shows : Event -> Change -> Prop
  | start (id : String) (tokens : Option TokenReport) :
      Shows (.messageStart id tokens) { role := some "assistant", content := some "" }
  | toolUse (index call : UInt32) (block : BlockStart) (h : block.kind = "tool_use") :
      Shows (.blockStart index block)
        { calls := [⟨call, some (block.id.getD ""), some (block.name.getD ""), ""⟩] }
  | text (index : UInt32) (piece : String) :
      Shows (.blockDelta index (.text piece)) { content := some piece }
  | thinking (index : UInt32) (piece : String) :
      Shows (.blockDelta index (.thinking piece)) { reasoning := some piece }
  | inputJson (index call : UInt32) (piece : String) :
      Shows (.blockDelta index (.inputJson piece)) { calls := [⟨call, none, none, piece⟩] }
  | other (index : UInt32) : Shows (.blockDelta index .other) {}
  | finish (stopReason : Option String) (tokens : Option TokenReport) :
      Shows (.messageDelta stopReason tokens)
        { finish := some (Chat.FinishReason.ofStopReason stopReason).name }

/-- The event neither completes the message nor reports an error. -/
def Event.GoesOn (event : Event) : Prop :=
  event ≠ .messageStop ∧ ∀ report, event ≠ .error report

theorem goesOn_of_meaning {item : Except Failure Frame} {event : Event}
    (h : meaning item = .ok event) : event.GoesOn := by
  obtain ⟨frame, rfl, hread, hreport⟩ := meaning_eq_ok h
  refine ⟨?_, hreport⟩
  rintro rfl
  simp [meaning, hread] at h

theorem goesOn_of_mem_opening {items : List (Except Failure Frame)} {event : Event}
    (h : event ∈ opening items) : event.GoesOn := by
  induction items with
  | nil =>
      simp [opening] at h
  | cons item rest ih =>
      simp only [opening] at h
      cases hmeaning : meaning item with
      | error closing => simp [hmeaning] at h
      | ok first =>
          rw [hmeaning] at h
          rcases List.mem_cons.1 h with rfl | hrest
          · exact goesOn_of_meaning hmeaning
          · exact ih hrest

namespace Progress

/-- An event with content brings one delta, and that one's chunk shows it. -/
theorem step_of_isShown {event : Event} (progress : Progress) (h : event.isShown = true) :
    ∃ delta change, (progress.step event).2 = .one delta ∧ delta.change? = some change ∧
      Shows event change := by
  cases event with
  | messageStart id tokens => exact ⟨_, _, rfl, rfl, .start id tokens⟩
  | blockStart index block =>
      have hkind : block.kind = "tool_use" := by simpa [Event.isShown] using h
      have hstep : (progress.step (.blockStart index block)).2 =
          .one (.toolCall (.ofNat progress.toolCalls.length) (block.id.getD "")
            (block.name.getD "")) := by
        simp only [step, if_pos hkind]
      exact ⟨_, _, hstep, rfl, .toolUse index _ block hkind⟩
  | blockDelta index delta =>
      cases delta with
      | text piece => exact ⟨_, _, rfl, rfl, .text index piece⟩
      | thinking piece => exact ⟨_, _, rfl, rfl, .thinking index piece⟩
      | inputJson piece => exact ⟨_, _, rfl, rfl, .inputJson index _ piece⟩
      | other => exact ⟨_, _, rfl, rfl, .other index⟩
  | messageDelta stopReason tokens => exact ⟨_, _, rfl, rfl, .finish stopReason tokens⟩
  | _ => cases h

/-- An event without content that lets the stream go on brings nothing. -/
theorem step_of_not_isShown {event : Event} (progress : Progress) (h : event.isShown = false)
    (hgoes : event.GoesOn) : (progress.step event).2 = .nothing := by
  cases event with
  | blockStart index block =>
      have hkind : block.kind ≠ "tool_use" := by simpa [Event.isShown] using h
      simp only [step, if_neg hkind]
  | messageStop => exact absurd rfl hgoes.1
  | error report => exact absurd rfl (hgoes.2 report)
  | blockStop => rfl
  | ping => rfl
  | unknown => rfl
  | _ => cases h

end Progress

namespace Encoder

/-- What the caller reads for deltas, up to the terminal one. -/
def received (encoder : Encoder) : List Delta -> List Received
  | [] => []
  | delta :: rest =>
      match delta.change? with
      | some change =>
          .chunk ((encoder.step delta).1.chunkWith change) :: (encoder.step delta).1.received rest
      | none => encoder.lastReceived delta

theorem change?_eq_none {delta : Delta} : delta.change? = none ↔ delta.isTerminal = true := by
  cases delta <;> simp [Delta.change?, Delta.isTerminal]

/-- The caller understands every frame that is no comment. -/
theorem ofText_written (encoder : Encoder) (deltas : List Delta) :
    (encoder.written deltas).map (fun frame => Received.ofText frame.render) =
      (encoder.received deltas).map some := by
  induction deltas generalizing encoder with
  | nil =>
      rfl
  | cons delta rest ih =>
      simp only [written, received, List.map_append]
      cases hchange : delta.change? with
      | none =>
          have hterminal := change?_eq_none.1 hchange
          simp [hterminal, ofText_step_terminal]
      | some change =>
          have hopen : delta.isTerminal = false := by
            rw [← Bool.not_eq_true, ← change?_eq_none, hchange]
            simp
          simp [hopen, ofText_step encoder hchange, ih]

/-- A delta changes nothing of an encoder but the name of the chunks. -/
theorem step_fields (encoder : Encoder) (delta : Delta) :
    (encoder.step delta).1.created = encoder.created ∧
      (encoder.step delta).1.model = encoder.model ∧
      (encoder.step delta).1.includeUsage = encoder.includeUsage := by
  cases delta <;> exact ⟨rfl, rfl, rfl⟩

/-- The chunk has one choice, makes the change of the event and is headed by the encoder. -/
def ChunkShows (encoder : Encoder) (event : Event) (chunk : Chunk) : Prop :=
  ∃ change, Shows event change ∧ chunk.choices = [change] ∧ chunk.usage = none ∧
    chunk.created = encoder.created ∧ chunk.model = encoder.model

/-- The chunks of events, then what a terminal delta brings if one follows. -/
theorem received_run {events : List Event} (encoder : Encoder) (progress : Progress)
    {last : Option Delta} (hlast : ∀ delta ∈ last, delta.isTerminal = true)
    (hgoes : ∀ event ∈ events, event.GoesOn) :
    ∃ (chunks : List Chunk) (after : Encoder),
      encoder.received ((progress.run events).2 ++ last.toList) =
        chunks.map .chunk ++ last.elim [] after.lastReceived ∧
      after.includeUsage = encoder.includeUsage ∧
      List.Forall₂ encoder.ChunkShows (events.filter Event.isShown) chunks := by
  induction events generalizing encoder progress with
  | nil =>
      refine ⟨[], encoder, ?_, rfl, .nil⟩
      cases last with
      | none => rfl
      | some delta => simp [received, change?_eq_none.2 (hlast delta rfl)]
  | cons event rest ih =>
      have hrest : ∀ other ∈ rest, other.GoesOn := fun other hother =>
        hgoes other (List.mem_cons_of_mem _ hother)
      cases hshown : event.isShown with
      | false =>
          have hstep := progress.step_of_not_isShown hshown (hgoes event List.mem_cons_self)
          obtain ⟨chunks, after, hreceived, husage, hchunks⟩ :=
            ih encoder (progress.step event).1 hrest
          refine ⟨chunks, after, ?_, husage, ?_⟩
          · simpa [Progress.run_cons, hstep, Brought.delta?] using hreceived
          · simpa [hshown] using hchunks
      | true =>
          obtain ⟨delta, change, hstep, hchange, hshows⟩ := progress.step_of_isShown hshown
          obtain ⟨hcreated, hmodel, hinclude⟩ := encoder.step_fields delta
          obtain ⟨chunks, after, hreceived, husage, hchunks⟩ :=
            ih (encoder.step delta).1 (progress.step event).1 hrest
          refine ⟨(encoder.step delta).1.chunkWith change :: chunks, after, ?_,
            husage.trans hinclude, ?_⟩
          · simp only [Progress.run_cons, hstep, Brought.delta?, Option.toList_some,
              List.nil_append, List.cons_append, received, hchange, List.map_cons, hreceived]
          · rw [List.filter_cons_of_pos hshown]
            refine .cons ⟨change, hshows, rfl, rfl, hcreated, hmodel⟩ ?_
            refine hchunks.imp ?_
            rintro other chunk ⟨found, hfound, hchoices, hnone, hmade, hnamed⟩
            exact ⟨found, hfound, hchoices, hnone, hmade.trans hcreated, hnamed.trans hmodel⟩

end Encoder

open Intake (deltas lastBrought)

/--
The caller's frames without the comments, whatever the body and however it was cut into
reads: the caller understands every one of them.  First comes one chunk for every event
with content before the closing frame, in the order of the events, and it shows that
event.  Then, if the message is complete and its counts have a total, comes a chunk
without a choice with the usage if the caller asked for it, and `[DONE]`; if they have
none, nothing; and if the message is not complete, the error.
-/
theorem one_chunk_per_event_then_closing (idle stop : Nat) (encoder : Encoder)
    (reads : List (Nat × Read)) :
    ∃ (chunks : List Chunk) (closing : List Received),
      (Encoder.withoutComments (encoder.frames stop (deltas idle reads))).map
          (fun frame => Received.ofText frame.render) =
        (chunks.map Received.chunk ++ closing).map some ∧
      List.Forall₂ encoder.ChunkShows
        ((opening (framesOf (arrived idle reads))).filter Event.isShown) chunks ∧
      (CompletesFirst (framesOf (arrived idle reads)) →
        ∀ htotal : HasTotal (opening (framesOf (arrived idle reads))),
        ∃ last : Chunk, last.choices = [] ∧ last.usage = some (lastUsage _ htotal) ∧
          closing = (if encoder.includeUsage then [.chunk last] else []) ++ [.done]) ∧
      (BreaksOff (framesOf (arrived idle reads)) → closing = []) ∧
      (¬ CompletesFirst (framesOf (arrived idle reads)) →
        ∃ failure, Intake.closingOf (arrived idle reads) (stopOf idle reads) = .failed failure ∧
          closing = [.error failure.body]) := by
  have hgoes : ∀ event ∈ opening (framesOf (arrived idle reads)), event.GoesOn :=
    fun event hevent => goesOn_of_mem_opening hevent
  obtain ⟨chunks, after, hreceived, husage, hchunks⟩ := Encoder.received_run encoder
    Progress.initial
    (Intake.isTerminal_of_mem_lastBrought (arrived idle reads) (stopOf idle reads)) hgoes
  refine ⟨chunks, (lastBrought (arrived idle reads) (stopOf idle reads)).delta?.elim []
    after.lastReceived, ?_, hchunks, ?_, ?_, ?_⟩
  · rw [Encoder.withoutComments_frames, Encoder.ofText_written, Intake.deltas_eq_translation,
      Intake.translation_eq_lastBrought, hreceived]
  · intro hcomplete htotal
    rw [Intake.lastBrought_of_completesFirst _ hcomplete htotal, ← husage]
    exact ⟨after.usageWith _, rfl, rfl, rfl⟩
  · intro hbreaks
    rw [Intake.lastBrought_of_breaksOff hbreaks]
    rfl
  · intro hfails
    obtain ⟨failure, hfailure, hbrought⟩ :=
      Intake.lastBrought_of_not_completesFirst (stopOf idle reads) hfails
    rw [hbrought]
    exact ⟨failure, hfailure, rfl⟩

/-- The message is complete, and the caller gets the chunk of its start and nothing else. -/
theorem no_closing_without_total :
    let encoder : Encoder := ⟨"chatcmpl-1", 7, "alias", true⟩
    let reads : List (Nat × Read) := [(0, .chunk overflowing), (0, .closed)]
    CompletesFirst (framesOf (arrived 9 reads)) ∧
    (Encoder.withoutComments (encoder.framesOfReads 9 reads)).map
        (fun frame => Received.ofText frame.render) =
      [some (.chunk ⟨"chatcmpl-m", 7, "alias",
        [{ role := some "assistant", content := some "" }], none⟩)] := by
  intro encoder reads
  have hframes : framesOf (arrived 9 reads) = (Decoder.mk (arrived 9 reads)).drain.1 := by
    rw [Decoder.drain_eq]
  have hcompletes : CompletesFirst (framesOf (arrived 9 reads)) := by
    rw [completesFirst_iff, hframes]
    decide +kernel
  have hdeltas : (deltas 9 reads).map Timed.value = [.start "m"] := by decide +kernel
  refine ⟨hcompletes, ?_⟩
  rw [Encoder.framesOfReads, Encoder.withoutComments_frames, Encoder.ofText_written, hdeltas]
  rfl

end Stream

end ChatGateway
