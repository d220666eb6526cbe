import ChatGateway.Proofs.JsonLine
import ChatGateway.Proofs.Lines
import ChatGateway.Proofs.Rendering
import Mathlib.Data.List.Forall2

/-!
# Decoding what the encoder wrote

Every frame that the encoder writes is one line and a blank line, so nothing inside a text
can end it early.  A decoder that is given the bytes of a stream finds the frames that were
written, in their order, and is left with nothing.
-/

namespace ChatGateway

namespace Stream

theorem remainder_line {line : List Char} (rest : List UInt8) (h : '\n' ∉ line) :
    remainder (lineBlock line ++ rest) = remainder rest := by
  have hsplit := splitBlock_line rest (feed_not_mem_encode h)
  rw [lineBlock, remainder, blocks_of_some hsplit]
  rfl

namespace Outgoing

/-- What a frame says to the caller; a comment says nothing. -/
def data? : Outgoing -> Option String
  | .keepAlive => none
  | .data body => some body.render
  | .done => some "[DONE]"

theorem render_of_data? {frame : Outgoing} {data : String} (h : frame.data? = some data) :
    frame.render = "data: " ++ data ++ "\n\n" := by
  cases frame with
  | keepAlive => cases h
  | data body =>
      cases h
      rfl
  | done =>
      cases h
      rfl

theorem data?_eq_none {frame : Outgoing} : frame.data? = none ↔ frame.isComment = true := by
  cases frame <;> simp [data?, isComment]

/-- The mark of a complete stream is the only frame that says `[DONE]`. -/
theorem data?_eq_done {frame : Outgoing} : frame.data? = some "[DONE]" ↔ frame.IsDone := by
  constructor
  · intro h
    exact render_of_data? h
  · intro h
    cases frame with
    | keepAlive => exact absurd h keepAlive_neither.1
    | done => rfl
    -- A text of JSON could be `[DONE]` as far as its type goes; then the frame is the mark.
    | data body =>
        have hchars := congrArg String.toList h
        have hmark : "data: [DONE]\n\n".toList =
            "data: ".toList ++ "[DONE]".toList ++ "\n\n".toList := by decide
        rw [toList_render_data, hmark] at hchars
        have hbody : body.write = "[DONE]".toList :=
          List.append_cancel_left (List.append_cancel_right hchars)
        rw [data?, Json.render, hbody, String.ofList_toList]

theorem onOneLine_data? {frame : Outgoing} {data : String} (h : frame.data? = some data) :
    OnOneLine data.toList := by
  cases frame with
  | keepAlive => cases h
  | data body =>
      cases h
      rw [Json.render, String.toList_ofList]
      exact Json.onOneLine_write body
  | done =>
      cases h
      decide

theorem bytes_render_of_data? {frame : Outgoing} {data : String} (h : frame.data? = some data) :
    Text.bytes frame.render = lineBlock ("data: ".toList ++ data.toList) := by
  have hblank : Text.Utf8.encode "\n\n".toList = [0x0A, 0x0A] := by decide
  rw [render_of_data? h, Text.bytes, lineBlock, String.toList_append, String.toList_append,
    Text.Utf8.encode_append, hblank]

theorem bytes_render_keepAlive :
    Text.bytes Outgoing.keepAlive.render = lineBlock (':' :: " keep-alive".toList) := by
  decide

/-- The bytes of one frame at the front: what it says is decoded, and the rest goes on. -/
theorem framesOf_render (frame : Outgoing) (rest : List UInt8) :
    framesOf (Text.bytes frame.render ++ rest) =
      (frame.data?.map fun data => .ok ⟨none, data⟩).toList ++ framesOf rest ∧
    remainder (Text.bytes frame.render ++ rest) = remainder rest := by
  cases hdata : frame.data? with
  | none =>
      have hcomment : frame = .keepAlive := by
        cases frame with
        | keepAlive => rfl
        | _ => cases hdata
      have hfeed : '\n' ∉ " keep-alive".toList := by decide
      rw [hcomment, bytes_render_keepAlive]
      exact ⟨framesOf_comment rest hfeed, remainder_line rest (by decide)⟩
  | some data =>
      have hfeed : '\n' ∉ data.toList := (onOneLine_data? hdata).not_mem (by decide)
      have hline : '\n' ∉ "data: ".toList ++ data.toList := by
        simp [hfeed]
      rw [bytes_render_of_data? hdata]
      refine ⟨?_, remainder_line rest hline⟩
      rw [framesOf_data rest hfeed, String.ofList_toList]
      rfl

/-- The bytes of frames one after another. -/
def bytesOf (frames : List Outgoing) : List UInt8 :=
  frames.flatMap fun frame => Text.bytes frame.render

theorem decode_bytesOf (frames : List Outgoing) :
    framesOf (bytesOf frames) =
      (frames.filterMap data?).map (fun data => .ok ⟨none, data⟩) ∧
    remainder (bytesOf frames) = [] := by
  induction frames with
  | nil => exact ⟨framesOf_nil, remainder_nil⟩
  | cons frame rest ih =>
      obtain ⟨hframes, hremainder⟩ := framesOf_render frame (bytesOf rest)
      obtain ⟨ihframes, ihremainder⟩ := ih
      have hcons : bytesOf (frame :: rest) = Text.bytes frame.render ++ bytesOf rest := rfl
      rw [hcons]
      refine ⟨?_, hremainder.trans ihremainder⟩
      rw [hframes, ihframes]
      cases hdata : frame.data? with
      | none => simp [hdata]
      | some data => simp [hdata]

/-- The item is the frame as it was written. -/
def ReadAs (frame : Outgoing) (item : Except Failure Frame) : Prop :=
  ∃ data, frame.data? = some data ∧ item = .ok ⟨none, data⟩

theorem forall₂_readAs (frames : List Outgoing) :
    List.Forall₂ ReadAs (frames.filter fun frame => !frame.isComment)
      ((frames.filterMap data?).map fun data => .ok ⟨none, data⟩) := by
  induction frames with
  | nil => exact .nil
  | cons frame rest ih =>
      cases hdata : frame.data? with
      | none =>
          have hcomment : frame.isComment = true := data?_eq_none.1 hdata
          simpa [hcomment, hdata] using ih
      | some data =>
          have hcomment : frame.isComment = false := by
            rw [← Bool.not_eq_true, ← data?_eq_none, hdata]
            simp
          simpa [hcomment, hdata] using List.Forall₂.cons ⟨data, hdata, rfl⟩ ih

end Outgoing

namespace Encoder

open Outgoing (data? bytesOf)

/-- The stream says that it is complete exactly if its first terminal delta does. -/
theorem exists_isDone_written (encoder : Encoder) (deltas : List Delta) :
    (∃ frame ∈ encoder.written deltas, frame.IsDone) ↔
      ∃ usage, deltas.find? Delta.isTerminal = some (.done usage) := by
  induction deltas generalizing encoder with
  | nil =>
      simp [written]
  | cons delta rest ih =>
      cases hterminal : delta.isTerminal with
      | false =>
          have hopen := step_of_open encoder hterminal
          rw [List.find?_cons_of_neg (by simp [hterminal]), ← ih (encoder.step delta).1]
          simp only [written, hterminal, Bool.false_eq_true, if_false, List.mem_append]
          constructor
          · rintro ⟨frame, hfirst | hrest, hdone⟩
            · exact absurd hdone (hopen frame hfirst).neither.1
            · exact ⟨frame, hrest, hdone⟩
          · rintro ⟨frame, hrest, hdone⟩
            exact ⟨frame, Or.inr hrest, hdone⟩
      | true =>
          obtain ⟨before, hstep, hbefore⟩ := step_of_terminal encoder hterminal
          rw [List.find?_cons_of_pos hterminal]
          simp only [written, hterminal, if_true, List.append_nil, hstep, List.mem_append,
            List.mem_singleton, Option.some.injEq]
          constructor
          · rintro ⟨frame, hchunk | rfl, hdone⟩
            · exact absurd hdone (hbefore frame hchunk).neither.1
            · cases delta with
              | done usage => exact ⟨usage, rfl⟩
              | failed failure => exact absurd hdone (Outgoing.body_isError failure).2
              | _ => cases hterminal
          · rintro ⟨usage, rfl⟩
            exact ⟨_, Or.inr rfl, Outgoing.done_isDone.1⟩

theorem values_withoutComments (frames : List (Timed Outgoing)) :
    withoutComments frames = (frames.map Timed.value).filter fun frame => !frame.isComment := by
  rw [withoutComments, List.filter_map]
  rfl

/--
A decoder that is given all bytes of a stream, whatever deltas with whatever texts the
stream was written from, finds one frame for every frame that is no comment, in their
order, without a name and with the very data that was written.  It finds no failure, and
nothing is left in it.  It finds `[DONE]` exactly if the first terminal delta completes the
message.
-/
theorem drain_written (encoder : Encoder) (stop : Nat) (deltas : List (Timed Delta)) :
    let frames := encoder.frames stop deltas
    let found := (Decoder.empty.push (bytesOf (frames.map Timed.value))).drain
    List.Forall₂ Outgoing.ReadAs (withoutComments frames) found.1 ∧
    found.2 = .empty ∧
    (.ok ⟨none, "[DONE]"⟩ ∈ found.1 ↔
      ∃ usage, (deltas.map Timed.value).find? Delta.isTerminal = some (.done usage)) := by
  intro frames found
  obtain ⟨hframes, hremainder⟩ := Outgoing.decode_bytesOf (frames.map Timed.value)
  have hfound : found =
      (((frames.map Timed.value).filterMap data?).map fun data => .ok ⟨none, data⟩, .empty) := by
    show (Decoder.empty.push (bytesOf (frames.map Timed.value))).drain = _
    rw [Decoder.drain_eq]
    simp only [Decoder.empty, Decoder.push, List.nil_append, hframes, hremainder]
  rw [hfound]
  refine ⟨?_, rfl, ?_⟩
  · rw [values_withoutComments]
    exact Outgoing.forall₂_readAs _
  · rw [← exists_isDone_written encoder, ← withoutComments_frames encoder stop,
      values_withoutComments]
    simp only [List.mem_map, List.mem_filterMap, List.mem_filter]
    constructor
    · rintro ⟨data, ⟨frame, hframe, hdata⟩, hitem⟩
      cases hitem
      have hdone : frame.IsDone := Outgoing.data?_eq_done.1 hdata
      refine ⟨frame, ⟨hframe, ?_⟩, hdone⟩
      cases frame with
      | keepAlive => cases hdata
      | _ => rfl
    · rintro ⟨frame, ⟨hframe, _⟩, hdone⟩
      exact ⟨"[DONE]", ⟨frame, hframe, Outgoing.data?_eq_done.2 hdone⟩, rfl⟩

end Encoder

end Stream

end ChatGateway
