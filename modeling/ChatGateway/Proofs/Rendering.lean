import ChatGateway.Stream.Encoder

/-!
# What the encoder writes

Every delta has its frames; comments stand between them and say nothing.  A frame is a
comment, a chunk, the mark of a complete stream or the envelope of a failure, and its
text shows which.
-/

namespace ChatGateway

namespace Stream

namespace Outgoing

def isComment : Outgoing -> Bool
  | .keepAlive => true
  | _ => false

/-- The text says that the stream is complete. -/
def IsDone (frame : Outgoing) : Prop :=
  frame.render = "data: [DONE]\n\n"

/-- The text is the envelope of a failure. -/
def IsError (frame : Outgoing) : Prop :=
  ∃ rest, frame.render = "data: \x7b\"error\":" ++ rest

/-- The frame is a piece of a completion. -/
def IsChunk (frame : Outgoing) : Prop :=
  ∃ (encoder : Encoder) (choices : List Json) (more : List (String × Json)),
    frame = encoder.envelope choices more

theorem toList_render_data (body : Json) :
    (Outgoing.data body).render.toList = "data: ".toList ++ body.write ++ "\n\n".toList := by
  simp [render, Json.render]

/-- An object's text begins with its first name. -/
theorem toList_render_object (name : String) (value : Json) (rest : List (String × Json)) :
    ∃ tail, (Outgoing.data (.object ((name, value) :: rest))).render.toList =
      "data: ".toList ++ '{' :: Json.quote name ++ ':' :: tail := by
  rw [toList_render_data]
  cases rest with
  | nil =>
      exact ⟨value.write ++ '}' :: "\n\n".toList, by simp [Json.write, Json.writeMembers]⟩
  | cons member rest =>
      exact ⟨value.write ++ ',' :: (Json.writeMembers (member :: rest) ++ '}' :: "\n\n".toList),
        by simp [Json.write, Json.writeMembers]⟩

theorem keepAlive_neither : ¬ Outgoing.keepAlive.IsDone ∧ ¬ Outgoing.keepAlive.IsError := by
  constructor
  · intro h
    simp [IsDone, render] at h
  · rintro ⟨rest, h⟩
    have hchars := congrArg String.toList h
    simp [render] at hchars

theorem IsChunk.neither {frame : Outgoing} (h : frame.IsChunk) :
    ¬ frame.IsDone ∧ ¬ frame.IsError := by
  obtain ⟨encoder, choices, more, rfl⟩ := h
  obtain ⟨tail, htext⟩ := toList_render_object "choices" (.array choices)
    ([("created", .nat encoder.created.toNat), ("id", .text encoder.id),
      ("model", .text encoder.model), ("object", .text "chat.completion.chunk")] ++ more)
  have hquote : Json.quote "choices" = "\"choices\"".toList := by decide
  constructor
  · intro hdone
    have hchars := congrArg String.toList hdone
    simp only [Encoder.envelope, List.cons_append, List.nil_append] at htext hchars
    rw [htext] at hchars
    simp at hchars
  · rintro ⟨rest, herror⟩
    have hchars := congrArg String.toList herror
    simp only [Encoder.envelope, List.cons_append, List.nil_append] at htext hchars
    rw [htext, hquote] at hchars
    simp at hchars

theorem done_isDone : Outgoing.done.IsDone ∧ ¬ Outgoing.done.IsError := by
  constructor
  · rfl
  · rintro ⟨rest, h⟩
    have hchars := congrArg String.toList h
    simp [render] at hchars

theorem body_isError (failure : Failure) :
    (Outgoing.data failure.body).IsError ∧ ¬ (Outgoing.data failure.body).IsDone := by
  obtain ⟨tail, htext⟩ := toList_render_object "error"
    (.object ([("code", .text failure.code), ("message", .text failure.message)] ++
      Json.member? "step" (fun step => .text step.name) failure.step? ++
      [("type", .text failure.family)])) []
  have hquote : Json.quote "error" = "\"error\"".toList := by decide
  constructor
  · refine ⟨String.ofList tail, String.toList_injective ?_⟩
    rw [Failure.body, htext, hquote]
    simp
  · intro h
    have hchars := congrArg String.toList h
    rw [Failure.body, htext] at hchars
    simp at hchars

end Outgoing

namespace Encoder

/-- The frames of deltas without comments and times, up to the terminal delta. -/
def written (encoder : Encoder) : List Delta -> List Outgoing
  | [] => []
  | delta :: rest =>
      (encoder.step delta).2 ++
        (if delta.isTerminal then [] else (encoder.step delta).1.written rest)

def closingFrame : Delta -> Outgoing
  | .failed failure => .data failure.body
  | _ => .done

theorem step_of_open {delta : Delta} (encoder : Encoder) (h : delta.isTerminal = false) :
    ∀ frame ∈ (encoder.step delta).2, frame.IsChunk := by
  intro frame hframe
  cases delta with
  | done usage => simp [Delta.isTerminal] at h
  | failed failure => simp [Delta.isTerminal] at h
  | _ =>
      simp only [step, List.mem_singleton] at hframe
      exact ⟨_, _, _, hframe⟩

theorem step_of_terminal {delta : Delta} (encoder : Encoder) (h : delta.isTerminal = true) :
    ∃ before, (encoder.step delta).2 = before ++ [closingFrame delta] ∧
      ∀ frame ∈ before, frame.IsChunk := by
  cases delta with
  | done usage =>
      refine ⟨if encoder.includeUsage then [encoder.usageChunk usage] else [], rfl, ?_⟩
      intro frame hframe
      split at hframe
      · exact ⟨encoder, [], [("usage", usage.toJson.canonical)], List.mem_singleton.1 hframe⟩
      · simp at hframe
  | failed failure =>
      exact ⟨[], rfl, by simp⟩
  | _ => simp [Delta.isTerminal] at h

theorem isComment_of_mem_keepAlives {last due : Nat} {frame : Timed Outgoing}
    (h : frame ∈ keepAlives last due) : frame.value.isComment = true := by
  obtain ⟨count, _, rfl⟩ := List.mem_map.1 h
  rfl

theorem not_isComment_of_mem_step {delta : Delta} {encoder : Encoder} {frame : Outgoing}
    (h : frame ∈ (encoder.step delta).2) : frame.isComment = false := by
  cases hterminal : delta.isTerminal with
  | false =>
      obtain ⟨_, _, _, rfl⟩ := step_of_open encoder hterminal frame h
      rfl
  | true =>
      obtain ⟨before, hstep, hbefore⟩ := step_of_terminal encoder hterminal
      rw [hstep, List.mem_append, List.mem_singleton] at h
      rcases h with hmem | rfl
      · obtain ⟨_, _, _, rfl⟩ := hbefore frame hmem
        rfl
      · cases delta <;> rfl

theorem framesFrom_nil (stop last : Nat) (encoder : Encoder) :
    framesFrom stop last encoder [] = keepAlives last stop := rfl

theorem framesFrom_cons (stop last : Nat) (encoder : Encoder) (delta : Timed Delta)
    (rest : List (Timed Delta)) :
    framesFrom stop last encoder (delta :: rest) =
      keepAlives last delta.time ++
        ((encoder.step delta.value).2.map (fun frame => ⟨delta.time, frame⟩) ++
          (if delta.value.isTerminal then []
            else framesFrom stop delta.time (encoder.step delta.value).1 rest)) := by
  simp [framesFrom]

/-- The frames of deltas without comments, each at the time of its delta. -/
def writtenAt (encoder : Encoder) : List (Timed Delta) -> List (Timed Outgoing)
  | [] => []
  | delta :: rest =>
      (encoder.step delta.value).2.map (fun frame => ⟨delta.time, frame⟩) ++
        (if delta.value.isTerminal then [] else (encoder.step delta.value).1.writtenAt rest)

theorem map_value_writtenAt (encoder : Encoder) (deltas : List (Timed Delta)) :
    (encoder.writtenAt deltas).map Timed.value = encoder.written (deltas.map Timed.value) := by
  induction deltas generalizing encoder with
  | nil =>
      rfl
  | cons delta rest ih =>
      simp only [writtenAt, List.map_append, List.map_map, List.map_cons, written]
      congr 1
      · exact List.map_id _
      · cases delta.value.isTerminal with
        | true => rfl
        | false => exact ih _

theorem filter_keepAlives (last due : Nat) :
    (keepAlives last due).filter (fun frame => !frame.value.isComment) = [] := by
  rw [List.filter_eq_nil_iff]
  intro frame hframe
  simp [isComment_of_mem_keepAlives hframe]

theorem filter_step (encoder : Encoder) (delta : Timed Delta) :
    ((encoder.step delta.value).2.map fun frame => (⟨delta.time, frame⟩ : Timed Outgoing)).filter
        (fun frame => !frame.value.isComment) =
      (encoder.step delta.value).2.map fun frame => ⟨delta.time, frame⟩ := by
  rw [List.filter_eq_self]
  intro due hdue
  obtain ⟨frame, hframe, rfl⟩ := List.mem_map.1 hdue
  simp [not_isComment_of_mem_step hframe]

/-- Comments taken away, the frames of each delta are left, at its time. -/
theorem filter_framesFrom (stop last : Nat) (encoder : Encoder) (deltas : List (Timed Delta)) :
    (framesFrom stop last encoder deltas).filter (fun frame => !frame.value.isComment) =
      encoder.writtenAt deltas := by
  induction deltas generalizing last encoder with
  | nil =>
      exact filter_keepAlives last stop
  | cons delta rest ih =>
      rw [framesFrom_cons, List.filter_append, List.filter_append, filter_keepAlives, filter_step,
        List.nil_append, writtenAt]
      cases delta.value.isTerminal with
      | true => rfl
      | false => simp [ih]

/-- The frames that are no comments, without their times. -/
def withoutComments (frames : List (Timed Outgoing)) : List Outgoing :=
  (frames.filter fun due => !due.value.isComment).map Timed.value

/-- Comments taken away, the frames are those of the deltas, whenever these come. -/
theorem withoutComments_frames (encoder : Encoder) (stop : Nat) (deltas : List (Timed Delta)) :
    withoutComments (encoder.frames stop deltas) = encoder.written (deltas.map Timed.value) := by
  rw [withoutComments, frames, filter_framesFrom, map_value_writtenAt]

/-- Deltas without a terminal one bring comments and chunks only. -/
theorem frames_of_open {deltas : List (Timed Delta)} (encoder : Encoder) (stop : Nat)
    (h : ∀ due ∈ deltas, due.value.isTerminal = false) :
    ∀ due ∈ encoder.frames stop deltas, due.value.isComment = true ∨ due.value.IsChunk := by
  unfold frames
  generalize 0 = start
  induction deltas generalizing start encoder with
  | nil =>
      intro due hdue
      exact .inl (isComment_of_mem_keepAlives hdue)
  | cons delta rest ih =>
      have hopen := h delta List.mem_cons_self
      have hrest := ih (encoder.step delta.value).1
        (fun due hdue => h due (List.mem_cons_of_mem _ hdue)) delta.time
      intro due hdue
      rw [framesFrom_cons, hopen, List.mem_append, List.mem_append] at hdue
      rcases hdue with hcomment | hchunk | hlater
      · exact .inl (isComment_of_mem_keepAlives hcomment)
      · obtain ⟨frame, hframe, rfl⟩ := List.mem_map.1 hchunk
        exact .inr (step_of_open encoder hopen frame hframe)
      · exact hrest due hlater

/-- With its last delta the only terminal one, a stream ends with that delta's closing frame. -/
theorem frames_of_terminal {init : List (Timed Delta)} {last : Timed Delta} (encoder : Encoder)
    (stop : Nat) (hinit : ∀ due ∈ init, due.value.isTerminal = false)
    (hlast : last.value.isTerminal = true) :
    ∃ before, encoder.frames stop (init ++ [last]) =
        before ++ [⟨last.time, closingFrame last.value⟩] ∧
      ∀ due ∈ before, due.value.isComment = true ∨ due.value.IsChunk := by
  unfold frames
  generalize 0 = start
  induction init generalizing start encoder with
  | nil =>
      obtain ⟨before, hstep, hbefore⟩ := step_of_terminal encoder hlast
      refine ⟨keepAlives start last.time ++ before.map fun frame => ⟨last.time, frame⟩, ?_, ?_⟩
      · simp [framesFrom, hstep, hlast]
      · intro due hdue
        rcases List.mem_append.1 hdue with hcomment | hchunk
        · exact Or.inl (isComment_of_mem_keepAlives hcomment)
        · obtain ⟨frame, hframe, rfl⟩ := List.mem_map.1 hchunk
          exact Or.inr (hbefore frame hframe)
  | cons delta init ih =>
      have hopen := hinit delta List.mem_cons_self
      obtain ⟨before, hframes, hbefore⟩ := ih (encoder.step delta.value).1
        (fun due hdue => hinit due (List.mem_cons_of_mem _ hdue)) delta.time
      refine ⟨keepAlives start delta.time ++
        ((encoder.step delta.value).2.map fun frame => ⟨delta.time, frame⟩) ++ before, ?_, ?_⟩
      · simp [framesFrom, hopen, hframes]
      · intro due hdue
        rcases List.mem_append.1 hdue with hfirst | hrest
        · rcases List.mem_append.1 hfirst with hcomment | hchunk
          · exact Or.inl (isComment_of_mem_keepAlives hcomment)
          · obtain ⟨frame, hframe, rfl⟩ := List.mem_map.1 hchunk
            exact Or.inr (step_of_open encoder hopen frame hframe)
        · exact hbefore due hrest

end Encoder

end Stream

end ChatGateway
