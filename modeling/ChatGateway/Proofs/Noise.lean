import ChatGateway.Proofs.Events
import ChatGateway.Proofs.JsonText
import ChatGateway.Proofs.LineReader

/-!
# Noise between frames

A provider sends frames that tell nothing: comments, frames without data, pings, ends of blocks,
and events of kinds that came up later than this gateway.  Wherever they stand between the
frames of a body, its deltas are the same.  The decoder has to see where such a frame ends, so
its blank line has to end as the line before it does.
-/

namespace ChatGateway

namespace Stream

/-! ## Events that tell nothing -/

/-- The kinds of events that bring a delta. -/
def tellingKinds : List String :=
  ["message_start", "content_block_start", "content_block_delta", "message_delta",
    "message_stop", "error"]

/-- The kind of the object that data holds, if it has one member `type`, whatever the others. -/
def eventKind? (data : String) : Option String :=
  match Json.read (Text.bytes data) with
  | .ok (.object members) =>
      match members.filter fun member => member.1 = "type" with
      | [(_, .text kind)] => some kind
      | _ => none
  | _ => none

/-- The data holds an event of another kind: a ping, the end of a block, or an unknown one. -/
def IsNoiseData (data : String) : Prop :=
  ∃ kind, eventKind? data = some kind ∧ kind ∉ tellingKinds

/-- An event is taken from the JSON value that the data holds. -/
theorem Event.read_of_json {data : String} {value : Json} {event : Event}
    (hvalue : Json.read (Text.bytes data) = .ok value) (h : Event.decoder value = some event) :
    Event.read data = .ok event := by
  obtain ⟨rest, hread, hblank⟩ := Json.Reader.run_eq_ok.1 hvalue
  refine Json.Reader.run_eq_ok.2 ⟨rest, ?_, hblank⟩
  rw [Json.Reader.via, Json.Reader.bind_ok hread, h]
  rfl

/-- The event that tells nothing and that an object of another kind is. -/
def noiseOf (kind : String) : Event :=
  if kind = "content_block_stop" then .blockStop
  else if kind = "ping" then .ping
  else .unknown

theorem step_noiseOf (progress : Progress) (kind : String) :
    progress.step (noiseOf kind) = (progress, .nothing) := by
  unfold noiseOf
  split
  · rfl
  · split <;> rfl

theorem eventKind?_eq_some {data kind : String} (h : eventKind? data = some kind) :
    ∃ members, Json.read (Text.bytes data) = .ok (.object members) ∧
      ∃ name, members.filter (fun member => member.1 = "type") = [(name, .text kind)] := by
  unfold eventKind? at h
  split at h
  next members hvalue =>
    split at h
    next name other hkind =>
      cases h
      exact ⟨members, hvalue, name, hkind⟩
    next => cases h
  next => cases h

theorem Event.decoder_noise {name : String} {members : List (String × Json)} {kind : String}
    (hkind : members.filter (fun member => member.1 = "type") = [(name, .text kind)])
    (h : kind ∉ tellingKinds) : Event.decoder (.object members) = some (noiseOf kind) := by
  have hsplit : Json.Decode.splitTag (.object members) =
      some (.text kind, .object (members.filter fun member => member.1 ≠ "type")) := by
    simp [Json.Decode.splitTag, hkind]
  simp only [tellingKinds, List.mem_cons, List.not_mem_nil, or_false, not_or] at h
  obtain ⟨hstart, hblock, hdelta, hchange, hstop, herror⟩ := h
  rw [Event.decoder, Json.Decode.tagged, hsplit, noiseOf]
  simp only [Option.bind_some, Json.Decode.select]
  by_cases hend : kind = "content_block_stop"
  · subst hend
    rfl
  · by_cases hping : kind = "ping"
    · subst hping
      rfl
    · rw [if_neg hend, if_neg hping]
      simp only [List.lookup_cons, List.lookup_nil, beq_false_of_ne, ne_eq, hstart, hblock, hdelta,
        hend, hchange, hstop, hping, herror, not_false_eq_true, Option.getD_none]
      rfl

theorem Intake.interpret_noise {data : String} (h : IsNoiseData data) (event : Option String)
    (progress : Progress) : interpret progress (.ok ⟨event, data⟩) = (progress, .nothing) := by
  obtain ⟨kind, hfound, hother⟩ := h
  obtain ⟨members, hvalue, name, hkind⟩ := eventKind?_eq_some hfound
  have hread := Event.read_of_json hvalue (Event.decoder_noise hkind hother)
  simp only [interpret, hread, step_noiseOf]

/-! ## Frames by their lines -/

/-- A frame as it stands in a body: its lines before their feeds, and the blank line after them. -/
structure LineFrame where
  init : List (List Char)
  last : List Char
  blank : List Char
  deriving DecidableEq, Repr

instance (lines : List (List Char)) : Decidable (FeedFree lines) :=
  inferInstanceAs (Decidable (∀ line ∈ lines, '\n' ∉ line))

namespace LineFrame

def lines (frame : LineFrame) : List (List Char) :=
  frame.init ++ [frame.last, frame.blank]

def bytes (frame : LineFrame) : List UInt8 :=
  Text.Utf8.encode (withFeeds frame.lines)

/-- What the frame says by the rule of event streams. -/
def said (frame : LineFrame) : List Frame :=
  Gathered.nothing.readLines frame.lines

/-- The blank line is the first one. -/
structure Proper (frame : LineFrame) : Prop where
  feedFree : FeedFree frame.lines
  spoken : ∀ line ∈ frame.init ++ [frame.last], ¬ Gathered.IsBlankLine line
  blank : Gathered.IsBlankLine frame.blank

/-- No line is one of data; comments have no name before the colon. -/
def HasNoData (frame : LineFrame) : Prop :=
  ∀ line ∈ frame.init ++ [frame.last],
    Gathered.fieldName (Frame.dropReturn line) ≠ "data".toList

instance (frame : LineFrame) : Decidable frame.HasNoData :=
  inferInstanceAs (Decidable (∀ line ∈ _, _))

/-- The frame tells nothing, and its blank line ends as the line before it does. -/
structure IsNoise (frame : LineFrame) : Prop extends frame.Proper where
  silent : frame.HasNoData ∨ ∃ found, frame.said = [found] ∧ IsNoiseData found.data
  alike : Gathered.EndsAlike frame.last frame.blank

end LineFrame

/-- The bytes are those of one block and the blank line that the decoder finds after it. -/
def IsComplete (piece : List UInt8) : Prop :=
  ∃ block, splitBlock piece = some (block, [])

/-- The second list is the first one with noise put in. -/
inductive Noisier : List (List UInt8) -> List (List UInt8) -> Prop
  | done : Noisier [] []
  | keep {frame : List UInt8} {frames more : List (List UInt8)} :
      IsComplete frame -> Noisier frames more -> Noisier (frame :: frames) (frame :: more)
  | add {noise : LineFrame} {frames more : List (List UInt8)} :
      noise.IsNoise -> Noisier frames more -> Noisier frames (noise.bytes :: more)

/-! ## Where a frame ends -/

theorem Gathered.readLines_append (gathered : Gathered) {lines : List (List Char)}
    (rest : List (List Char)) (h : ∀ line ∈ lines, ¬ IsBlankLine line) :
    gathered.readLines (lines ++ rest) =
      (gathered.addAll (lines.map Frame.dropReturn)).readLines rest := by
  induction lines generalizing gathered with
  | nil => rfl
  | cons line lines ih =>
      have hline := h line List.mem_cons_self
      rw [List.cons_append, readLines_of_not_blank _ _ hline,
        ih _ fun other hother => h other (List.mem_cons_of_mem _ hother)]
      rfl

theorem Gathered.lastBefore?_ne_none {line next : List Char} (h : IsBlankLine next) :
    lastBefore? line next ≠ none ↔ (next = ['\r'] → line.getLast? = some '\r') := by
  constructor
  · intro hfound hreturn
    by_contra hopen
    exact hfound (lastBefore?_eq_none.2 ⟨by simp [hreturn], fun _ => hopen⟩)
  · intro hends hnone
    obtain ⟨hempty, hopen⟩ := lastBefore?_eq_none.1 hnone
    have hreturn := h.resolve_left hempty
    exact hopen hreturn (hends hreturn)

theorem feed_not_mem_dropReturn {line : List Char} (h : '\n' ∉ line) :
    '\n' ∉ Frame.dropReturn line := by
  unfold Frame.dropReturn
  split
  · exact fun hmem => h (List.dropLast_subset line hmem)
  · exact h

namespace LineFrame

variable {frame : LineFrame}

theorem firstBlock_lines (h : frame.Proper) :
    firstBlock frame.lines =
      (lastBefore? frame.last frame.blank).map fun last => (frame.init, last, []) := by
  obtain ⟨init, last, blank⟩ := frame
  have hspoken := h.spoken
  simp only [lines] at hspoken ⊢
  clear h
  induction init with
  | nil =>
      cases hlast : lastBefore? last blank with
      | some found => exact firstBlock_of_blank [] hlast
      | none => exact firstBlock_of_open [] hlast
  | cons line init ih =>
      have hrest := ih fun other hother => hspoken other (List.mem_cons_of_mem _ hother)
      obtain ⟨next, more, hnext⟩ : ∃ next more, init ++ [last] = next :: more :=
        List.exists_cons_of_ne_nil (by simp)
      have hspeaks : ¬ Gathered.IsBlankLine next := hspoken next (by simp [hnext])
      have hopen : lastBefore? line next = none :=
        lastBefore?_eq_none.2
          ⟨fun hnil => hspeaks (.inl hnil), fun hend => (hspeaks (.inr hend)).elim⟩
      have hlines : init ++ [last, blank] = next :: (more ++ [blank]) := by
        rw [← List.cons_append, ← hnext]
        simp
      rw [List.cons_append, hlines, firstBlock_of_open _ hopen, ← hlines, hrest, Option.map_map]
      rfl

theorem splitBlock_bytes (h : frame.Proper) :
    splitBlock frame.bytes =
      (lastBefore? frame.last frame.blank).map fun last =>
        (Text.Utf8.encode (withFeeds frame.init ++ last), []) := by
  have hend : '\n' ∉ ([] : List Char) := List.not_mem_nil
  have hsplit := splitBlock_lines h.feedFree hend
  rw [List.append_nil, firstBlock_lines h, Option.map_map] at hsplit
  exact hsplit

/-- The decoder sees the end of a frame unless its blank line alone has a return. -/
theorem isComplete_bytes (h : frame.Proper) :
    IsComplete frame.bytes ↔
      (frame.blank = ['\r'] → frame.last.getLast? = some '\r') := by
  rw [← Gathered.lastBefore?_ne_none h.blank, IsComplete, splitBlock_bytes h,
    Option.ne_none_iff_exists']
  simp

/-- What a frame says is what its lines give. -/
theorem said_eq (h : frame.Proper) :
    frame.said = (frameOf frame.init (Frame.dropReturn frame.last)).toList := by
  have hlines : frame.lines = (frame.init ++ [frame.last]) ++ [frame.blank] := by
    simp [lines]
  rw [said, hlines, Gathered.readLines_append _ _ h.spoken,
    Gathered.readLines_of_blank _ _ h.blank, Gathered.frameOf_eq]
  simp [Gathered.addAll, Gathered.readLines]

theorem said_of_hasNoData (h : frame.Proper) (hsilent : frame.HasNoData) : frame.said = [] := by
  have hdata : ((frame.init.map Frame.dropReturn ++ [Frame.dropReturn frame.last]).map
      Frame.Line.of).filterMap Frame.Line.data? = [] := by
    have hlines : frame.init.map Frame.dropReturn ++ [Frame.dropReturn frame.last] =
        (frame.init ++ [frame.last]).map Frame.dropReturn := by simp
    rw [hlines, List.map_map, List.filterMap_map, List.filterMap_eq_nil_iff]
    intro line hline
    have hname := hsilent line hline
    simp only [Function.comp_apply, Gathered.lineOf_eq, hname, if_false]
    split <;> rfl
  rw [said_eq h, frameOf, Frame.ofLines_eq, if_pos hdata]
  rfl

/-- A frame whose blank line ends alike is decoded as the rule has it. -/
theorem framesOf_bytes (h : frame.Proper)
    (alike : Gathered.EndsAlike frame.last frame.blank) (rest : List UInt8) :
    framesOf (frame.bytes ++ rest) = frame.said.map .ok ++ framesOf rest ∧
      remainder (frame.bytes ++ rest) = remainder rest := by
  have hends := alike (h.spoken _ (by simp)) h.blank
  obtain ⟨last, hlast⟩ :=
    Option.ne_none_iff_exists'.1 ((Gathered.lastBefore?_ne_none h.blank).2 hends.1)
  cases Gathered.last_eq_dropReturn hlast hends
  obtain ⟨hinit, hmore⟩ := feedFree_append.1 h.feedFree
  have hfree := feed_not_mem_dropReturn (feedFree_cons.1 hmore).1
  have hsplit := splitBlock_bytes h
  rw [hlast, Option.map_some] at hsplit
  rw [(framesOf_complete hsplit rest).1, (framesOf_complete hsplit rest).2,
    readBlock_withFeeds hinit hfree, said_eq h]
  refine ⟨?_, rfl⟩
  cases frameOf frame.init (Frame.dropReturn frame.last) <;> rfl

end LineFrame

/-! ## A body with noise -/

namespace Intake

theorem interpretAll_noise (progress : Progress) {frame : LineFrame} (h : frame.IsNoise)
    (rest : List (Except Failure Frame)) :
    interpretAll progress (frame.said.map .ok ++ rest) = interpretAll progress rest := by
  rcases h.silent with hnone | ⟨found, hsaid, hdata⟩
  · rw [LineFrame.said_of_hasNoData h.toProper hnone]
    rfl
  · rw [hsaid]
    simp only [List.map_cons, List.map_nil, List.singleton_append, interpretAll,
      interpret_noise hdata found.event progress]

/-- Items after the same ones have the same deltas if they have them whatever the progress. -/
theorem interpretAll_append_congr (progress : Progress) (first : List (Except Failure Frame))
    {second other : List (Except Failure Frame)}
    (h : ∀ progress, interpretAll progress second = interpretAll progress other) :
    interpretAll progress (first ++ second) = interpretAll progress (first ++ other) := by
  rw [interpretAll_append, interpretAll_append]
  cases interpretAll progress first with
  | mk reached deltas =>
      cases reached with
      | none => rfl
      | some after => simp only [h after]

/-- The deltas of the frames are the same with noise among them, and so is what is left over. -/
theorem interpretAll_noisier {frames more : List (List UInt8)} (h : Noisier frames more)
    (tail : List UInt8) (progress : Progress) :
    interpretAll progress (framesOf (more.flatten ++ tail)) =
        interpretAll progress (framesOf (frames.flatten ++ tail)) ∧
      remainder (more.flatten ++ tail) = remainder (frames.flatten ++ tail) := by
  induction h generalizing progress with
  | done =>
      exact ⟨rfl, rfl⟩
  | keep hcomplete _ ih =>
      obtain ⟨block, hblock⟩ := hcomplete
      rw [List.flatten_cons, List.flatten_cons, List.append_assoc, List.append_assoc,
        (framesOf_complete hblock _).1, (framesOf_complete hblock _).1,
        (framesOf_complete hblock _).2, (framesOf_complete hblock _).2]
      exact ⟨interpretAll_append_congr progress _ fun other => (ih other).1, (ih progress).2⟩
  | add hnoise _ ih =>
      obtain ⟨hframes, hleft⟩ := LineFrame.framesOf_bytes hnoise.toProper hnoise.alike
        (List.flatten _ ++ tail)
      rw [List.flatten_cons, List.append_assoc, hframes, hleft, interpretAll_noise _ hnoise]
      exact ih progress

/--
Noise put between the complete frames of a body, at any places and as often as one likes, leaves
its deltas the same, whatever bytes follow the frames, however the bytes are read and whichever
way they stop.  A frame is complete unless its blank line has a return that the line before it
lacks.
-/
theorem deltas_of_noisier {idle : Nat} {frames more : List (List UInt8)} {tail : List UInt8}
    {reads noisy : List (Nat × Read)} (h : Noisier frames more)
    (hreads : arrived idle reads = frames.flatten ++ tail)
    (hnoisy : arrived idle noisy = more.flatten ++ tail)
    (hstop : stopOf idle noisy = stopOf idle reads) :
    (deltas idle noisy).map Timed.value = (deltas idle reads).map Timed.value ∧
      ∀ frame : LineFrame, frame.Proper →
        (IsComplete frame.bytes ↔
          (frame.blank = ['\r'] → frame.last.getLast? = some '\r')) := by
  refine ⟨?_, fun frame hproper => LineFrame.isComplete_bytes hproper⟩
  obtain ⟨hsame, hleft⟩ := interpretAll_noisier h tail .initial
  rw [deltas_eq_translation, deltas_eq_translation, hreads, hnoisy, hstop, translation,
    translation, hsame, hleft]

/-- Noise of every kind around a frame that begins a call and one that completes. -/
theorem deltas_of_noisier_around_call :
    let comment : LineFrame := ⟨[": keep-alive\r".toList], ":".toList, []⟩
    let later : LineFrame :=
      ⟨["event: later\r".toList, "data: \x7b\"v\":[1.5,null],\r".toList],
        "data: \"type\":\"later\"\x7d\r".toList, ['\r']⟩
    let call : LineFrame :=
      ⟨[], ("data: \x7b\"type\":\"content_block_start\",\"index\":3," ++
        "\"content_block\":\x7b\"type\":\"tool_use\",\"id\":\"é\"\x7d\x7d\r").toList, ['\r']⟩
    let complete : LineFrame := ⟨[], "data: \x7b\"type\":\"message_stop\"\x7d".toList, []⟩
    let frames := [call.bytes, complete.bytes]
    let more := [comment.bytes, later.bytes, call.bytes, comment.bytes, complete.bytes]
    let reads (body : List UInt8) : List (Nat × Read) := [(2, .chunk body), (1, .closed)]
    Noisier frames more ∧
    (deltas 2 (reads more.flatten)).map Timed.value =
      (deltas 2 (reads frames.flatten)).map Timed.value ∧
    (deltas 2 (reads frames.flatten)).map Timed.value = [.toolCall 0 "é" "", .done ⟨0, 0, by decide⟩] := by
  intro comment later call complete frames more reads
  have hcomment : comment.IsNoise :=
    ⟨⟨by decide, by decide, by decide⟩, .inl (by decide), by decide⟩
  have hlater : later.IsNoise := by
    have hsaid : later.said =
        [⟨some "later", "\x7b\"v\":[1.5,null],\n\"type\":\"later\"\x7d"⟩] := by decide
    have hdata : IsNoiseData "\x7b\"v\":[1.5,null],\n\"type\":\"later\"\x7d" :=
      ⟨"later", by decide +kernel, by decide⟩
    exact ⟨⟨by decide, by decide, by decide⟩, .inr ⟨_, hsaid, hdata⟩, by decide⟩
  have hcall : IsComplete call.bytes :=
    (LineFrame.isComplete_bytes ⟨by decide, by decide, by decide⟩).2 (by decide)
  have hcomplete : IsComplete complete.bytes :=
    (LineFrame.isComplete_bytes ⟨by decide, by decide, by decide⟩).2 (by decide)
  have hnoisier : Noisier frames more :=
    .add hcomment (.add hlater (.keep hcall (.add hcomment (.keep hcomplete .done))))
  have harrived (body : List UInt8) : arrived 2 (reads body) = body ++ [] := by
    simp [reads, arrived]
  have hstop (body : List UInt8) : stopOf 2 (reads body) = .closed := by
    simp [reads, stopOf]
  have hsame := (deltas_of_noisier hnoisier (harrived _) (harrived _) (by rw [hstop, hstop])).1
  exact ⟨hnoisier, hsame, by decide +kernel⟩

/--
A ping whose blank line has a return that the line before it lacks: the frame after the ping is
taken for more of its data, and the stream fails.
-/
theorem ping_swallows_next_frame :
    let start : LineFrame :=
      ⟨[], ("data: \x7b\"type\":\"message_start\"," ++
        "\"message\":\x7b\"id\":\"m\"\x7d\x7d").toList, []⟩
    let ping : LineFrame := ⟨[], "data: \x7b\"type\":\"ping\"\x7d".toList, ['\r']⟩
    let complete : LineFrame := ⟨[], "data: \x7b\"type\":\"message_stop\"\x7d".toList, []⟩
    let deltasOf (frames : List LineFrame) : List Delta :=
      (deltas 2 [(2, .chunk (frames.map LineFrame.bytes).flatten), (1, .closed)]).map Timed.value
    (ping.Proper ∧ ∃ found, ping.said = [found] ∧ IsNoiseData found.data) ∧
    deltasOf [start, complete] = [.start "m", .done ⟨0, 0, by decide⟩] ∧
    deltasOf [start, ping, complete] =
      [.start "m", .failed (.malformedStream "unparsable data event: the text is not JSON")] := by
  intro start ping complete deltasOf
  have hsaid : ping.said = [⟨none, "\x7b\"type\":\"ping\"\x7d"⟩] := by decide
  have hdata : IsNoiseData "\x7b\"type\":\"ping\"\x7d" := ⟨"ping", by decide +kernel, by decide⟩
  exact ⟨⟨⟨by decide, by decide, by decide⟩, _, hsaid, hdata⟩, by decide +kernel,
    by decide +kernel⟩

end Intake

end Stream

end ChatGateway
