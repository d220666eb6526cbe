import ChatGateway.Proofs.LineFraming

/-!
# Decoding a written event stream

A frame is written as a line for its event, if it has one, and a line for each line of its
data; comments may stand between these lines, and blocks of comments between the frames.
Whichever way each block ends its lines, a decoder finds the frames again and is left with
nothing.
-/

namespace ChatGateway

namespace Stream

/-- The parts of a text between its feeds; one more than it has feeds. -/
def partsOf (text : List Char) : List (List Char) :=
  (endedLines text).1 ++ [(endedLines text).2]

/-- How the lines of a block end. -/
inductive LineEnd where
  | feed
  | returnAndFeed
  deriving DecidableEq, Repr

/-- What stands before the feed. -/
def LineEnd.mark : LineEnd -> List Char
  | .feed => []
  | .returnAndFeed => ['\r']

/--
A block to be written: a frame or none, how the lines end, and comments.  `comments n` stand
before the line of the frame with the number `n`, counted from 0, and after the last line if
`n` is how many there are.
-/
structure Written where
  frame : Option Frame
  lineEnd : LineEnd
  comments : Nat -> List String

/-- The lines of a frame: its event, and its data line by line. -/
def Frame.fieldLines (frame : Frame) : List (List Char) :=
  (frame.event.map fun event => "event: ".toList ++ event.toList).toList ++
    (partsOf frame.data.toList).map ("data: ".toList ++ ·)

/-- Lines with comments before each and after the last. -/
def withComments : (Nat -> List String) -> List (List Char) -> List (List Char)
  | comments, [] => (comments 0).map fun comment => ':' :: comment.toList
  | comments, line :: rest =>
      ((comments 0).map fun comment => ':' :: comment.toList) ++
        line :: withComments (fun n => comments (n + 1)) rest

namespace Written

def lines (block : Written) : List (List Char) :=
  withComments block.comments (block.frame.elim [] Frame.fieldLines)

/-- The text of a block, the blank line after it included. -/
def text (block : Written) : List Char :=
  (block.lines.flatMap fun line => line ++ block.lineEnd.mark ++ ['\n']) ++
    block.lineEnd.mark ++ ['\n']

/-- What a block can hold: one line is one line, and a block without a frame has a comment. -/
structure Fits (block : Written) : Prop where
  event : ∀ frame ∈ block.frame, ∀ event ∈ frame.event,
    '\r' ∉ event.toList ∧ '\n' ∉ event.toList
  data : ∀ frame ∈ block.frame, '\r' ∉ frame.data.toList
  comments : ∀ n, ∀ comment ∈ block.comments n, '\r' ∉ comment.toList ∧ '\n' ∉ comment.toList
  spoken : block.frame = none → block.comments 0 ≠ []

end Written

/-- The text of blocks one after the other. -/
def writtenText (blocks : List Written) : String :=
  String.ofList (blocks.flatMap Written.text)

/-! ## The parts of a text -/

theorem join_parts (lines : List (List Char)) (tail : List Char) :
    Text.join "\n" ((lines ++ [tail]).map String.ofList) =
      String.ofList (withFeeds lines ++ tail) := by
  induction lines with
  | nil => simp [Text.join]
  | cons line lines ih =>
      have hmore : ∃ next rest, (lines ++ [tail]).map String.ofList = next :: rest := by
        cases lines <;> simp
      obtain ⟨next, rest, hnext⟩ := hmore
      rw [List.cons_append, List.map_cons, hnext, Text.join, ← hnext, ih]
      · apply String.toList_injective
        simp
      · simp

theorem join_partsOf (text : String) :
    Text.join "\n" ((partsOf text.toList).map String.ofList) = text := by
  rw [partsOf, join_parts, (endedLines_spec text.toList).1, String.ofList_toList]

theorem partsOf_ne_nil (text : List Char) : partsOf text ≠ [] := by
  simp [partsOf]

theorem feedFree_partsOf (text : List Char) : FeedFree (partsOf text) := by
  obtain ⟨_, hlines, htail⟩ := endedLines_spec text
  exact feedFree_append.2 ⟨hlines, feedFree_cons.2 ⟨htail, by simp [FeedFree]⟩⟩

theorem mem_of_mem_partsOf {text part : List Char} {c : Char} (hpart : part ∈ partsOf text)
    (hc : c ∈ part) : c ∈ text := by
  rw [← (endedLines_spec text).1]
  rcases List.mem_append.1 hpart with hline | htail
  · exact List.mem_append_left _ (List.mem_flatMap.2 ⟨part, hline, by simp [hc]⟩)
  · exact List.mem_append_right _ (List.mem_singleton.1 htail ▸ hc)

/-! ## What the lines of a block say -/

namespace Frame

/-- Comments do not count, wherever they stand. -/
theorem filterMap_withComments {β : Type} (f : Line -> Option β) (hother : f .other = none)
    (comments : Nat -> List String) (lines : List (List Char)) :
    ((withComments comments lines).map Line.of).filterMap f =
      (lines.map Line.of).filterMap f := by
  have hcomments (found : List String) :
      ((found.map fun comment => ':' :: comment.toList).map Line.of).filterMap f = [] := by
    rw [List.filterMap_eq_nil_iff]
    intro line hline
    simp only [List.map_map, List.mem_map, Function.comp_apply, lineOf_comment] at hline
    obtain ⟨_, _, rfl⟩ := hline
    exact hother
  induction lines generalizing comments with
  | nil =>
      exact hcomments (comments 0)
  | cons line rest ih =>
      rw [withComments, List.map_append, List.filterMap_append, hcomments, List.nil_append,
        List.map_cons, List.map_cons, List.filterMap_cons, List.filterMap_cons, ih]

theorem ofLines_withComments (comments : Nat -> List String) (lines : List (List Char)) :
    ofLines ((withComments comments lines).map Line.of) = ofLines (lines.map Line.of) := by
  rw [ofLines_eq, ofLines_eq, filterMap_withComments Line.data? rfl,
    filterMap_withComments Line.event? rfl]

theorem map_lineOf_fieldLines (frame : Frame) :
    frame.fieldLines.map Line.of =
      (frame.event.map Line.event).toList ++
        (partsOf frame.data.toList).map fun part => .data (String.ofList part) := by
  have hdata : ((partsOf frame.data.toList).map ("data: ".toList ++ ·)).map Line.of =
      (partsOf frame.data.toList).map fun part => .data (String.ofList part) := by
    rw [List.map_map]
    exact List.map_congr_left fun part _ => lineOf_data part
  rw [fieldLines, List.map_append, hdata]
  cases frame.event with
  | none => rfl
  | some event =>
      rw [Option.map_some, Option.map_some, Option.toList_some, Option.toList_some,
        List.map_singleton, lineOf_event, String.ofList_toList]

theorem filterMap_data (parts : List (List Char)) :
    (parts.map fun part => Line.data (String.ofList part)).filterMap Line.data? =
      parts.map String.ofList := by
  rw [List.filterMap_map]
  exact congrFun List.filterMap_eq_map parts

theorem filterMap_event_data (parts : List (List Char)) :
    (parts.map fun part => Line.data (String.ofList part)).filterMap Line.event? = [] := by
  simp [List.filterMap_eq_nil_iff, Line.event?]

/-- The lines of a frame say the frame. -/
theorem ofLines_fieldLines (frame : Frame) :
    ofLines (frame.fieldLines.map Line.of) = some frame := by
  have hdata : (frame.fieldLines.map Line.of).filterMap Line.data? =
      (partsOf frame.data.toList).map String.ofList := by
    rw [map_lineOf_fieldLines, List.filterMap_append, filterMap_data]
    cases frame.event <;> rfl
  have hevent : ((frame.fieldLines.map Line.of).filterMap Line.event?).getLast? =
      frame.event := by
    rw [map_lineOf_fieldLines, List.filterMap_append, filterMap_event_data, List.append_nil]
    cases frame.event <;> rfl
  have hne : (partsOf frame.data.toList).map String.ofList ≠ [] := by
    simp [partsOf_ne_nil]
  rw [ofLines_eq, hdata, hevent, if_neg hne, join_partsOf]

end Frame

namespace Written

/-- The lines of a block say its frame, if it has one. -/
theorem ofLines_lines (block : Written) :
    Frame.ofLines (block.lines.map Frame.Line.of) = block.frame := by
  rw [lines, Frame.ofLines_withComments]
  cases block.frame with
  | none => rfl
  | some frame => exact Frame.ofLines_fieldLines frame

end Written

/-! ## One block among others -/

/-- A line that can stand in a block of either kind. -/
def IsProperLine (line : List Char) : Prop :=
  line ≠ [] ∧ '\r' ∉ line ∧ '\n' ∉ line

instance (line : List Char) : Decidable (IsProperLine line) :=
  inferInstanceAs (Decidable (_ ∧ _ ∧ _))

theorem mem_withComments {comments : Nat -> List String} {lines : List (List Char)}
    {line : List Char} (h : line ∈ withComments comments lines) :
    line ∈ lines ∨ ∃ n, ∃ comment ∈ comments n, line = ':' :: comment.toList := by
  induction lines generalizing comments with
  | nil =>
      obtain ⟨comment, hcomment, rfl⟩ := List.mem_map.1 h
      exact Or.inr ⟨0, comment, hcomment, rfl⟩
  | cons first rest ih =>
      rcases List.mem_append.1 h with hfirst | hmore
      · obtain ⟨comment, hcomment, rfl⟩ := List.mem_map.1 hfirst
        exact Or.inr ⟨0, comment, hcomment, rfl⟩
      · rcases List.mem_cons.1 hmore with rfl | hrest
        · exact Or.inl List.mem_cons_self
        · rcases ih hrest with hmem | ⟨n, comment, hcomment, rfl⟩
          · exact Or.inl (List.mem_cons_of_mem _ hmem)
          · exact Or.inr ⟨n + 1, comment, hcomment, rfl⟩

theorem isProperLine_append (name : List Char) {value : List Char} (hname : IsProperLine name)
    (hreturn : '\r' ∉ value) (hfeed : '\n' ∉ value) : IsProperLine (name ++ value) := by
  obtain ⟨hne, hnameReturn, hnameFeed⟩ := hname
  exact ⟨by simp [hne], by simp [hnameReturn, hreturn], by simp [hnameFeed, hfeed]⟩

namespace Written.Fits

variable {block : Written}

theorem isProperLine_field (h : block.Fits) {frame : Frame} (hframe : frame ∈ block.frame)
    {line : List Char} (hline : line ∈ frame.fieldLines) : IsProperLine line := by
  rcases List.mem_append.1 hline with hevent | hdata
  · obtain ⟨event, hsome, rfl⟩ := Option.map_eq_some_iff.1 (Option.mem_toList.1 hevent)
    obtain ⟨hreturn, hfeed⟩ := h.event frame hframe event hsome
    exact isProperLine_append "event: ".toList (by decide) hreturn hfeed
  · obtain ⟨part, hpart, rfl⟩ := List.mem_map.1 hdata
    have hreturn : '\r' ∉ part := fun hmem => h.data frame hframe (mem_of_mem_partsOf hpart hmem)
    exact isProperLine_append "data: ".toList (by decide) hreturn (feedFree_partsOf _ part hpart)

theorem isProperLine (h : block.Fits) {line : List Char} (hline : line ∈ block.lines) :
    IsProperLine line := by
  rcases mem_withComments hline with hfield | ⟨n, comment, hcomment, rfl⟩
  · cases hframe : block.frame with
    | none =>
        simp [hframe] at hfield
    | some frame =>
        rw [hframe] at hfield
        exact h.isProperLine_field hframe hfield
  · obtain ⟨hreturn, hfeed⟩ := h.comments n comment hcomment
    exact isProperLine_append [':'] (by decide) hreturn hfeed

theorem lines_ne_nil (h : block.Fits) : block.lines ≠ [] := by
  rw [lines]
  cases hframe : block.frame with
  | none =>
      simpa [withComments] using h.spoken hframe
  | some frame =>
      have hfields : frame.fieldLines ≠ [] := by
        simp [Frame.fieldLines, partsOf_ne_nil]
      obtain ⟨line, rest, hcons⟩ := List.exists_cons_of_ne_nil hfields
      simp [hcons, withComments]

end Written.Fits

/-- The lines of a block as its feeds end them, the blank line the last. -/
def Written.markedLines (block : Written) : List (List Char) :=
  block.lines.map (· ++ block.lineEnd.mark) ++ [block.lineEnd.mark]

theorem Written.text_eq (block : Written) : block.text = withFeeds block.markedLines := by
  simp [text, markedLines, withFeeds, List.flatMap_map]

theorem dropReturn_mark {line : List Char} (lineEnd : LineEnd) (h : '\r' ∉ line) :
    Frame.dropReturn (line ++ lineEnd.mark) = line := by
  cases lineEnd with
  | feed =>
      have hlast : line.getLast? ≠ some '\r' := fun hend => h (List.mem_of_getLast? hend)
      simp [LineEnd.mark, Frame.dropReturn, hlast]
  | returnAndFeed =>
      simp [LineEnd.mark, Frame.dropReturn]

theorem lastBefore?_mark (line : List Char) (lineEnd : LineEnd) :
    lastBefore? (line ++ lineEnd.mark) lineEnd.mark = some line := by
  cases lineEnd <;> simp [LineEnd.mark, lastBefore?]

theorem lastBefore?_proper {line next : List Char} (lineEnd : LineEnd) (h : IsProperLine next) :
    lastBefore? line (next ++ lineEnd.mark) = none := by
  obtain ⟨hne, hreturn, _⟩ := h
  rw [lastBefore?_eq_none]
  refine ⟨by simp [hne], ?_⟩
  intro heq
  cases lineEnd with
  | feed =>
      rw [LineEnd.mark, List.append_nil] at heq
      exact absurd (by simp [heq]) hreturn
  | returnAndFeed =>
      exact absurd (by simpa [LineEnd.mark] using heq) hne

/-- The first block of marked lines is these lines, whatever lines follow. -/
theorem firstBlock_marked {init : List (List Char)} {last : List Char} (lineEnd : LineEnd)
    (more : List (List Char)) (hproper : ∀ line ∈ init ++ [last], IsProperLine line) :
    firstBlock ((init ++ [last]).map (· ++ lineEnd.mark) ++ lineEnd.mark :: more) =
      some (init.map (· ++ lineEnd.mark), last, more) := by
  induction init with
  | nil =>
      exact firstBlock_of_blank more (lastBefore?_mark last lineEnd)
  | cons line init ih =>
      have hmore := ih fun other hother => hproper other (List.mem_cons_of_mem _ hother)
      obtain ⟨next, rest, hnext⟩ : ∃ next rest, init ++ [last] = next :: rest :=
        List.exists_cons_of_ne_nil (by simp)
      have hopen : lastBefore? (line ++ lineEnd.mark) (next ++ lineEnd.mark) = none :=
        lastBefore?_proper lineEnd (hproper next (by simp [hnext]))
      rw [List.cons_append, hnext, List.map_cons, List.map_cons, List.cons_append,
        List.cons_append, firstBlock_of_open _ hopen]
      rw [hnext, List.map_cons, List.cons_append] at hmore
      rw [hmore]
      rfl

theorem mark_feedFree (lineEnd : LineEnd) : '\n' ∉ lineEnd.mark := by
  cases lineEnd <;> decide

namespace Written.Fits

variable {block : Written}

theorem feedFree (h : block.Fits) : FeedFree block.markedLines := by
  refine feedFree_append.2 ⟨?_, feedFree_cons.2 ⟨mark_feedFree _, by simp [FeedFree]⟩⟩
  intro marked hmarked
  obtain ⟨line, hline, rfl⟩ := List.mem_map.1 hmarked
  have hproper := h.isProperLine hline
  simp [hproper.2.2, mark_feedFree]

/-- A written block is decoded as its frame, and what is written after it goes on. -/
theorem framesOf_text (h : block.Fits) {more : List (List Char)} (hmore : FeedFree more) :
    framesOf (Text.Utf8.encode (withFeeds (block.markedLines ++ more))) =
        block.frame.toList.map .ok ++ framesOf (Text.Utf8.encode (withFeeds more)) ∧
      remainder (Text.Utf8.encode (withFeeds (block.markedLines ++ more))) =
        remainder (Text.Utf8.encode (withFeeds more)) := by
  obtain ⟨init, last, hlines⟩ : ∃ init last, block.lines = init ++ [last] :=
    ⟨_, _, (List.dropLast_concat_getLast h.lines_ne_nil).symm⟩
  have hproper : ∀ line ∈ init ++ [last], IsProperLine line :=
    fun line hline => h.isProperLine (hlines ▸ hline)
  have hfirst : firstBlock (block.markedLines ++ more) =
      some (init.map (· ++ block.lineEnd.mark), last, more) := by
    rw [Written.markedLines, hlines, List.append_assoc]
    exact firstBlock_marked block.lineEnd more hproper
  have hframe : frameOf (init.map (· ++ block.lineEnd.mark)) last = block.frame := by
    have hinit : (init.map (· ++ block.lineEnd.mark)).map Frame.dropReturn = init := by
      rw [List.map_map]
      refine (List.map_congr_left fun line hline => ?_).trans (List.map_id init)
      exact dropReturn_mark block.lineEnd (hproper line (List.mem_append_left _ hline)).2.1
    rw [frameOf, hinit, ← hlines, block.ofLines_lines]
  have hall : FeedFree (block.markedLines ++ more) := feedFree_append.2 ⟨h.feedFree, hmore⟩
  have hend : '\n' ∉ ([] : List Char) := List.not_mem_nil
  have hfound := framesOf_of_firstBlock hall hend hfirst
  rw [hframe] at hfound
  simpa only [List.append_nil] using hfound

end Written.Fits

theorem framesOf_written {blocks : List Written} (h : ∀ block ∈ blocks, block.Fits) :
    FeedFree (blocks.flatMap Written.markedLines) ∧
    framesOf (Text.Utf8.encode (withFeeds (blocks.flatMap Written.markedLines))) =
        (blocks.filterMap Written.frame).map .ok ∧
      remainder (Text.Utf8.encode (withFeeds (blocks.flatMap Written.markedLines))) = [] := by
  induction blocks with
  | nil =>
      exact ⟨by simp [FeedFree], framesOf_nil, remainder_nil⟩
  | cons block blocks ih =>
      obtain ⟨hfree, hframes, hrest⟩ :=
        ih fun other hother => h other (List.mem_cons_of_mem _ hother)
      have hfits := h block List.mem_cons_self
      obtain ⟨hfirst, hleft⟩ := hfits.framesOf_text hfree
      rw [List.flatMap_cons]
      refine ⟨feedFree_append.2 ⟨hfits.feedFree, hfree⟩, ?_, hleft.trans hrest⟩
      rw [hfirst, hframes]
      cases hframe : block.frame <;> simp [hframe]

/--
Frames written one after the other, each with its lines ended its own way, with comments
between its lines, and with blocks of comments between them: a decoder that is given the
bytes finds exactly the frames, in their order, and nothing of a frame is left in it.
-/
theorem drain_writtenText {blocks : List Written} (h : ∀ block ∈ blocks, block.Fits) :
    let found := (Decoder.empty.push (Text.bytes (writtenText blocks))).drain
    found.1 = (blocks.filterMap Written.frame).map .ok ∧ found.2.hasPartial = false := by
  intro found
  obtain ⟨_, hframes, hrest⟩ := framesOf_written h
  have hbytes : Text.bytes (writtenText blocks) =
      Text.Utf8.encode (withFeeds (blocks.flatMap Written.markedLines)) := by
    have htext : blocks.flatMap Written.text = withFeeds (blocks.flatMap Written.markedLines) := by
      rw [withFeeds, List.flatMap_assoc]
      exact congrArg (blocks.flatMap ·) (funext Written.text_eq)
    rw [Text.bytes, writtenText, String.toList_ofList, htext]
  have hfound : found = ((blocks.filterMap Written.frame).map .ok, .empty) := by
    show (Decoder.empty.push (Text.bytes (writtenText blocks))).drain = _
    rw [Decoder.drain_eq, Decoder.push, Decoder.empty, List.nil_append, hbytes, hframes, hrest]
  rw [hfound]
  exact ⟨rfl, rfl⟩

/-- Frames of either kind of line endings, one of them without a text, and comments everywhere. -/
theorem drain_writtenText_commented :
    let named : Written := ⟨some ⟨some "é", "a\n\n b"⟩, .returnAndFeed, fun _ => ["x: y"]⟩
    let pause : Written := ⟨none, .feed, fun _ => ["keep-alive", ""]⟩
    let silent : Written := ⟨some ⟨none, ""⟩, .feed, fun _ => []⟩
    writtenText [named, pause, silent] =
      ":x: y\r\nevent: é\r\n:x: y\r\ndata: a\r\n:x: y\r\ndata: \r\n" ++
        ":x: y\r\ndata:  b\r\n:x: y\r\n\r\n" ++ ":keep-alive\n:\n\n" ++ "data: \n\n" ∧
    (∀ block ∈ [named, pause, silent], block.Fits) ∧
    (Decoder.empty.push (Text.bytes (writtenText [named, pause, silent]))).drain.1 =
      [.ok ⟨some "é", "a\n\n b"⟩, .ok ⟨none, ""⟩] := by
  intro named pause silent
  have hword : ∀ comment ∈ ["x: y"], '\r' ∉ comment.toList ∧ '\n' ∉ comment.toList := by decide
  have hwords : ∀ comment ∈ ["keep-alive", ""], '\r' ∉ comment.toList ∧ '\n' ∉ comment.toList := by
    decide
  have hnamed : named.Fits := ⟨by decide, by decide, fun _ => hword, nofun⟩
  have hpause : pause.Fits := ⟨nofun, nofun, fun _ => hwords, fun _ => by decide⟩
  have hsilent : silent.Fits := ⟨by decide, by decide, nofun, nofun⟩
  have hfits : ∀ block ∈ [named, pause, silent], block.Fits := by
    intro block hblock
    simp only [List.mem_cons, List.not_mem_nil, or_false] at hblock
    rcases hblock with rfl | rfl | rfl
    · exact hnamed
    · exact hpause
    · exact hsilent
  exact ⟨by decide, hfits, (drain_writtenText hfits).1⟩

end Stream

end ChatGateway
