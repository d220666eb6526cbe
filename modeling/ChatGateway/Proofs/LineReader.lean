import ChatGateway.Proofs.LineFraming
import Mathlib.Data.List.Chain

/-!
# Reading an event stream line by line

The rule of an event stream knows no blocks: every line adds to what has been gathered, and
every empty line makes a frame of it.  The decoder looks for two blank lines of one kind
instead.  `readPaired` is what it reads, line by line, whatever the text; both readings
agree on a text in which a blank line ends as the line before it does, and they differ on
others.
-/

namespace ChatGateway

namespace Stream

/-- The event and the data that lines have given since the last empty one. -/
structure Gathered where
  event : Option String
  data : List String
  deriving DecidableEq, Repr

namespace Gathered

def nothing : Gathered := ⟨none, []⟩

/-- What stands before the first colon of a line. -/
def fieldName (line : List Char) : List Char :=
  line.takeWhile (· ≠ ':')

/-- What stands after the first colon of a line, less one blank. -/
def fieldValue (line : List Char) : String :=
  match (line.dropWhile (· ≠ ':')).drop 1 with
  | ' ' :: value => String.ofList value
  | value => String.ofList value

/-- One more line: comments and fields other than the two give nothing. -/
def add (gathered : Gathered) (line : List Char) : Gathered :=
  if line.head? = some ':' then gathered
  else if fieldName line = "event".toList then { gathered with event := some (fieldValue line) }
  else if fieldName line = "data".toList then
    { gathered with data := gathered.data ++ [fieldValue line] }
  else gathered

/-- The frame that an empty line makes of it, none if no line gave data. -/
def dispatch (gathered : Gathered) : Option Frame :=
  if gathered.data = [] then none else some ⟨gathered.event, Text.join "\n" gathered.data⟩

/-- The frames of lines, each of which loses one return at its end. -/
def readLines : Gathered -> List (List Char) -> List Frame
  | _, [] => []
  | gathered, line :: rest =>
      if Frame.dropReturn line = [] then gathered.dispatch.toList ++ readLines nothing rest
      else readLines (gathered.add (Frame.dropReturn line)) rest

/--
The frames of lines if an empty line counts after any line, which keeps its return then, and
a lone return counts only after a line with a return.
-/
def readPaired : Gathered -> List (List Char) -> List Frame
  | gathered, line :: next :: rest =>
      match lastBefore? line next with
      | some last => (gathered.add last).dispatch.toList ++ readPaired nothing rest
      | none => readPaired (gathered.add (Frame.dropReturn line)) (next :: rest)
  | _, _ => []

end Gathered

/-- The frames of a text by the rule of event streams. -/
def readText (text : String) : List Frame :=
  Gathered.readLines .nothing (endedLines text.toList).1

namespace Gathered

/-! ## The frame of a block is what its lines give -/

theorem takeWhile_of_cut {line name value : List Char}
    (h : Text.cut ':' line = some (name, value)) :
    fieldName line = name ∧ line.dropWhile (· ≠ ':') = ':' :: value := by
  obtain ⟨rfl, hfree⟩ := Text.cut_eq_some.1 h
  have hname := Text.forall_ne_of_not_mem hfree
  rw [fieldName, List.takeWhile_append_of_pos hname, List.dropWhile_append_of_pos hname]
  simp

theorem takeWhile_of_cut_none {line : List Char} (h : Text.cut ':' line = none) :
    fieldName line = line ∧ line.dropWhile (· ≠ ':') = [] := by
  have hname := Text.forall_ne_of_not_mem (Text.cut_eq_none.1 h)
  have htake : (line ++ []).takeWhile (· ≠ ':') = line ++ List.takeWhile (· ≠ ':') [] :=
    List.takeWhile_append_of_pos hname
  have hdrop : (line ++ []).dropWhile (· ≠ ':') = List.dropWhile (· ≠ ':') [] :=
    List.dropWhile_append_of_pos hname
  rw [List.append_nil] at htake hdrop
  exact ⟨by rw [fieldName, htake]; simp, hdrop⟩

theorem fieldValue_eq {line value : List Char}
    (h : (line.dropWhile (· ≠ ':')).drop 1 = value) :
    fieldValue line = String.ofList ((Text.dropStart? [' '] value).getD value) := by
  unfold fieldValue
  rw [h]
  split
  · simp [Text.dropStart?]
  · next hblank =>
      cases value with
      | nil => rfl
      | cons c value =>
          have hc : ' ' ≠ c := fun heq => hblank value (by rw [heq])
          simp [Text.dropStart?, hc]

/-- A line as the decoder takes it apart. -/
theorem lineOf_eq (line : List Char) :
    Frame.Line.of line =
      if fieldName line = "event".toList then .event (fieldValue line)
      else if fieldName line = "data".toList then .data (fieldValue line)
      else .other := by
  cases hcut : Text.cut ':' line with
  | none =>
      obtain ⟨hname, hrest⟩ := takeWhile_of_cut_none hcut
      have hvalue : fieldValue line = String.ofList ((Text.dropStart? [' '] []).getD []) :=
        fieldValue_eq (by rw [hrest]; rfl)
      rw [Frame.Line.of, hcut, hname, hvalue]
      rfl
  | some found =>
      obtain ⟨name, value⟩ := found
      obtain ⟨hname, hrest⟩ := takeWhile_of_cut hcut
      have hvalue : fieldValue line =
          String.ofList ((Text.dropStart? [' '] value).getD value) :=
        fieldValue_eq (by rw [hrest]; rfl)
      rw [Frame.Line.of, hcut, hname, hvalue]
      rfl

theorem add_eq (gathered : Gathered) (line : List Char) :
    gathered.add line =
      match Frame.Line.of line with
      | .event value => { gathered with event := some value }
      | .data value => { gathered with data := gathered.data ++ [value] }
      | .other => gathered := by
  rw [lineOf_eq, add]
  by_cases hcomment : line.head? = some ':'
  · obtain ⟨rest, rfl⟩ := List.head?_eq_some_iff.1 hcomment
    have hname : fieldName (':' :: rest) = [] := by simp [fieldName]
    simp [hname]
  · rw [if_neg hcomment]
    by_cases hevent : fieldName line = "event".toList
    · rw [if_pos hevent, if_pos hevent]
    · rw [if_neg hevent, if_neg hevent]
      by_cases hdata : fieldName line = "data".toList
      · rw [if_pos hdata, if_pos hdata]
      · rw [if_neg hdata, if_neg hdata]

/-- What lines give one after the other. -/
def addAll (gathered : Gathered) (lines : List (List Char)) : Gathered :=
  lines.foldl add gathered

theorem addAll_cons (gathered : Gathered) (line : List Char) (rest : List (List Char)) :
    gathered.addAll (line :: rest) = (gathered.add line).addAll rest := rfl

theorem add_nil (gathered : Gathered) : gathered.add [] = gathered := rfl

/-- What lines give adds to what has been gathered: the last event counts, the data add up. -/
theorem addAll_eq (gathered : Gathered) (lines : List (List Char)) :
    gathered.addAll lines =
      ⟨(((lines.map Frame.Line.of).filterMap Frame.Line.event?).getLast?).or gathered.event,
        gathered.data ++ (lines.map Frame.Line.of).filterMap Frame.Line.data?⟩ := by
  induction lines generalizing gathered with
  | nil =>
      simp [addAll]
  | cons line rest ih =>
      rw [addAll_cons, ih, add_eq, List.map_cons]
      cases Frame.Line.of line with
      | event value =>
          simp only [List.filterMap_cons, Frame.Line.event?, Frame.Line.data?, List.getLast?_cons]
          cases ((rest.map Frame.Line.of).filterMap Frame.Line.event?).getLast? <;> rfl
      | data value =>
          simp only [List.filterMap_cons, Frame.Line.event?, Frame.Line.data?, List.append_assoc,
            List.singleton_append]
      | other =>
          simp only [List.filterMap_cons, Frame.Line.event?, Frame.Line.data?]

/-- The frame of a block is the one that its lines give. -/
theorem frameOf_eq (init : List (List Char)) (last : List Char) :
    frameOf init last = ((nothing.addAll (init.map Frame.dropReturn)).add last).dispatch := by
  have hall : (nothing.addAll (init.map Frame.dropReturn)).add last =
      nothing.addAll (init.map Frame.dropReturn ++ [last]) := by
    simp [addAll]
  rw [hall, addAll_eq, frameOf, Frame.ofLines_eq]
  simp [dispatch, nothing]

/-! ## The decoder reads pairs of lines -/

theorem readPaired_of_firstBlock_none {lines : List (List Char)} (gathered : Gathered)
    (h : firstBlock lines = none) : gathered.readPaired lines = [] := by
  induction lines generalizing gathered with
  | nil => rfl
  | cons line lines ih =>
      cases lines with
      | nil => rfl
      | cons next rest =>
          cases hlast : lastBefore? line next with
          | some last =>
              simp [firstBlock_of_blank rest hlast] at h
          | none =>
              rw [firstBlock_of_open rest hlast, Option.map_eq_none_iff] at h
              simp only [readPaired, hlast]
              exact ih _ h

theorem readPaired_of_firstBlock {lines init rest : List (List Char)} {last : List Char}
    (gathered : Gathered) (h : firstBlock lines = some (init, last, rest)) :
    gathered.readPaired lines =
      ((gathered.addAll (init.map Frame.dropReturn)).add last).dispatch.toList ++
        nothing.readPaired rest := by
  induction lines generalizing gathered init with
  | nil => simp [firstBlock] at h
  | cons line lines ih =>
      cases lines with
      | nil => simp [firstBlock] at h
      | cons next more =>
          cases hlast : lastBefore? line next with
          | some found =>
              rw [firstBlock_of_blank more hlast] at h
              cases h
              simp only [readPaired, hlast]
              rfl
          | none =>
              rw [firstBlock_of_open more hlast] at h
              obtain ⟨⟨first, found⟩, hfound, heq⟩ := Option.map_eq_some_iff.1 h
              cases heq
              simp only [readPaired, hlast]
              exact ih _ hfound

theorem firstBlock_length {lines init rest : List (List Char)} {last : List Char}
    (h : firstBlock lines = some (init, last, rest)) : rest.length < lines.length := by
  induction lines generalizing init with
  | nil => simp [firstBlock] at h
  | cons line lines ih =>
      cases lines with
      | nil => simp [firstBlock] at h
      | cons next more =>
          cases hlast : lastBefore? line next with
          | some found =>
              rw [firstBlock_of_blank more hlast] at h
              cases h
              simp only [List.length_cons]
              omega
          | none =>
              rw [firstBlock_of_open more hlast] at h
              obtain ⟨⟨first, found⟩, hfound, heq⟩ := Option.map_eq_some_iff.1 h
              cases heq
              exact Nat.lt_succ_of_lt (ih hfound)

/-- What is decoded from the bytes of lines is what their pairs give. -/
theorem framesOf_lines {lines : List (List Char)} {tail : List Char} (hlines : FeedFree lines)
    (htail : '\n' ∉ tail) :
    framesOf (Text.Utf8.encode (withFeeds lines ++ tail)) =
      (nothing.readPaired lines).map .ok := by
  induction hlen : lines.length using Nat.strongRecOn generalizing lines with
  | ind n ih =>
      cases hfirst : firstBlock lines with
      | none =>
          rw [framesOf_of_firstBlock_none hlines htail hfirst,
            readPaired_of_firstBlock_none nothing hfirst]
          rfl
      | some found =>
          obtain ⟨init, last, rest⟩ := found
          have hshort : rest.length < n := hlen ▸ firstBlock_length hfirst
          have hrest := (feedFree_firstBlock hlines hfirst).2.2
          rw [(framesOf_of_firstBlock hlines htail hfirst).1,
            readPaired_of_firstBlock nothing hfirst, ih rest.length hshort hrest rfl,
            frameOf_eq, List.map_append]

/-! ## Where both readings agree -/

/-- A line that is empty but for a return. -/
def IsBlankLine (line : List Char) : Prop :=
  line = [] ∨ line = ['\r']

instance (line : List Char) : Decidable (IsBlankLine line) :=
  inferInstanceAs (Decidable (_ ∨ _))

/-- A blank line after a line that is not blank ends as that one does. -/
def EndsAlike (line next : List Char) : Prop :=
  ¬ IsBlankLine line → IsBlankLine next → (next = ['\r'] ↔ line.getLast? = some '\r')

instance (line next : List Char) : Decidable (EndsAlike line next) :=
  inferInstanceAs (Decidable (_ → _ → _))

theorem dropReturn_append (init : List Char) : Frame.dropReturn (init ++ ['\r']) = init := by
  simp [Frame.dropReturn]

theorem dropReturn_of_ne {line : List Char} (h : line.getLast? ≠ some '\r') :
    Frame.dropReturn line = line := by
  simp [Frame.dropReturn, h]

theorem dropReturn_eq_nil {line : List Char} : Frame.dropReturn line = [] ↔ IsBlankLine line := by
  by_cases hreturn : line.getLast? = some '\r'
  · obtain ⟨init, rfl⟩ := List.getLast?_eq_some_iff.1 hreturn
    rw [dropReturn_append, IsBlankLine]
    cases init <;> simp
  · have hne : line ≠ ['\r'] := fun heq => hreturn (by simp [heq])
    rw [dropReturn_of_ne hreturn, IsBlankLine]
    simp [hne]

theorem readLines_of_blank {line : List Char} (gathered : Gathered) (rest : List (List Char))
    (h : IsBlankLine line) :
    gathered.readLines (line :: rest) = gathered.dispatch.toList ++ nothing.readLines rest := by
  rw [readLines, if_pos (dropReturn_eq_nil.2 h)]

theorem readLines_of_not_blank {line : List Char} (gathered : Gathered)
    (rest : List (List Char)) (h : ¬ IsBlankLine line) :
    gathered.readLines (line :: rest) =
      (gathered.add (Frame.dropReturn line)).readLines rest := by
  rw [readLines, if_neg fun heq => h (dropReturn_eq_nil.1 heq)]

theorem isBlankLine_of_lastBefore {line next last : List Char}
    (h : lastBefore? line next = some last) : IsBlankLine next := by
  rcases lastBefore?_eq_some.1 h with ⟨rfl, _⟩ | ⟨rfl, _⟩
  · exact Or.inl rfl
  · exact Or.inr rfl

theorem add_of_blank {line : List Char} (gathered : Gathered) (h : IsBlankLine line) :
    gathered.add line = gathered := by
  rcases h with rfl | rfl <;> rfl

theorem isBlankLine_last {line next last : List Char} (hlast : lastBefore? line next = some last)
    (h : IsBlankLine line) : IsBlankLine last := by
  rcases lastBefore?_eq_some.1 hlast with ⟨_, rfl⟩ | ⟨_, rfl⟩
  · exact h
  · rcases h with hnil | hreturn
    · simp at hnil
    · exact Or.inl (by simpa using hreturn)

theorem last_eq_dropReturn {line next last : List Char}
    (hlast : lastBefore? line next = some last)
    (alike : next = ['\r'] ↔ line.getLast? = some '\r') : last = Frame.dropReturn line := by
  rcases lastBefore?_eq_some.1 hlast with ⟨rfl, rfl⟩ | ⟨_, rfl⟩
  · have hopen : last.getLast? ≠ some '\r' := fun hend => by simpa using alike.2 hend
    exact (dropReturn_of_ne hopen).symm
  · exact (dropReturn_append last).symm

/-- A line that ends no block and alike is not blank, or it follows a blank one. -/
theorem not_isBlankLine_next {line next : List Char} (hlast : lastBefore? line next = none)
    (h : ¬ IsBlankLine line) (alike : EndsAlike line next) : ¬ IsBlankLine next := by
  intro hblank
  obtain ⟨hempty, hreturn⟩ := lastBefore?_eq_none.1 hlast
  have hnext : next = ['\r'] := hblank.resolve_left hempty
  exact hreturn hnext ((alike h hblank).1 hnext)

/--
Where blank lines end as the lines before them do, it makes no difference whether lines are
read one by one or in pairs.  Blank lines after blank ones find nothing gathered.
-/
theorem readLines_eq_readPaired (gathered : Gathered) (lines : List (List Char))
    (alike : lines.IsChain EndsAlike)
    (fresh : ∀ line ∈ lines.head?, IsBlankLine line → gathered = nothing) :
    gathered.readLines lines = gathered.readPaired lines := by
  fun_induction readPaired gathered lines with
  | case1 gathered line next rest last hlast ih =>
      have hnext := isBlankLine_of_lastBefore hlast
      have htail : rest.IsChain EndsAlike := alike.tail.tail
      rw [← ih htail (fun _ _ _ => rfl)]
      by_cases hline : IsBlankLine line
      · have hlost := isBlankLine_last hlast hline
        rw [fresh line rfl hline, readLines_of_blank _ _ hline, readLines_of_blank _ _ hnext,
          add_of_blank _ hlost]
        rfl
      · have hends := (List.isChain_cons_cons.1 alike).1 hline hnext
        rw [readLines_of_not_blank _ _ hline, readLines_of_blank _ _ hnext,
          last_eq_dropReturn hlast hends]
  | case2 gathered line next rest hlast ih =>
      obtain ⟨hends, hrest⟩ := List.isChain_cons_cons.1 alike
      by_cases hline : IsBlankLine line
      · have hnothing : nothing.add (Frame.dropReturn line) = nothing := by
          rw [dropReturn_eq_nil.2 hline, add_nil]
        rw [fresh line rfl hline, hnothing] at ih ⊢
        rw [readLines_of_blank _ _ hline, ← ih hrest (fun _ _ _ => rfl)]
        rfl
      · have hnext := not_isBlankLine_next hlast hline hends
        rw [readLines_of_not_blank _ _ hline]
        refine ih hrest ?_
        rintro _ ⟨rfl⟩ hblank
        exact absurd hblank hnext
  | case3 lines gathered hshort =>
      match lines with
      | [] => rfl
      | [line] =>
          by_cases hline : IsBlankLine line
          · rw [fresh line rfl hline, readLines_of_blank _ _ hline]
            rfl
          · rw [readLines_of_not_blank _ _ hline]
            rfl
      | line :: next :: rest => exact absurd rfl (hshort line next rest)

end Gathered

open Gathered (EndsAlike)

/--
Any text whose bytes are given to a decoder: the frames are those that its lines give in
pairs.  They are the ones that its lines give one by one, as the rule of event streams has
it, if every blank line after another line ends as that line does; apart from that feeds,
and returns with feeds, may end the lines of one frame, and blank lines may come first, repeat
or find no data.
-/
theorem frames_by_lines (text : String) :
    let found := (Decoder.empty.push (Text.bytes text)).drain.1
    let lines := (endedLines text.toList).1
    found = (Gathered.nothing.readPaired lines).map .ok ∧
    (lines.IsChain EndsAlike → found = (readText text).map .ok) := by
  intro found lines
  obtain ⟨htext, hlines, htail⟩ := endedLines_spec text.toList
  have hfound : found = (Gathered.nothing.readPaired lines).map .ok := by
    have hbytes : Text.bytes text =
        Text.Utf8.encode (withFeeds lines ++ (endedLines text.toList).2) := by
      rw [Text.bytes, htext]
    show (Decoder.empty.push (Text.bytes text)).drain.1 = _
    rw [Decoder.drain_eq, Decoder.push, Decoder.empty, List.nil_append, hbytes]
    exact Gathered.framesOf_lines hlines htail
  refine ⟨hfound, ?_⟩
  intro alike
  rw [hfound, readText, Gathered.readLines_eq_readPaired .nothing lines alike (fun _ _ _ => rfl)]

/-- Both kinds of line endings within one frame, blank lines of both kinds, a return of its own. -/
theorem frames_by_lines_mixed :
    let text := "\r\n\n: ö\nevent: é\r\ndata: a\ndata:  b\r\ndata\n\n\r\ndata: x\r\r\n\r\n\n: c\n\n"
    (endedLines text.toList).1.IsChain EndsAlike ∧
    (Decoder.empty.push (Text.bytes text)).drain.1 = (readText text).map .ok ∧
    readText text = [⟨some "é", "a\n b\n"⟩, ⟨none, "x\r"⟩] := by
  intro text
  have alike : (endedLines text.toList).1.IsChain EndsAlike := by decide
  exact ⟨alike, (frames_by_lines text).2 alike, by decide⟩

/--
A blank line that does not end as the line before it does: one with a return after a line
without is overlooked, and one without after a line with a return leaves the line its return.
-/
theorem blank_line_of_other_kind :
    let found (text : String) := (Decoder.empty.push (Text.bytes text)).drain.1
    let merged := "data: a\n\r\ndata: b\n\n"
    let marked := "data: a\r\n\n"
    (found merged = [.ok ⟨none, "a\nb"⟩] ∧ readText merged = [⟨none, "a"⟩, ⟨none, "b"⟩] ∧
      found merged ≠ (readText merged).map .ok) ∧
    found marked = [.ok ⟨none, "a\r"⟩] ∧ readText marked = [⟨none, "a"⟩] ∧
      found marked ≠ (readText marked).map .ok := by
  decide +kernel

end Stream

end ChatGateway
