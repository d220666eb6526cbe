import ChatGateway.Proofs.Lines

/-!
# Blank lines among lines

A text is its lines, each ended by a feed, and what follows the last feed.  Seen so, a block
ends at the first line that is empty, or that is a lone return after a line with a return at
its end; the block is the lines before it.
-/

namespace ChatGateway

namespace Stream

/-! ## The lines of a text -/

/-- A character before the lines of a text. -/
def beforeLines (c : Char) : List (List Char) × List Char -> List (List Char) × List Char
  | ([], tail) => ([], c :: tail)
  | (line :: lines, tail) => ((c :: line) :: lines, tail)

/-- The lines that a feed ends, without it, and what follows the last of them. -/
def endedLines : List Char -> List (List Char) × List Char
  | [] => ([], [])
  | c :: rest =>
      if c = '\n' then ([] :: (endedLines rest).1, (endedLines rest).2)
      else beforeLines c (endedLines rest)

/-- The lines with a feed after each. -/
def withFeeds (lines : List (List Char)) : List Char :=
  lines.flatMap (· ++ ['\n'])

@[simp] theorem withFeeds_nil : withFeeds [] = [] := rfl

@[simp] theorem withFeeds_cons (line : List Char) (lines : List (List Char)) :
    withFeeds (line :: lines) = line ++ '\n' :: withFeeds lines := by
  simp [withFeeds]

/-- No line holds a feed. -/
def FeedFree (lines : List (List Char)) : Prop :=
  ∀ line ∈ lines, '\n' ∉ line

theorem feedFree_cons {line : List Char} {lines : List (List Char)} :
    FeedFree (line :: lines) ↔ '\n' ∉ line ∧ FeedFree lines := by
  simp [FeedFree]

theorem feedFree_append {first second : List (List Char)} :
    FeedFree (first ++ second) ↔ FeedFree first ∧ FeedFree second := by
  simp [FeedFree, or_imp, forall_and]

theorem beforeLines_spec {c : Char} {found : List (List Char) × List Char} (hc : c ≠ '\n')
    (hlines : FeedFree found.1) (htail : '\n' ∉ found.2) :
    withFeeds (beforeLines c found).1 ++ (beforeLines c found).2 =
        c :: (withFeeds found.1 ++ found.2) ∧
      FeedFree (beforeLines c found).1 ∧ '\n' ∉ (beforeLines c found).2 := by
  obtain ⟨lines, tail⟩ := found
  cases lines with
  | nil =>
      exact ⟨rfl, hlines, by simp [beforeLines, htail, Ne.symm hc]⟩
  | cons line lines =>
      obtain ⟨hline, hrest⟩ := feedFree_cons.1 hlines
      exact ⟨by simp [beforeLines],
        feedFree_cons.2 ⟨by simp [hline, Ne.symm hc], hrest⟩, htail⟩

/-- A text is made of its lines, and these hold no feed. -/
theorem endedLines_spec (text : List Char) :
    withFeeds (endedLines text).1 ++ (endedLines text).2 = text ∧
      FeedFree (endedLines text).1 ∧ '\n' ∉ (endedLines text).2 := by
  induction text with
  | nil =>
      simp [endedLines, FeedFree]
  | cons c rest ih =>
      obtain ⟨hrest, hlines, htail⟩ := ih
      by_cases hc : c = '\n'
      · simp [endedLines, hc, hrest, feedFree_cons, hlines, htail]
      · have hspec := beforeLines_spec hc hlines htail
        rw [hrest] at hspec
        simpa only [endedLines, hc, if_false] using hspec

/-! ## The bytes of one line -/

/-- No blank line begins at a byte that is neither a feed nor the return before one. -/
theorem afterBlankLine?_of_letter {byte : UInt8} {rest : List UInt8} (hfeed : byte ≠ 0x0A)
    (hreturn : ¬ [0x0A, 0x0D, 0x0A] <+: rest ∨ byte ≠ 0x0D) :
    afterBlankLine? (byte :: rest) = none := by
  rw [Option.eq_none_iff_forall_ne_some]
  intro after hafter
  rcases afterBlankLine?_eq_some.1 hafter with heq | heq
  · simp only [List.cons_append, List.cons.injEq] at heq
    exact hfeed heq.1
  · simp only [List.cons_append, List.nil_append, List.cons.injEq] at heq
    rcases hreturn with hrest | hbyte
    · exact hrest ⟨after, heq.2.symm⟩
    · exact hbyte heq.1

/-- A line, a return and a feed, and a blank line of the same kind. -/
theorem splitBlock_returns {line : List UInt8} (rest : List UInt8) (h : 0x0A ∉ line) :
    splitBlock (line ++ [0x0D, 0x0A, 0x0D, 0x0A] ++ rest) = some (line, rest) := by
  induction line with
  | nil =>
      exact splitBlock_of_blank rfl
  | cons byte line ih =>
      simp only [List.mem_cons, not_or] at h
      have hblank :
          afterBlankLine? (byte :: (line ++ [0x0D, 0x0A, 0x0D, 0x0A] ++ rest)) = none := by
        refine afterBlankLine?_of_letter (Ne.symm h.1) (Or.inl ?_)
        cases line with
        | nil => simp
        | cons second line =>
            simp only [List.mem_cons, not_or] at h
            simp [List.cons_prefix_cons, h.2.1]
      rw [List.cons_append, List.cons_append, splitBlock_of_not_blank hblank, ih h.2]
      rfl

/-- A line and its feed stay in the block if what follows makes no blank line after it. -/
theorem splitBlock_of_open {line : List UInt8} (more : List UInt8) (h : 0x0A ∉ line)
    (hfeed : ¬ [0x0A] <+: more) (hreturn : line.getLast? = some 0x0D → ¬ [0x0D, 0x0A] <+: more) :
    splitBlock (line ++ 0x0A :: more) =
      (splitBlock more).map fun found => (line ++ 0x0A :: found.1, found.2) := by
  induction line with
  | nil =>
      have hblank : afterBlankLine? (0x0A :: more) = none := by
        rw [Option.eq_none_iff_forall_ne_some]
        intro after hafter
        rcases afterBlankLine?_eq_some.1 hafter with heq | heq
        · simp only [List.cons_append, List.nil_append, List.cons.injEq, true_and] at heq
          exact hfeed ⟨after, heq.symm⟩
        · simp at heq
      rw [List.nil_append, splitBlock_of_not_blank hblank]
      rfl
  | cons byte line ih =>
      simp only [List.mem_cons, not_or] at h
      have hblank : afterBlankLine? (byte :: (line ++ 0x0A :: more)) = none := by
        refine afterBlankLine?_of_letter (Ne.symm h.1) ?_
        cases line with
        | nil =>
            by_cases hbyte : byte = 0x0D
            · exact Or.inl (by simpa using hreturn (by simp [hbyte]))
            · exact Or.inr hbyte
        | cons second line =>
            simp only [List.mem_cons, not_or] at h
            exact Or.inl (by simp [List.cons_prefix_cons, h.2.1])
      have hlast : line.getLast? = some 0x0D → ¬ [0x0D, 0x0A] <+: more := by
        intro hend
        refine hreturn ?_
        cases line with
        | nil => cases hend
        | cons second line => simpa using hend
      rw [List.cons_append, splitBlock_of_not_blank hblank, ih h.2 hlast, Option.map_map]
      rfl

/-! ## The first block -/

/--
The last line of a block as it stands there, if the line `next` ends the block: an empty line
leaves the line before it as it is, and a lone return takes the return off it.
-/
def lastBefore? (line next : List Char) : Option (List Char) :=
  if next = [] then some line
  else if next = ['\r'] ∧ line.getLast? = some '\r' then some line.dropLast
  else none

theorem lastBefore?_eq_some {line next last : List Char} :
    lastBefore? line next = some last ↔
      (next = [] ∧ last = line) ∨ (next = ['\r'] ∧ line = last ++ ['\r']) := by
  unfold lastBefore?
  by_cases hempty : next = []
  · simp [hempty, eq_comm]
  · by_cases hreturn : next = ['\r'] ∧ line.getLast? = some '\r'
    · obtain ⟨init, hline⟩ := List.getLast?_eq_some_iff.1 hreturn.2
      simp [hreturn.1, hline, eq_comm]
    · simp only [hempty, hreturn, if_false, false_and, false_or, reduceCtorEq, false_iff]
      rintro ⟨hnext, rfl⟩
      exact hreturn ⟨hnext, by simp⟩

theorem lastBefore?_eq_none {line next : List Char} :
    lastBefore? line next = none ↔
      next ≠ [] ∧ (next = ['\r'] → line.getLast? ≠ some '\r') := by
  unfold lastBefore?
  by_cases hempty : next = []
  · simp [hempty]
  · simp [hempty]

/-- The lines of the first block but the last, the last one, and the lines after the blank one. -/
def firstBlock : List (List Char) -> Option (List (List Char) × List Char × List (List Char))
  | line :: next :: rest =>
      match lastBefore? line next with
      | some last => some ([], last, rest)
      | none => (firstBlock (next :: rest)).map fun found => (line :: found.1, found.2)
  | _ => none

theorem firstBlock_of_blank {line next last : List Char} (rest : List (List Char))
    (h : lastBefore? line next = some last) :
    firstBlock (line :: next :: rest) = some ([], last, rest) := by
  simp [firstBlock, h]

theorem firstBlock_of_open {line next : List Char} (rest : List (List Char))
    (h : lastBefore? line next = none) :
    firstBlock (line :: next :: rest) =
      (firstBlock (next :: rest)).map fun found => (line :: found.1, found.2) := by
  simp [firstBlock, h]

theorem eq_return_of_mem_encodeChar {c : Char} (h : 0x0D ∈ Text.Utf8.encodeChar c) : c = '\r' := by
  rcases Text.Utf8.toNat_of_mem_encodeChar h with heq | hhigh
  · rw [← Char.ofNat_toNat c, ← heq]
    rfl
  · exact absurd hhigh (by decide)

theorem encodeChar_ne_nil (c : Char) : Text.Utf8.encodeChar c ≠ [] := by
  unfold Text.Utf8.encodeChar
  simp only
  split
  · simp
  · split
    · simp
    · split <;> simp

theorem getLast?_encode {line : List Char}
    (h : (Text.Utf8.encode line).getLast? = some 0x0D) : line.getLast? = some '\r' := by
  rcases List.eq_nil_or_concat line with rfl | ⟨init, c, rfl⟩
  · simp at h
  · rw [List.concat_eq_append] at h ⊢
    have hlast := List.getLast?_eq_some_getLast (encodeChar_ne_nil c)
    rw [Text.Utf8.encode_append, Text.Utf8.encode_cons, Text.Utf8.encode_nil, List.append_nil,
      List.getLast?_append, hlast, Option.some_or, ← hlast] at h
    simp [eq_return_of_mem_encodeChar (List.mem_of_getLast? h)]

/-- A line of which the bytes begin with a feed, its own being taken along, is empty. -/
theorem eq_nil_of_feed_first {line : List Char} {more : List UInt8} (h : '\n' ∉ line)
    (hfront : [0x0A] <+: Text.Utf8.encode line ++ 0x0A :: more) : line = [] := by
  cases line with
  | nil => rfl
  | cons c line =>
      exfalso
      cases hbytes : Text.Utf8.encode (c :: line) with
      | nil =>
          simp [encodeChar_ne_nil] at hbytes
      | cons byte bytes =>
          have hmem : 0x0A ∉ byte :: bytes := hbytes ▸ feed_not_mem_encode h
          rw [hbytes, List.cons_append, List.cons_prefix_cons] at hfront
          exact hmem (hfront.1 ▸ List.mem_cons_self)

theorem eq_return_of_first {line : List Char} {more : List UInt8} (h : '\n' ∉ line)
    (hfront : [0x0D, 0x0A] <+: Text.Utf8.encode line ++ 0x0A :: more) : line = ['\r'] := by
  cases line with
  | nil =>
      simp at hfront
  | cons c line =>
      simp only [List.mem_cons, not_or] at h
      cases hbytes : Text.Utf8.encodeChar c with
      | nil =>
          exact absurd hbytes (encodeChar_ne_nil c)
      | cons byte bytes =>
          rw [Text.Utf8.encode_cons, hbytes, List.cons_append, List.cons_append,
            List.cons_prefix_cons] at hfront
          have hc : c = '\r' :=
            eq_return_of_mem_encodeChar (by rw [hbytes, ← hfront.1]; exact List.mem_cons_self)
          have hnone : bytes = [] := by
            subst hc
            have hone : Text.Utf8.encodeChar '\r' = [0x0D] := by decide
            rw [hone] at hbytes
            exact (List.cons.inj hbytes).2.symm
          rw [hnone, List.nil_append] at hfront
          rw [hc, eq_nil_of_feed_first h.2 hfront.2]

theorem splitBlock_of_not_mem {input : List UInt8} (h : 0x0A ∉ input) :
    splitBlock input = none := by
  rw [Option.eq_none_iff_forall_ne_some]
  intro found hfound
  obtain ⟨blank, hkind, rfl⟩ := splitBlock_sound hfound
  rcases hkind with rfl | rfl <;> simp at h

theorem encodeChar_feed : Text.Utf8.encodeChar '\n' = [0x0A] := by decide

theorem encodeChar_return : Text.Utf8.encodeChar '\r' = [0x0D] := by decide

theorem encode_withFeeds_cons (line : List Char) (lines : List (List Char)) (tail : List Char) :
    Text.Utf8.encode (withFeeds (line :: lines) ++ tail) =
      Text.Utf8.encode line ++ 0x0A :: Text.Utf8.encode (withFeeds lines ++ tail) := by
  simp [encodeChar_feed]

theorem splitBlock_of_lastBefore {line next last : List Char} (rest : List UInt8)
    (hline : '\n' ∉ line) (h : lastBefore? line next = some last) :
    splitBlock (Text.Utf8.encode line ++ 0x0A :: (Text.Utf8.encode next ++ 0x0A :: rest)) =
      some (Text.Utf8.encode last, rest) := by
  rcases lastBefore?_eq_some.1 h with ⟨rfl, rfl⟩ | ⟨rfl, rfl⟩
  · have hsplit := splitBlock_line rest (feed_not_mem_encode hline)
    simpa using hsplit
  · have hlast : '\n' ∉ last := fun hmem => hline (by simp [hmem])
    have hsplit := splitBlock_returns rest (feed_not_mem_encode hlast)
    simpa [encodeChar_return] using hsplit

theorem splitBlock_of_lastBefore_none {line next : List Char} (rest : List UInt8)
    (hline : '\n' ∉ line) (hnext : '\n' ∉ next) (h : lastBefore? line next = none) :
    splitBlock (Text.Utf8.encode line ++ 0x0A :: (Text.Utf8.encode next ++ 0x0A :: rest)) =
      (splitBlock (Text.Utf8.encode next ++ 0x0A :: rest)).map fun found =>
        (Text.Utf8.encode line ++ 0x0A :: found.1, found.2) := by
  obtain ⟨hempty, hreturn⟩ := lastBefore?_eq_none.1 h
  refine splitBlock_of_open _ (feed_not_mem_encode hline) ?_ ?_
  · intro hfront
    exact hempty (eq_nil_of_feed_first hnext hfront)
  · intro hend hfront
    exact hreturn (eq_return_of_first hnext hfront) (getLast?_encode hend)

/-- Cutting the bytes of lines at the first blank line is taking the first block of the lines. -/
theorem splitBlock_lines {lines : List (List Char)} {tail : List Char} (hlines : FeedFree lines)
    (htail : '\n' ∉ tail) :
    splitBlock (Text.Utf8.encode (withFeeds lines ++ tail)) =
      (firstBlock lines).map fun found =>
        (Text.Utf8.encode (withFeeds found.1 ++ found.2.1),
          Text.Utf8.encode (withFeeds found.2.2 ++ tail)) := by
  have hend : 0x0A ∉ Text.Utf8.encode tail := feed_not_mem_encode htail
  induction lines with
  | nil =>
      exact splitBlock_of_not_mem hend
  | cons line lines ih =>
      obtain ⟨hline, hrest⟩ := feedFree_cons.1 hlines
      rw [encode_withFeeds_cons]
      cases lines with
      | nil =>
          have hnone (start : List UInt8) (hmem : 0x0A ∈ start) :
              ¬ start <+: Text.Utf8.encode tail :=
            fun hfront => hend (hfront.subset hmem)
          rw [withFeeds_nil, List.nil_append, splitBlock_of_open _ (feed_not_mem_encode hline)
            (hnone _ (by simp)) (fun _ => hnone _ (by simp)), splitBlock_of_not_mem hend]
          rfl
      | cons next rest =>
          have hnext := (feedFree_cons.1 hrest).1
          cases hlast : lastBefore? line next with
          | some last =>
              rw [encode_withFeeds_cons, splitBlock_of_lastBefore _ hline hlast,
                firstBlock_of_blank rest hlast]
              rfl
          | none =>
              have ihlines := ih hrest
              rw [encode_withFeeds_cons] at ihlines ⊢
              rw [splitBlock_of_lastBefore_none _ hline hnext hlast, ihlines,
                firstBlock_of_open rest hlast, Option.map_map, Option.map_map]
              congr 1
              funext found
              simp [encodeChar_feed]

/-! ## The frame of a block -/

theorem splitFrom_mark {mark : Char} {line : List Char} (part rest : List Char)
    (parts : List (List Char)) (h : mark ∉ line) :
    Text.splitFrom mark part parts (line ++ mark :: rest) =
      Text.splitFrom mark [] ((line.reverse ++ part).reverse :: parts) rest := by
  induction line generalizing part with
  | nil =>
      simp [Text.splitFrom]
  | cons c line ih =>
      simp only [List.mem_cons, not_or] at h
      rw [List.cons_append, Text.splitFrom, if_neg (Ne.symm h.1), ih _ h.2]
      simp

theorem splitAll_withFeeds {lines : List (List Char)} {last : List Char}
    (hlines : FeedFree lines) (hlast : '\n' ∉ last) :
    Text.splitAll '\n' (withFeeds lines ++ last) = lines ++ [last] := by
  suffices hparts : ∀ parts, Text.splitFrom '\n' [] parts (withFeeds lines ++ last) =
      parts.reverse ++ (lines ++ [last]) from hparts []
  induction lines with
  | nil =>
      intro parts
      simp [splitFrom_of_not_mem [] parts hlast]
  | cons line lines ih =>
      obtain ⟨hline, hrest⟩ := feedFree_cons.1 hlines
      intro parts
      rw [withFeeds_cons, List.append_assoc, List.cons_append, splitFrom_mark _ _ _ hline, ih hrest]
      simp

namespace Frame

theorem lines_withFeeds {init : List (List Char)} {last : List Char} (hinit : FeedFree init)
    (hlast : '\n' ∉ last) :
    lines (withFeeds init ++ last) =
      init.map dropReturn ++ (if last.isEmpty then [] else [last]) := by
  simp [lines, splitAll_withFeeds hinit hlast]

def Line.event? : Line -> Option String
  | .event value => some value
  | _ => none

def Line.data? : Line -> Option String
  | .data value => some value
  | _ => none

theorem ofLines_eq (lines : List Line) :
    ofLines lines =
      if lines.filterMap Line.data? = [] then none
      else some ⟨(lines.filterMap Line.event?).getLast?,
        Text.join "\n" (lines.filterMap Line.data?)⟩ := by
  simp only [← List.isEmpty_iff]
  rfl

theorem Line.of_nil : Line.of [] = .other := by decide

/-- An empty line says nothing, whether it is counted as a line or not. -/
theorem ofLines_append_other (before : List Line) :
    ofLines (before ++ [.other]) = ofLines before := by
  have hdata : [Line.other].filterMap Line.data? = [] := rfl
  have hevent : [Line.other].filterMap Line.event? = [] := rfl
  rw [ofLines_eq, ofLines_eq, List.filterMap_append, List.filterMap_append, hdata, hevent,
    List.append_nil, List.append_nil]

theorem ofText_withFeeds {init : List (List Char)} {last : List Char} (hinit : FeedFree init)
    (hlast : '\n' ∉ last) :
    ofText (String.ofList (withFeeds init ++ last)) =
      ofLines ((init.map dropReturn ++ [last]).map Line.of) := by
  rw [ofText, String.toList_ofList, lines_withFeeds hinit hlast]
  cases last with
  | nil => simp [Line.of_nil, ofLines_append_other]
  | cons c last => rfl

end Frame

/-- What the lines of a block say; the last one stands as it is before the blank line. -/
def frameOf (init : List (List Char)) (last : List Char) : Option Frame :=
  Frame.ofLines ((init.map Frame.dropReturn ++ [last]).map Frame.Line.of)

theorem readBlock_withFeeds {init : List (List Char)} {last : List Char} (hinit : FeedFree init)
    (hlast : '\n' ∉ last) :
    readBlock (Text.Utf8.encode (withFeeds init ++ last)) = (frameOf init last).map .ok := by
  rw [readBlock, Text.Utf8.decode?_encode]
  simp only [Frame.ofText_withFeeds hinit hlast, frameOf]

theorem feedFree_firstBlock {lines init rest : List (List Char)} {last : List Char}
    (hlines : FeedFree lines) (h : firstBlock lines = some (init, last, rest)) :
    FeedFree init ∧ '\n' ∉ last ∧ FeedFree rest := by
  induction lines generalizing init with
  | nil => simp [firstBlock] at h
  | cons line lines ih =>
      obtain ⟨hline, hmore⟩ := feedFree_cons.1 hlines
      cases lines with
      | nil => simp [firstBlock] at h
      | cons next more =>
          cases hlast : lastBefore? line next with
          | some found =>
              rw [firstBlock_of_blank more hlast] at h
              cases h
              refine ⟨by simp [FeedFree], ?_, (feedFree_cons.1 hmore).2⟩
              rcases lastBefore?_eq_some.1 hlast with ⟨_, rfl⟩ | ⟨_, rfl⟩
              · exact hline
              · exact fun hmem => hline (by simp [hmem])
          | none =>
              rw [firstBlock_of_open more hlast] at h
              obtain ⟨⟨first, found⟩, hfound, heq⟩ := Option.map_eq_some_iff.1 h
              cases heq
              obtain ⟨hinit, hrest⟩ := ih hmore hfound
              exact ⟨feedFree_cons.2 ⟨hline, hinit⟩, hrest⟩

/-- The first block of the lines is the first one that is decoded, and the rest goes on. -/
theorem framesOf_of_firstBlock {lines init rest : List (List Char)} {last tail : List Char}
    (hlines : FeedFree lines) (htail : '\n' ∉ tail)
    (h : firstBlock lines = some (init, last, rest)) :
    framesOf (Text.Utf8.encode (withFeeds lines ++ tail)) =
        (frameOf init last).toList.map .ok ++
          framesOf (Text.Utf8.encode (withFeeds rest ++ tail)) ∧
      remainder (Text.Utf8.encode (withFeeds lines ++ tail)) =
        remainder (Text.Utf8.encode (withFeeds rest ++ tail)) := by
  obtain ⟨hinit, hlast, _⟩ := feedFree_firstBlock hlines h
  have hsplit := splitBlock_lines hlines htail
  rw [h, Option.map_some] at hsplit
  refine ⟨?_, ?_⟩
  · rw [framesOf, blocks_of_some hsplit, List.filterMap_cons,
      readBlock_withFeeds hinit hlast, framesOf]
    cases frameOf init last <;> rfl
  · rw [remainder, blocks_of_some hsplit, remainder]

theorem framesOf_of_firstBlock_none {lines : List (List Char)} {tail : List Char}
    (hlines : FeedFree lines) (htail : '\n' ∉ tail) (h : firstBlock lines = none) :
    framesOf (Text.Utf8.encode (withFeeds lines ++ tail)) = [] := by
  have hsplit := splitBlock_lines hlines htail
  rw [h, Option.map_none] at hsplit
  rw [framesOf, blocks_of_none hsplit]
  rfl

end Stream

end ChatGateway
