import ChatGateway.Proofs.Framing
import ChatGateway.Proofs.Utf8Strict
import Mathlib.Data.List.ReduceOption

/-!
# Any order of pushes and reads

A decoder may be asked for a frame at any time, also while it has none.  Each call takes complete
blocks off the front of what is held, up to the first one that says something, so the calls of a
script and the draining after it find what draining all its bytes at once finds.  A block that is
no text costs one failure, and the blocks around it are read as they would be without it.
-/

namespace ChatGateway

namespace Stream

/-! ## Blank lines -/

/-- The blank lines that end a block: of two feeds, or of two pairs of a return and a feed. -/
def blankLines : List (List UInt8) := [[0x0A, 0x0A], [0x0D, 0x0A, 0x0D, 0x0A]]

def HasBlankLine (bytes : List UInt8) : Prop :=
  ∃ blank ∈ blankLines, blank <:+: bytes

theorem mem_blankLines {blank : List UInt8} :
    blank ∈ blankLines ↔ blank = [0x0A, 0x0A] ∨ blank = [0x0D, 0x0A, 0x0D, 0x0A] := by
  simp [blankLines]

theorem HasBlankLine.append {bytes : List UInt8} (h : HasBlankLine bytes) (rest : List UInt8) :
    HasBlankLine (bytes ++ rest) := by
  obtain ⟨blank, hblank, hinfix⟩ := h
  exact ⟨blank, hblank, hinfix.trans (List.infix_append' [] bytes rest)⟩

theorem hasBlankLine_ending (block : List UInt8) {blank : List UInt8} (h : blank ∈ blankLines) :
    HasBlankLine (block ++ blank) :=
  ⟨blank, h, (List.suffix_append block blank).isInfix⟩

theorem splitBlock_ne_none {input : List UInt8} (h : HasBlankLine input) :
    splitBlock input ≠ none := by
  obtain ⟨blank, hblank, hinfix⟩ := h
  induction input with
  | nil =>
      have hempty := List.infix_nil.1 hinfix
      rcases mem_blankLines.1 hblank with rfl | rfl <;> cases hempty
  | cons byte tail ih =>
      cases hfront : afterBlankLine? (byte :: tail) with
      | some after => simp [splitBlock_of_blank hfront]
      | none =>
          rcases List.infix_cons_iff.1 hinfix with ⟨after, hafter⟩ | htail
          · have hfound : afterBlankLine? (byte :: tail) = some after := by
              rw [afterBlankLine?_eq_some, ← hafter]
              exact (mem_blankLines.1 hblank).imp (fun heq => by rw [heq]) fun heq => by rw [heq]
            rw [hfront] at hfound
            cases hfound
          · simp [splitBlock_of_not_blank hfront, ih htail]

/-- The decoder finds a block exactly where there is a blank line. -/
theorem splitBlock_eq_none {input : List UInt8} :
    splitBlock input = none ↔ ¬ HasBlankLine input := by
  refine ⟨fun h hblank => splitBlock_ne_none hblank h, fun h => ?_⟩
  cases hsplit : splitBlock input with
  | none => rfl
  | some found =>
      obtain ⟨blank, hkind, heq⟩ := splitBlock_sound hsplit
      rw [heq] at h
      exact absurd ((hasBlankLine_ending _ (mem_blankLines.2 hkind)).append _) h

/-! ## Complete blocks -/

/-- A block and the blank line after it. -/
structure Piece where
  block : List UInt8
  blank : List UInt8

namespace Piece

def bytes (piece : Piece) : List UInt8 := piece.block ++ piece.blank

/-- The blank line ends the piece, and the piece holds none before that. -/
structure Complete (piece : Piece) : Prop where
  blank : piece.blank ∈ blankLines
  first : ∀ part, part <+: piece.bytes → HasBlankLine part → part = piece.bytes

/-- What the piece says by itself: a frame, a failure, or nothing. -/
def said? (piece : Piece) : Option (Except Failure Frame) :=
  readBlock piece.block

/-- The block is in no text's UTF-8. -/
def IsNoText (piece : Piece) : Prop :=
  ∀ text : String, piece.block ≠ Text.bytes text

theorem isNoText_iff {piece : Piece} :
    piece.IsNoText ↔ Text.Utf8.decode? piece.block = none := by
  rw [Option.eq_none_iff_forall_ne_some]
  exact forall_congr' fun text => not_congr Text.decode?_eq_some.symm

instance (piece : Piece) : Decidable piece.IsNoText :=
  decidable_of_iff _ isNoText_iff.symm

/-- A block that is no text says one failure, whatever stands around it. -/
theorem said?_of_noText {piece : Piece} (h : piece.IsNoText) :
    piece.said? = some (.error
      (.malformedStream ("frame is not UTF-8: " ++ Text.Utf8.fault piece.block))) := by
  rw [said?, readBlock, isNoText_iff.1 h]

/-- The two blank lines are no ends of each other, so a piece's bytes tell its block. -/
theorem block_eq_of_bytes_eq {piece other : Piece} (hpiece : piece.blank ∈ blankLines)
    (hother : other.blank ∈ blankLines) (h : piece.bytes = other.bytes) :
    piece.block = other.block := by
  have hends := congrArg List.reverse h
  simp only [bytes, List.reverse_append] at hends
  rcases mem_blankLines.1 hpiece with hblank | hblank <;>
    rcases mem_blankLines.1 hother with hblank' | hblank' <;>
    simp only [hblank, hblank'] at hends
  · exact List.reverse_injective (List.append_cancel_left hends)
  · cases hends
  · cases hends
  · exact List.reverse_injective (List.append_cancel_left hends)

/-- The decoder takes a complete piece off whole. -/
theorem Complete.splitBlock {piece : Piece} (h : piece.Complete) :
    Stream.splitBlock piece.bytes = some (piece.block, []) := by
  obtain ⟨⟨block, rest⟩, hsplit⟩ :=
    Option.ne_none_iff_exists'.1 (splitBlock_ne_none (hasBlankLine_ending piece.block h.blank))
  obtain ⟨blank, hkind, heq⟩ := splitBlock_sound hsplit
  have hblank := mem_blankLines.2 hkind
  have hwhole : block ++ blank = piece.bytes :=
    h.first _ ⟨rest, heq.symm⟩ (hasBlankLine_ending _ hblank)
  have hblock := @block_eq_of_bytes_eq piece ⟨block, blank⟩ h.blank hblank hwhole.symm
  have hrest : rest = [] := by
    rw [← bytes, ← hwhole] at heq
    exact List.append_right_eq_self.1 heq.symm
  rw [bytes, hsplit, hblock, hrest]

/-- What the decoder takes off the front is a complete piece. -/
theorem complete_of_splitBlock {piece : Piece} {rest : List UInt8}
    (hblank : piece.blank ∈ blankLines)
    (h : Stream.splitBlock (piece.bytes ++ rest) = some (piece.block, rest)) : piece.Complete := by
  refine ⟨hblank, fun part hpart hpartBlank => ?_⟩
  obtain ⟨more, hmore⟩ := hpart
  obtain ⟨⟨first, left⟩, hsplit⟩ := Option.ne_none_iff_exists'.1 (splitBlock_ne_none hpartBlank)
  -- The block of the part is the first one of the whole, so nothing can follow the part.
  have hwhole := splitBlock_append (more ++ rest) hsplit
  rw [← List.append_assoc, hmore, h, Option.some.injEq, Prod.mk.injEq] at hwhole
  have hnone : more = [] := by
    have hlengths := congrArg List.length hwhole.2
    simp only [List.length_append] at hlengths
    exact List.length_eq_zero_iff.1 (by omega)
  rw [← hmore, hnone, List.append_nil]

theorem complete_iff {piece : Piece} :
    piece.Complete ↔
      piece.blank ∈ blankLines ∧ Stream.splitBlock piece.bytes = some (piece.block, []) := by
  refine ⟨fun h => ⟨h.blank, h.splitBlock⟩, fun ⟨hblank, h⟩ => ?_⟩
  rw [← List.append_nil piece.bytes] at h
  exact complete_of_splitBlock hblank h

instance (piece : Piece) : Decidable piece.Complete :=
  decidable_of_iff _ complete_iff.symm

theorem exists_complete {input block rest : List UInt8}
    (h : Stream.splitBlock input = some (block, rest)) :
    ∃ piece : Piece, piece.Complete ∧ piece.block = block ∧ input = piece.bytes ++ rest := by
  obtain ⟨blank, hkind, rfl⟩ := splitBlock_sound h
  exact ⟨⟨block, blank⟩, complete_of_splitBlock (mem_blankLines.2 hkind) h, rfl, rfl⟩

end Piece

/-- The bytes of pieces one after the other. -/
def joined (pieces : List Piece) : List UInt8 :=
  pieces.flatMap Piece.bytes

@[simp] theorem joined_nil : joined [] = [] := rfl

@[simp] theorem joined_cons (piece : Piece) (pieces : List Piece) :
    joined (piece :: pieces) = piece.bytes ++ joined pieces := rfl

@[simp] theorem joined_append (first second : List Piece) :
    joined (first ++ second) = joined first ++ joined second :=
  List.flatMap_append

/-- Complete pieces are decoded one by one, each as if it were alone. -/
theorem framesOf_pieces {pieces : List Piece} (h : ∀ piece ∈ pieces, piece.Complete)
    (rest : List UInt8) :
    framesOf (joined pieces ++ rest) = pieces.filterMap Piece.said? ++ framesOf rest ∧
      remainder (joined pieces ++ rest) = remainder rest := by
  induction pieces with
  | nil => exact ⟨rfl, rfl⟩
  | cons piece pieces ih =>
      obtain ⟨hframes, hrest⟩ := ih fun other hother => h other (List.mem_cons_of_mem _ hother)
      have hpiece := (h piece List.mem_cons_self).splitBlock
      rw [joined_cons, List.append_assoc, (framesOf_complete hpiece _).1,
        (framesOf_complete hpiece _).2, hframes, hrest]
      refine ⟨?_, rfl⟩
      rw [List.filterMap_cons, Piece.said?]
      cases readBlock piece.block <;> rfl

theorem framesOf_between {before : List Piece} (h : ∀ piece ∈ before, piece.Complete)
    (rest : List UInt8) :
    framesOf (joined before ++ rest) = framesOf (joined before) ++ framesOf rest := by
  have halone := (framesOf_pieces h []).1
  rw [List.append_nil, framesOf_nil, List.append_nil] at halone
  rw [(framesOf_pieces h rest).1, halone]

/-- A piece that is no text is one failure among the frames around it. -/
theorem framesOf_noText {bad : Piece} (hbad : bad.Complete) (hnoText : bad.IsNoText)
    (rest : List UInt8) :
    framesOf (bad.bytes ++ rest) = .error
        (.malformedStream ("frame is not UTF-8: " ++ Text.Utf8.fault bad.block)) ::
          framesOf rest ∧
      remainder (bad.bytes ++ rest) = remainder rest := by
  have hsaid := Piece.said?_of_noText hnoText
  rw [Piece.said?] at hsaid
  obtain ⟨hframes, hrest⟩ := framesOf_complete hbad.splitBlock rest
  rw [hsaid] at hframes
  exact ⟨hframes, hrest⟩

namespace Decoder

/-! ## One call -/

/-- A call for a frame: the pieces that it takes off, and what it returns. -/
structure Call where
  pieces : List Piece
  found : Option (Except Failure Frame)

/--
The next call of a decoder takes complete pieces off the front of what is held.  It ends with the
first one that says something, which it returns; if none does, it leaves no blank line behind.
-/
structure Call.Of (call : Call) (decoder after : Decoder) : Prop where
  next : decoder.next = (call.found, after)
  complete : ∀ piece ∈ call.pieces, piece.Complete
  buffer : decoder.buffer = joined call.pieces ++ after.buffer
  outcome :
    (∃ found silent last, call.found = some found ∧ call.pieces = silent ++ [last] ∧
      (∀ piece ∈ silent, piece.said? = none) ∧ last.said? = some found) ∨
    (call.found = none ∧ (∀ piece ∈ call.pieces, piece.said? = none) ∧
      ¬ HasBlankLine after.buffer)

theorem exists_call (decoder : Decoder) : ∃ call after, Call.Of call decoder after := by
  induction hlen : decoder.buffer.length using Nat.strongRecOn generalizing decoder with
  | ind n ih =>
      cases hsplit : splitBlock decoder.buffer with
      | none =>
          refine ⟨⟨[], none⟩, decoder, next_of_none hsplit, nofun, rfl, .inr ⟨rfl, nofun, ?_⟩⟩
          exact splitBlock_eq_none.1 hsplit
      | some found =>
          obtain ⟨block, rest⟩ := found
          obtain ⟨piece, hpiece, rfl, hbuffer⟩ := Piece.exists_complete hsplit
          have hnext := next_of_some hsplit
          cases hread : readBlock piece.block with
          | some found =>
              rw [hread] at hnext
              refine ⟨⟨[piece], some found⟩, ⟨rest⟩, hnext, by simpa using hpiece, ?_, .inl ?_⟩
              · simpa using hbuffer
              · exact ⟨found, [], piece, rfl, rfl, nofun, hread⟩
          | none =>
              rw [hread] at hnext
              have hshort : rest.length < n := hlen ▸ splitBlock_length hsplit
              obtain ⟨call, after, hcall⟩ := ih rest.length hshort ⟨rest⟩ rfl
              refine ⟨⟨piece :: call.pieces, call.found⟩, after, hnext.trans hcall.next, ?_, ?_, ?_⟩
              · exact List.forall_mem_cons.2 ⟨hpiece, hcall.complete⟩
              · rw [hbuffer, joined_cons, List.append_assoc, ← hcall.buffer]
              · rcases hcall.outcome with ⟨found, silent, last, hfound, hpieces, hsilent, hlast⟩ |
                  ⟨hnone, hsilent, hblank⟩
                · refine .inl ⟨found, piece :: silent, last, hfound, ?_, ?_, hlast⟩
                  · simp only [hpieces, List.cons_append]
                  · exact List.forall_mem_cons.2 ⟨hread, hsilent⟩
                · exact .inr ⟨hnone, List.forall_mem_cons.2 ⟨hread, hsilent⟩, hblank⟩

/-- A call returns what its pieces say. -/
theorem Call.Of.said {call : Call} {decoder after : Decoder} (h : call.Of decoder after) :
    call.pieces.filterMap Piece.said? = call.found.toList := by
  rcases h.outcome with ⟨found, silent, last, hfound, hpieces, hsilent, hlast⟩ |
    ⟨hnone, hsilent, -⟩
  · rw [hpieces, List.filterMap_append, List.filterMap_eq_nil_iff.2 hsilent, hfound]
    simp [hlast]
  · rw [List.filterMap_eq_nil_iff.2 hsilent, hnone]
    rfl

/-! ## Scripts -/

/-- What the owner of a decoder does with it. -/
inductive Action where
  | push (chunk : List UInt8)
  | next
  deriving DecidableEq, Repr

/-- All that a script pushes. -/
def pushed : List Action -> List UInt8
  | [] => []
  | .push chunk :: script => chunk ++ pushed script
  | .next :: script => pushed script

/-- What the calls of a script return, and the decoder after it. -/
def perform (decoder : Decoder) : List Action -> List (Option (Except Failure Frame)) × Decoder
  | [] => ([], decoder)
  | .push chunk :: script => (decoder.push chunk).perform script
  | .next :: script =>
      let (found, after) := decoder.next
      let (more, last) := after.perform script
      (found :: more, last)

/-- The calls of a script, each with the pieces that it takes. -/
inductive Calls : Decoder -> List Action -> List Call -> Decoder -> Prop
  | done (decoder : Decoder) : Calls decoder [] [] decoder
  | push {decoder last : Decoder} {chunk : List UInt8} {script : List Action}
      {calls : List Call} :
      Calls (decoder.push chunk) script calls last ->
      Calls decoder (.push chunk :: script) calls last
  | next {decoder after last : Decoder} {call : Call} {script : List Action}
      {calls : List Call} :
      call.Of decoder after -> Calls after script calls last ->
      Calls decoder (.next :: script) (call :: calls) last

theorem exists_calls (decoder : Decoder) (script : List Action) :
    ∃ calls, Calls decoder script calls (decoder.perform script).2 ∧
      calls.map Call.found = (decoder.perform script).1 := by
  induction script generalizing decoder with
  | nil => exact ⟨[], .done decoder, rfl⟩
  | cons action script ih =>
      cases action with
      | push chunk =>
          obtain ⟨calls, hcalls, hfound⟩ := ih (decoder.push chunk)
          exact ⟨calls, .push hcalls, hfound⟩
      | next =>
          obtain ⟨call, after, hcall⟩ := decoder.exists_call
          obtain ⟨calls, hcalls, hfound⟩ := ih after
          rw [perform, hcall.next]
          exact ⟨call :: calls, .next hcall hcalls, by rw [List.map_cons, hfound]⟩

namespace Calls

variable {decoder last : Decoder} {script : List Action} {calls : List Call}

theorem complete (h : Calls decoder script calls last) :
    ∀ piece ∈ calls.flatMap Call.pieces, piece.Complete := by
  induction h with
  | done => nofun
  | push _ ih => exact ih
  | next hcall _ ih =>
      rw [List.flatMap_cons]
      exact List.forall_mem_append.2 ⟨hcall.complete, ih⟩

/-- No byte is lost: what is taken and what is still held is what was held and pushed. -/
theorem buffer (h : Calls decoder script calls last) :
    joined (calls.flatMap Call.pieces) ++ last.buffer = decoder.buffer ++ pushed script := by
  induction h with
  | done decoder => exact (List.append_nil decoder.buffer).symm
  | push _ ih => rw [ih, Decoder.push, pushed, List.append_assoc]
  | next hcall _ ih =>
      rw [List.flatMap_cons, joined_append, List.append_assoc, ih, hcall.buffer, pushed,
        List.append_assoc]

theorem said (h : Calls decoder script calls last) :
    (calls.flatMap Call.pieces).filterMap Piece.said? = (calls.map Call.found).reduceOption := by
  induction h with
  | done => rfl
  | @next _ _ _ call _ _ hcall _ ih =>
      rw [List.flatMap_cons, List.filterMap_append, hcall.said, ih, List.map_cons]
      cases call.found <;> rfl
  | push _ ih => exact ih

end Calls

/-- The calls of a script and the draining after it find what its bytes hold. -/
theorem perform_drain (decoder : Decoder) (script : List Action) :
    (decoder.perform script).1.reduceOption ++ (decoder.perform script).2.drain.1 =
        (decoder.push (pushed script)).drain.1 ∧
      (decoder.perform script).2.drain.2 = (decoder.push (pushed script)).drain.2 := by
  obtain ⟨calls, hcalls, hfound⟩ := decoder.exists_calls script
  obtain ⟨hframes, hrest⟩ := framesOf_pieces hcalls.complete (decoder.perform script).2.buffer
  rw [hcalls.buffer, hcalls.said, hfound] at hframes
  rw [hcalls.buffer] at hrest
  simp only [drain_eq, push, hframes, hrest, and_self]

/--
Whatever a script pushes and whenever it asks for a frame: what its calls return and the draining
after it are what all its bytes give when they are pushed at once and drained, and the decoder is
left the same.  Each call takes complete blocks, and ends with the first that says something or
leaves no blank line behind; what the calls took and what is still held are the bytes pushed.  A
block that is no text costs one failure, and all before and behind it is as without it.
-/
theorem frames_in_any_order (script : List Action) :
    let ran := empty.perform script
    let whole := (empty.push (pushed script)).drain
    ran.1.reduceOption ++ ran.2.drain.1 = whole.1 ∧
    ran.2.drain.2 = whole.2 ∧ ran.2.drain.2.hasPartial = whole.2.hasPartial ∧
    (∃ calls, Calls empty script calls ran.2 ∧ calls.map Call.found = ran.1 ∧
      joined (calls.flatMap Call.pieces) ++ ran.2.buffer = pushed script) ∧
    ∀ (before : List Piece) (bad : Piece) (rest : List UInt8),
      (∀ piece ∈ before, piece.Complete) → bad.Complete → bad.IsNoText →
      pushed script = joined before ++ (bad.bytes ++ rest) →
      whole.1 = (empty.push (joined before)).drain.1 ++ .error
          (.malformedStream ("frame is not UTF-8: " ++ Text.Utf8.fault bad.block)) ::
            (empty.push rest).drain.1 ∧
        (empty.push (joined before ++ rest)).drain.1 =
          (empty.push (joined before)).drain.1 ++ (empty.push rest).drain.1 ∧
        whole.2 = (empty.push rest).drain.2 := by
  intro ran whole
  obtain ⟨hframes, hlast⟩ := empty.perform_drain script
  refine ⟨hframes, hlast, congrArg hasPartial hlast, ?_, ?_⟩
  · obtain ⟨calls, hcalls, hfound⟩ := empty.exists_calls script
    exact ⟨calls, hcalls, hfound, hcalls.buffer⟩
  · intro before bad rest hbefore hbad hnoText hpushed
    have hwhole : whole = (framesOf (pushed script), ⟨remainder (pushed script)⟩) := drain_eq _
    obtain ⟨hbadFrames, hbadRest⟩ := framesOf_noText hbad hnoText rest
    rw [hwhole, hpushed, drain_eq, drain_eq, drain_eq]
    simp only [push, empty, List.nil_append]
    refine ⟨?_, framesOf_between hbefore rest, ?_⟩
    · rw [framesOf_between hbefore, hbadFrames]
    · rw [(framesOf_pieces hbefore _).2, hbadRest]

/-- A block that is no text, pushed in two parts between two that are, with calls all the while. -/
theorem frames_in_any_order_around_noText :
    let good : Piece := ⟨Text.bytes "data: a", [0x0D, 0x0A, 0x0D, 0x0A]⟩
    let bad : Piece := ⟨Text.bytes "data: " ++ [0xFF], [0x0A, 0x0A]⟩
    let rest := Text.bytes ": c\n\ndata: b\n\nda"
    let script : List Action := [.next, .push good.bytes, .next, .push (bad.bytes.take 8), .next,
      .push (bad.bytes.drop 8 ++ rest), .next]
    good.Complete ∧ bad.Complete ∧ bad.IsNoText ∧
    pushed script = joined [good] ++ (bad.bytes ++ rest) ∧
    (empty.perform script).1 = [none, some (.ok ⟨none, "a"⟩), none, some (.error
      (.malformedStream "frame is not UTF-8: invalid utf-8 sequence of 1 bytes from index 6"))] ∧
    (empty.perform script).1.reduceOption ++ (empty.perform script).2.drain.1 =
      [.ok ⟨none, "a"⟩, .error
        (.malformedStream "frame is not UTF-8: invalid utf-8 sequence of 1 bytes from index 6"),
        .ok ⟨none, "b"⟩] ∧
    (empty.perform script).2.drain.2 = ⟨Text.bytes "da"⟩ := by
  intro good bad rest script
  have hgood : good.Complete := by decide +kernel
  have hbad : bad.Complete := by decide +kernel
  have hnoText : bad.IsNoText := by decide +kernel
  have hpushed : pushed script = joined [good] ++ (bad.bytes ++ rest) := by decide +kernel
  obtain ⟨hframes, hlast, -, -, hbroken⟩ := frames_in_any_order script
  obtain ⟨hwhole, -, hrest⟩ :=
    hbroken [good] bad rest (List.forall_mem_singleton.2 hgood) hbad hnoText hpushed
  refine ⟨hgood, hbad, hnoText, hpushed, by decide +kernel, ?_, ?_⟩
  · rw [hframes, hwhole]
    decide +kernel
  · rw [hlast, hrest]
    decide +kernel

end Decoder

end Stream

end ChatGateway
