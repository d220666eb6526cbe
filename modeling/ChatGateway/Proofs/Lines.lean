import ChatGateway.Proofs.Framing
import ChatGateway.Proofs.Utf8

/-!
# Blocks of one line

A line without a line feed in it and a blank line after it are one block, whatever follows.
A line of data is then one frame, and a comment is none.
-/

namespace ChatGateway

namespace Stream

/-- The bytes of a line and the blank line after it. -/
def lineBlock (line : List Char) : List UInt8 :=
  Text.Utf8.encode line ++ [0x0A, 0x0A]

theorem splitBlock_line {line : List UInt8} (rest : List UInt8) (h : 0x0A ∉ line) :
    splitBlock (line ++ [0x0A, 0x0A] ++ rest) = some (line, rest) := by
  induction line with
  | nil =>
      exact splitBlock_of_blank rfl
  | cons byte line ih =>
      have hbyte : byte ≠ 0x0A := fun heq => h (heq ▸ List.mem_cons_self)
      have hline : 0x0A ∉ line := fun hmem => h (List.mem_cons_of_mem _ hmem)
      -- a return before the two feeds makes no blank line of the other kind
      have hblank : afterBlankLine? (byte :: (line ++ [0x0A, 0x0A] ++ rest)) = none := by
        rw [Option.eq_none_iff_forall_ne_some]
        intro after hafter
        rcases afterBlankLine?_eq_some.1 hafter with heq | heq
        · simp only [List.cons_append, List.cons.injEq] at heq
          exact hbyte heq.1
        · rcases line with _ | ⟨second, line⟩
          · simp at heq
          · simp only [List.cons_append, List.cons.injEq] at heq
            exact hline (heq.2.1 ▸ List.mem_cons_self)
      rw [List.cons_append, List.cons_append, splitBlock_of_not_blank hblank, ih hline]
      rfl

theorem feed_not_mem_encode {line : List Char} (h : '\n' ∉ line) :
    0x0A ∉ Text.Utf8.encode line := by
  intro hmem
  obtain ⟨c, hc, hbyte⟩ := List.mem_flatMap.1 hmem
  have hfeed : c = '\n' := by
    rcases Text.Utf8.toNat_of_mem_encodeChar hbyte with heq | hhigh
    · rw [← Char.ofNat_toNat c, ← heq]
      rfl
    · exact absurd hhigh (by decide)
  exact h (hfeed ▸ hc)

theorem splitFrom_of_not_mem {mark : Char} {text : List Char} (part : List Char)
    (parts : List (List Char)) (h : mark ∉ text) :
    Text.splitFrom mark part parts text = ((text.reverse ++ part).reverse :: parts).reverse := by
  induction text generalizing part with
  | nil =>
      rfl
  | cons c text ih =>
      have hc : c ≠ mark := fun heq => h (heq ▸ List.mem_cons_self)
      have htext : mark ∉ text := fun hmem => h (List.mem_cons_of_mem _ hmem)
      rw [Text.splitFrom, if_neg hc, ih _ htext]
      simp

namespace Frame

/-! ## What one line says -/

theorem lineOf_field {name : List Char} (value : List Char) (h : ':' ∉ name) :
    Line.of (name ++ ':' :: ' ' :: value) =
      if name = "event".toList then .event (String.ofList value)
      else if name = "data".toList then .data (String.ofList value)
      else .other := by
  rw [Line.of, Text.cut_append _ h]
  simp [Text.dropStart?]

theorem lineOf_event (value : List Char) :
    Line.of ("event: ".toList ++ value) = .event (String.ofList value) := by
  have hname : ':' ∉ "event".toList := by decide
  exact lineOf_field value hname

theorem lineOf_data (value : List Char) :
    Line.of ("data: ".toList ++ value) = .data (String.ofList value) := by
  have hname : ':' ∉ "data".toList := by decide
  exact lineOf_field value hname

theorem lineOf_comment (text : List Char) : Line.of (':' :: text) = .other := by
  have hcut : Text.cut ':' (':' :: text) = some ([], text) :=
    Text.cut_append text List.not_mem_nil
  rw [Line.of, hcut]
  rfl

/-! ## A block of one line -/

theorem ofText_line {line : List Char} (h : '\n' ∉ line) :
    ofText (String.ofList line) = ofLines [Line.of line] := by
  have hlines : lines line = if line.isEmpty then [] else [line] := by
    simp [lines, Text.splitAll, splitFrom_of_not_mem _ _ h]
  rw [ofText, String.toList_ofList, hlines]
  cases line with
  | nil => rfl
  | cons c line => rfl

theorem ofText_data {text : List Char} (h : '\n' ∉ text) :
    ofText (String.ofList ("data: ".toList ++ text)) = some ⟨none, String.ofList text⟩ := by
  have hline : '\n' ∉ "data: ".toList ++ text := by
    simp [h]
  rw [ofText_line hline, lineOf_data]
  rfl

theorem ofText_comment {text : List Char} (h : '\n' ∉ text) :
    ofText (String.ofList (':' :: text)) = none := by
  have hline : '\n' ∉ ':' :: text := by
    simp [h]
  rw [ofText_line hline, lineOf_comment]
  rfl

end Frame

theorem framesOf_line {line : List Char} (rest : List UInt8) (h : '\n' ∉ line) :
    framesOf (lineBlock line ++ rest) =
      (Frame.ofText (String.ofList line)).toList.map .ok ++ framesOf rest := by
  have hsplit := splitBlock_line rest (feed_not_mem_encode h)
  rw [lineBlock, framesOf, blocks_of_some hsplit]
  cases hframe : Frame.ofText (String.ofList line) <;>
    simp [readBlock, Text.Utf8.decode?_encode, hframe, framesOf]

/-- A line of data is a frame of its own. -/
theorem framesOf_data {text : List Char} (rest : List UInt8) (h : '\n' ∉ text) :
    framesOf (lineBlock ("data: ".toList ++ text) ++ rest) =
      .ok ⟨none, String.ofList text⟩ :: framesOf rest := by
  have hline : '\n' ∉ "data: ".toList ++ text := by
    simp [h]
  rw [framesOf_line rest hline, Frame.ofText_data h]
  rfl

theorem framesOf_comment {text : List Char} (rest : List UInt8) (h : '\n' ∉ text) :
    framesOf (lineBlock (':' :: text) ++ rest) = framesOf rest := by
  have hline : '\n' ∉ ':' :: text := by
    simp [h]
  rw [framesOf_line rest hline, Frame.ofText_comment h]
  rfl

end Stream

end ChatGateway
