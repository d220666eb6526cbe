import ChatGateway.Stream.Decoder

/-!
# Blocks of a byte string

`blocks` cuts a whole byte string at its blank lines at once.  A blank line that is
complete in the bytes so far stays the first one whatever follows, so a decoder that
is given the bytes piece by piece takes the same blocks.
-/

namespace ChatGateway

namespace Stream

/-! ## The first blank line -/

theorem afterBlankLine?_eq_some {input rest : List UInt8} :
    afterBlankLine? input = some rest ↔
      input = [0x0A, 0x0A] ++ rest ∨ input = [0x0D, 0x0A, 0x0D, 0x0A] ++ rest := by
  unfold afterBlankLine?
  cases hfeeds : Text.dropStart? [0x0A, 0x0A] input with
  | some after =>
      have hinput := Text.dropStart?_eq_some.1 hfeeds
      simp [hinput, eq_comm]
  | none =>
      have hother : input ≠ [0x0A, 0x0A] ++ rest := by
        intro heq
        rw [heq, Text.dropStart?_append] at hfeeds
        cases hfeeds
      simp only [hother, false_or]
      exact Text.dropStart?_eq_some

theorem afterBlankLine?_append {input rest : List UInt8} (more : List UInt8)
    (h : afterBlankLine? input = some rest) :
    afterBlankLine? (input ++ more) = some (rest ++ more) := by
  rw [afterBlankLine?_eq_some] at h ⊢
  rcases h with rfl | rfl <;> simp

theorem splitBlockFrom_eq (held input : List UInt8) :
    splitBlockFrom held input =
      (splitBlock input).map fun found => (held.reverse ++ found.1, found.2) := by
  induction input generalizing held with
  | nil =>
      rfl
  | cons byte rest ih =>
      unfold splitBlock
      rw [splitBlockFrom, splitBlockFrom]
      cases afterBlankLine? (byte :: rest) with
      | some after =>
          simp
      | none =>
          simp only [ih (byte :: held), ih [byte], Option.map_map]
          congr 1
          funext found
          simp

@[simp] theorem splitBlock_nil : splitBlock [] = none := rfl

theorem splitBlock_of_blank {byte : UInt8} {rest after : List UInt8}
    (h : afterBlankLine? (byte :: rest) = some after) :
    splitBlock (byte :: rest) = some ([], after) := by
  simp [splitBlock, splitBlockFrom, h]

theorem splitBlock_of_not_blank {byte : UInt8} {rest : List UInt8}
    (h : afterBlankLine? (byte :: rest) = none) :
    splitBlock (byte :: rest) =
      (splitBlock rest).map fun found => (byte :: found.1, found.2) := by
  unfold splitBlock
  rw [splitBlockFrom]
  simp only [h]
  exact splitBlockFrom_eq [byte] rest

/-- A block, the blank line after it and the rest are the whole input. -/
theorem splitBlock_sound {input block rest : List UInt8}
    (h : splitBlock input = some (block, rest)) :
    ∃ blank, (blank = [0x0A, 0x0A] ∨ blank = [0x0D, 0x0A, 0x0D, 0x0A]) ∧
      input = block ++ blank ++ rest := by
  induction input generalizing block with
  | nil =>
      simp at h
  | cons byte tail ih =>
      cases hblank : afterBlankLine? (byte :: tail) with
      | some after =>
          rw [splitBlock_of_blank hblank] at h
          cases h
          rcases afterBlankLine?_eq_some.1 hblank with heq | heq
          · exact ⟨_, Or.inl rfl, heq⟩
          · exact ⟨_, Or.inr rfl, heq⟩
      | none =>
          rw [splitBlock_of_not_blank hblank] at h
          obtain ⟨found, hfound, heq⟩ := Option.map_eq_some_iff.1 h
          cases heq
          obtain ⟨blank, hkind, htail⟩ := ih hfound
          exact ⟨blank, hkind, by rw [htail]; rfl⟩

theorem splitBlock_length {input block rest : List UInt8}
    (h : splitBlock input = some (block, rest)) : rest.length < input.length := by
  obtain ⟨blank, hkind, rfl⟩ := splitBlock_sound h
  have hpos : 0 < blank.length := by
    rcases hkind with rfl | rfl <;> decide
  simp only [List.length_append]
  omega

/--
Bytes after a complete blank line make no earlier one.  The two kinds overlap only
where a return and a feed end the input, and such an input holds no blank line.
-/
theorem afterBlankLine?_append_none {byte : UInt8} {tail : List UInt8} (more : List UInt8)
    (h : afterBlankLine? (byte :: tail) = none) (complete : splitBlock tail ≠ none) :
    afterBlankLine? (byte :: (tail ++ more)) = none := by
  cases hmore : afterBlankLine? (byte :: (tail ++ more)) with
  | none =>
      rfl
  | some after =>
      exfalso
      rcases afterBlankLine?_eq_some.1 hmore with heq | heq
      · rcases tail with _ | ⟨second, tail⟩
        · exact complete rfl
        · simp only [List.cons_append, List.nil_append, List.cons.injEq] at heq
          obtain ⟨rfl, rfl, _⟩ := heq
          simp [afterBlankLine?, Text.dropStart?] at h
      · rcases tail with _ | ⟨second, _ | ⟨third, _ | ⟨fourth, tail⟩⟩⟩
        · exact complete rfl
        · simp only [List.cons_append, List.nil_append, List.cons.injEq] at heq
          obtain ⟨_, rfl, _⟩ := heq
          exact complete (by decide)
        · simp only [List.cons_append, List.nil_append, List.cons.injEq] at heq
          obtain ⟨_, rfl, rfl, _⟩ := heq
          exact complete (by decide)
        · simp only [List.cons_append, List.nil_append, List.cons.injEq] at heq
          obtain ⟨rfl, rfl, rfl, rfl, _⟩ := heq
          simp [afterBlankLine?, Text.dropStart?] at h

/-- The first block stays the first one whatever bytes follow. -/
theorem splitBlock_append {input block rest : List UInt8} (more : List UInt8)
    (h : splitBlock input = some (block, rest)) :
    splitBlock (input ++ more) = some (block, rest ++ more) := by
  induction input generalizing block with
  | nil =>
      simp at h
  | cons byte tail ih =>
      cases hblank : afterBlankLine? (byte :: tail) with
      | some after =>
          rw [splitBlock_of_blank hblank] at h
          cases h
          exact splitBlock_of_blank (afterBlankLine?_append more hblank)
      | none =>
          rw [splitBlock_of_not_blank hblank] at h
          obtain ⟨found, hfound, heq⟩ := Option.map_eq_some_iff.1 h
          cases heq
          have hstill := afterBlankLine?_append_none more hblank (by simp [hfound])
          rw [List.cons_append, splitBlock_of_not_blank hstill, ih hfound]
          rfl

/-! ## All blocks -/

/-- The complete blocks of a byte string, and the bytes after the last of them. -/
def blocks (input : List UInt8) : List (List UInt8) × List UInt8 :=
  match _hsplit : splitBlock input with
  | none => ([], input)
  | some (block, rest) => (block :: (blocks rest).1, (blocks rest).2)
termination_by input.length
decreasing_by all_goals exact splitBlock_length _hsplit

theorem blocks_of_none {input : List UInt8} (h : splitBlock input = none) :
    blocks input = ([], input) := by
  rw [blocks]
  split
  · rfl
  · next heq => simp [h] at heq

theorem blocks_of_some {input block rest : List UInt8}
    (h : splitBlock input = some (block, rest)) :
    blocks input = (block :: (blocks rest).1, (blocks rest).2) := by
  rw [blocks]
  split
  · next heq => simp [h] at heq
  · next heq =>
      rw [h] at heq
      cases heq
      rfl

/-- Cutting a longer byte string goes on from what the shorter one left over. -/
theorem blocks_append (input more : List UInt8) :
    blocks (input ++ more) =
      ((blocks input).1 ++ (blocks ((blocks input).2 ++ more)).1,
        (blocks ((blocks input).2 ++ more)).2) := by
  induction hlen : input.length using Nat.strongRecOn generalizing input with
  | ind n ih =>
      cases hsplit : splitBlock input with
      | none =>
          rw [blocks_of_none hsplit]
          simp
      | some found =>
          obtain ⟨block, rest⟩ := found
          have hshort : rest.length < n := hlen ▸ splitBlock_length hsplit
          rw [blocks_of_some hsplit, blocks_of_some (splitBlock_append more hsplit),
            ih rest.length hshort rest rfl]
          simp

/-- What is left over holds no complete block. -/
theorem splitBlock_blocks (input : List UInt8) : splitBlock (blocks input).2 = none := by
  induction hlen : input.length using Nat.strongRecOn generalizing input with
  | ind n ih =>
      cases hsplit : splitBlock input with
      | none =>
          rw [blocks_of_none hsplit]
          exact hsplit
      | some found =>
          obtain ⟨block, rest⟩ := found
          rw [blocks_of_some hsplit]
          exact ih rest.length (hlen ▸ splitBlock_length hsplit) rest rfl

def framesOf (input : List UInt8) : List (Except Failure Frame) :=
  (blocks input).1.filterMap readBlock

/-- The bytes of a byte string that are in no complete block. -/
def remainder (input : List UInt8) : List UInt8 :=
  (blocks input).2

@[simp] theorem framesOf_nil : framesOf [] = [] := by
  rw [framesOf, blocks_of_none splitBlock_nil]
  rfl

@[simp] theorem remainder_nil : remainder [] = [] := by
  rw [remainder, blocks_of_none splitBlock_nil]

theorem framesOf_append (input more : List UInt8) :
    framesOf (input ++ more) = framesOf input ++ framesOf (remainder input ++ more) := by
  simp only [framesOf, remainder]
  rw [blocks_append input more, List.filterMap_append]

theorem remainder_append (input more : List UInt8) :
    remainder (input ++ more) = remainder (remainder input ++ more) := by
  simp only [remainder]
  rw [blocks_append input more]

@[simp] theorem remainder_remainder (input : List UInt8) :
    remainder (remainder input) = remainder input := by
  simp only [remainder]
  rw [blocks_of_none (splitBlock_blocks input)]

@[simp] theorem framesOf_remainder (input : List UInt8) : framesOf (remainder input) = [] := by
  simp only [framesOf, remainder]
  rw [blocks_of_none (splitBlock_blocks input)]
  rfl

/-- What follows a complete frame is decoded as it would be without the frame. -/
theorem framesOf_complete {piece block : List UInt8} (h : splitBlock piece = some (block, []))
    (rest : List UInt8) :
    framesOf (piece ++ rest) = (readBlock block).toList ++ framesOf rest ∧
      remainder (piece ++ rest) = remainder rest := by
  have hsplit := splitBlock_append rest h
  rw [List.nil_append] at hsplit
  rw [framesOf, framesOf, remainder, remainder, blocks_of_some hsplit]
  refine ⟨?_, rfl⟩
  cases hread : readBlock block <;> simp [hread]

/-! ## The decoder -/

namespace Decoder

theorem nextWithin_of_none {decoder : Decoder} (h : splitBlock decoder.buffer = none)
    (fuel : Nat) : nextWithin fuel decoder = (none, decoder) := by
  cases fuel with
  | zero => rfl
  | succ fuel => simp [nextWithin, h]

/-- Fuel beyond the length of the buffer changes nothing. -/
theorem nextWithin_eq {decoder : Decoder} {fuel other : Nat}
    (hfuel : decoder.buffer.length ≤ fuel) (hother : decoder.buffer.length ≤ other) :
    nextWithin fuel decoder = nextWithin other decoder := by
  induction fuel generalizing decoder other with
  | zero =>
      have hempty : decoder.buffer = [] := List.length_eq_zero_iff.1 (by omega)
      rw [nextWithin_of_none (by simp [hempty]), nextWithin_of_none (by simp [hempty])]
  | succ fuel ih =>
      cases hsplit : splitBlock decoder.buffer with
      | none =>
          rw [nextWithin_of_none hsplit, nextWithin_of_none hsplit]
      | some found =>
          obtain ⟨block, rest⟩ := found
          have hshort := splitBlock_length hsplit
          cases other with
          | zero =>
              omega
          | succ other =>
              simp only [nextWithin, hsplit]
              cases readBlock block with
              | some found =>
                  rfl
              | none =>
                  have hrest : rest.length ≤ fuel := by omega
                  have hrest' : rest.length ≤ other := by omega
                  exact @ih ⟨rest⟩ other hrest hrest'

theorem next_of_none {decoder : Decoder} (h : splitBlock decoder.buffer = none) :
    decoder.next = (none, decoder) :=
  nextWithin_of_none h decoder.buffer.length

theorem next_of_some {decoder : Decoder} {block rest : List UInt8}
    (h : splitBlock decoder.buffer = some (block, rest)) :
    decoder.next =
      match readBlock block with
      | some found => (some found, ⟨rest⟩)
      | none => next ⟨rest⟩ := by
  have hshort := splitBlock_length h
  have hmore : decoder.next = nextWithin (decoder.buffer.length + 1) decoder :=
    nextWithin_eq (Nat.le_refl _) (Nat.le_succ _)
  rw [hmore]
  simp only [nextWithin, h]
  cases readBlock block with
  | some found =>
      rfl
  | none =>
      exact @nextWithin_eq ⟨rest⟩ _ _ (Nat.le_of_lt hshort) (Nat.le_refl _)

theorem drainWithin_eq {decoder : Decoder} {fuel : Nat} (h : decoder.buffer.length < fuel) :
    drainWithin fuel decoder = (framesOf decoder.buffer, ⟨remainder decoder.buffer⟩) := by
  induction hlen : decoder.buffer.length using Nat.strongRecOn generalizing decoder fuel with
  | ind n ih =>
      obtain ⟨fuel, rfl⟩ : ∃ less, fuel = less + 1 := ⟨fuel - 1, by omega⟩
      cases hsplit : splitBlock decoder.buffer with
      | none =>
          simp [drainWithin, next_of_none hsplit, framesOf, remainder, blocks_of_none hsplit]
      | some found =>
          obtain ⟨block, rest⟩ := found
          have hshort := splitBlock_length hsplit
          cases hread : readBlock block with
          | some found =>
              have hrest := @ih rest.length (by omega) ⟨rest⟩ fuel (by simp only; omega) rfl
              simp [drainWithin, next_of_some hsplit, hread, hrest, framesOf, remainder,
                blocks_of_some hsplit]
          | none =>
              -- a block without a frame costs no fuel
              have hrest := @ih rest.length (by omega) ⟨rest⟩ (fuel + 1) (by simp only; omega) rfl
              rw [drainWithin] at hrest ⊢
              simp only [next_of_some hsplit, hread]
              rw [hrest]
              simp [framesOf, remainder, blocks_of_some hsplit, hread]

/-- Draining gives the frames of the bytes held and keeps what is in no block. -/
theorem drain_eq (decoder : Decoder) :
    decoder.drain = (framesOf decoder.buffer, ⟨remainder decoder.buffer⟩) :=
  drainWithin_eq (Nat.lt_succ_self _)

end Decoder

end Stream

end ChatGateway
