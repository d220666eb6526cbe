import ChatGateway.Text.Utf8

/-!
# Reading what was written in UTF-8

The bytes of a text read back as the text.  Each character is taken apart by the range
of its code point, and its bytes lead the reader from between characters through the
inside of this one and back.
-/

namespace ChatGateway

namespace Text

namespace Utf8

theorem piecesFrom_cons (place : Place) (done : List (Option Char)) (byte : UInt8)
    (rest : List UInt8) :
    piecesFrom place done (byte :: rest) =
      piecesFrom (place.next byte).1 ((place.next byte).2.reverse ++ done) rest := by
  cases place <;> rfl

theorem next_between {byte : UInt8} {after : Place} {found : Option Char}
    (h : Place.begin byte.toNat = some (after, found)) :
    Place.between.next byte = (after, found.toList.map some) := by
  simp [Place.next, h]

theorem next_inside {owed low high value : Nat} {byte : UInt8} {after : Place}
    {found : Option Char}
    (h : Place.continue owed low high value byte.toNat = some (after, found)) :
    (Place.inside owed low high value).next byte = (after, found.toList.map some) := by
  simp [Place.next, h]

theorem toNat_byte {n : Nat} (h : n < 256) : (UInt8.ofNat n).toNat = n :=
  UInt8.toNat_ofNat_of_lt' h

/-- The lowest six bits complete a value of which the other bits have been read. -/
theorem continue_last (value : Nat) :
    Place.continue 1 0x80 0xBF (value / 0x40) (UInt8.ofNat (0x80 + value % 0x40)).toNat =
      some (.between, some (Char.ofNat value)) := by
  have hbits : value / 0x40 * 0x40 + value % 0x40 = value := Nat.div_add_mod' value 0x40
  have hrange : 0x80 ≤ 0x80 + value % 0x40 ∧ 0x80 + value % 0x40 ≤ 0xBF := by omega
  rw [toNat_byte (by omega)]
  simp [Place.continue, hbits, hrange]

theorem continue_more (owed : Nat) {low high : Nat} (value : Nat)
    (h : low ≤ 0x80 + value % 0x40 ∧ 0x80 + value % 0x40 ≤ high) :
    Place.continue (owed + 2) low high (value / 0x40)
        (UInt8.ofNat (0x80 + value % 0x40)).toNat =
      some (.inside (owed + 1) 0x80 0xBF value, none) := by
  have hbits : value / 0x40 * 0x40 + value % 0x40 = value := Nat.div_add_mod' value 0x40
  rw [toNat_byte (by omega)]
  simp [Place.continue, hbits, h]

/-- No code point lies among the surrogates or beyond the last plane. -/
theorem toNat_valid (c : Char) :
    c.toNat < 0xD800 ∨ (0xDFFF < c.toNat ∧ c.toNat < 0x110000) :=
  c.valid

/-! ## One character -/

theorem piecesFrom_one {c : Char} (done : List (Option Char)) (rest : List UInt8)
    (h : c.toNat < 0x80) :
    piecesFrom .between done (encodeChar c ++ rest) =
      piecesFrom .between (some c :: done) rest := by
  have hbegin : Place.begin (UInt8.ofNat c.toNat).toNat = some (.between, some c) := by
    rw [toNat_byte (by omega)]
    simp [Place.begin, h]
  simp only [encodeChar, h, if_true, List.cons_append, List.nil_append]
  rw [piecesFrom_cons, next_between hbegin]
  rfl

theorem piecesFrom_two {c : Char} (done : List (Option Char)) (rest : List UInt8)
    (hlow : ¬ c.toNat < 0x80) (h : c.toNat < 0x800) :
    piecesFrom .between done (encodeChar c ++ rest) =
      piecesFrom .between (some c :: done) rest := by
  have hbegin : Place.begin (UInt8.ofNat (0xC0 + c.toNat / 0x40)).toNat =
      some (.inside 1 0x80 0xBF (c.toNat / 0x40), none) := by
    rw [toNat_byte (by omega)]
    simp only [Place.begin]
    rw [if_neg (by omega), if_neg (by omega), if_pos (by omega)]
    simp
  have hlast := continue_last c.toNat
  rw [Char.ofNat_toNat] at hlast
  simp only [encodeChar, hlow, h, if_true, if_false, List.cons_append, List.nil_append]
  rw [piecesFrom_cons, next_between hbegin, piecesFrom_cons, next_inside hlast]
  rfl

theorem piecesFrom_three {c : Char} (done : List (Option Char)) (rest : List UInt8)
    (hlow : ¬ c.toNat < 0x800) (h : c.toNat < 0x10000) :
    piecesFrom .between done (encodeChar c ++ rest) =
      piecesFrom .between (some c :: done) rest := by
  have hvalid := toNat_valid c
  -- the range of the second byte leaves out short values and surrogates
  have hbegin : ∃ low high, Place.begin (UInt8.ofNat (0xE0 + c.toNat / 0x1000)).toNat =
        some (.inside 2 low high (c.toNat / 0x40 / 0x40), none) ∧
      low ≤ 0x80 + c.toNat / 0x40 % 0x40 ∧ 0x80 + c.toNat / 0x40 % 0x40 ≤ high := by
    have hbits : 0xE0 + c.toNat / 0x1000 - 0xE0 = c.toNat / 0x40 / 0x40 := by omega
    rw [toNat_byte (by omega)]
    simp only [Place.begin]
    rw [if_neg (by omega), if_neg (by omega), if_neg (by omega), if_pos (by omega)]
    refine ⟨_, _, by rw [hbits], ?_, ?_⟩
    · split <;> omega
    · split <;> omega
  obtain ⟨low, high, hbegin, hrange⟩ := hbegin
  have hsecond := continue_more 0 (c.toNat / 0x40) hrange
  have hlast := continue_last c.toNat
  rw [Char.ofNat_toNat] at hlast
  have hone : ¬ c.toNat < 0x80 := by omega
  simp only [encodeChar, hone, hlow, h, if_true, if_false, List.cons_append, List.nil_append]
  rw [piecesFrom_cons, next_between hbegin, piecesFrom_cons, next_inside hsecond,
    piecesFrom_cons, next_inside hlast]
  rfl

theorem piecesFrom_four {c : Char} (done : List (Option Char)) (rest : List UInt8)
    (hlow : ¬ c.toNat < 0x10000) :
    piecesFrom .between done (encodeChar c ++ rest) =
      piecesFrom .between (some c :: done) rest := by
  have hvalid := toNat_valid c
  have hdiv : c.toNat / 0x1000 / 0x40 = c.toNat / 0x40000 := by omega
  have hdiv' : c.toNat / 0x40 / 0x40 = c.toNat / 0x1000 := by omega
  -- the range of the second byte leaves out short values and values beyond the last plane
  have hbegin : ∃ low high, Place.begin (UInt8.ofNat (0xF0 + c.toNat / 0x40000)).toNat =
        some (.inside 3 low high (c.toNat / 0x40000), none) ∧
      low ≤ 0x80 + c.toNat / 0x1000 % 0x40 ∧ 0x80 + c.toNat / 0x1000 % 0x40 ≤ high := by
    rw [toNat_byte (by omega)]
    simp only [Place.begin]
    rw [if_neg (by omega), if_neg (by omega), if_neg (by omega), if_neg (by omega),
      if_pos (by omega)]
    refine ⟨_, _, by rw [Nat.add_sub_cancel_left], ?_, ?_⟩
    · split <;> omega
    · split <;> omega
  obtain ⟨low, high, hbegin, hrange⟩ := hbegin
  have hsecond := continue_more 1 (c.toNat / 0x1000) hrange
  rw [hdiv] at hsecond
  have hmiddle : 0x80 ≤ 0x80 + c.toNat / 0x40 % 0x40 ∧
      0x80 + c.toNat / 0x40 % 0x40 ≤ 0xBF := by omega
  have hthird := continue_more 0 (c.toNat / 0x40) hmiddle
  rw [hdiv'] at hthird
  have hlast := continue_last c.toNat
  rw [Char.ofNat_toNat] at hlast
  have hone : ¬ c.toNat < 0x80 := by omega
  have htwo : ¬ c.toNat < 0x800 := by omega
  simp only [encodeChar, hone, htwo, hlow, if_false, List.cons_append, List.nil_append]
  rw [piecesFrom_cons, next_between hbegin, piecesFrom_cons, next_inside hsecond,
    piecesFrom_cons, next_inside hthird, piecesFrom_cons, next_inside hlast]
  rfl

theorem piecesFrom_encodeChar (c : Char) (done : List (Option Char)) (rest : List UInt8) :
    piecesFrom .between done (encodeChar c ++ rest) =
      piecesFrom .between (some c :: done) rest := by
  by_cases hone : c.toNat < 0x80
  · exact piecesFrom_one done rest hone
  · by_cases htwo : c.toNat < 0x800
    · exact piecesFrom_two done rest hone htwo
    · by_cases hthree : c.toNat < 0x10000
      · exact piecesFrom_three done rest htwo hthree
      · exact piecesFrom_four done rest hthree

/-- The bytes of a character: itself if it is ASCII, else none of them is. -/
theorem toNat_of_mem_encodeChar {c : Char} {byte : UInt8} (h : byte ∈ encodeChar c) :
    byte.toNat = c.toNat ∨ 0x80 ≤ byte.toNat := by
  have hvalid := toNat_valid c
  unfold encodeChar at h
  simp only at h
  split at h
  · rw [List.mem_singleton.1 h, toNat_byte (by omega)]
    exact Or.inl rfl
  · right
    split at h
    · simp only [List.mem_cons, List.not_mem_nil, or_false] at h
      rcases h with rfl | rfl <;> rw [toNat_byte (by omega)] <;> omega
    · split at h
      · simp only [List.mem_cons, List.not_mem_nil, or_false] at h
        rcases h with rfl | rfl | rfl <;> rw [toNat_byte (by omega)] <;> omega
      · simp only [List.mem_cons, List.not_mem_nil, or_false] at h
        rcases h with rfl | rfl | rfl | rfl <;> rw [toNat_byte (by omega)] <;> omega

theorem encodeChar_ascii {c : Char} (h : c.toNat < 0x80) :
    encodeChar c = [UInt8.ofNat c.toNat] := by
  simp [encodeChar, h]

/-! ## All characters -/

theorem piecesFrom_encode (text : List Char) (done : List (Option Char)) :
    piecesFrom .between done (encode text) = done.reverse ++ text.map some := by
  induction text generalizing done with
  | nil =>
      simp [piecesFrom]
  | cons c text ih =>
      rw [encode_cons, piecesFrom_encodeChar, ih]
      simp

theorem pieces_encode (text : List Char) : pieces (encode text) = text.map some := by
  rw [pieces, piecesFrom_encode]
  rfl

/-- The bytes of characters read back as these characters. -/
theorem decode?_encode (text : List Char) : decode? (encode text) = some (String.ofList text) := by
  have hall : (text.map some).all Option.isSome = true := by simp
  simp [decode?, pieces_encode, hall]

end Utf8

theorem decode?_bytes (text : String) : Utf8.decode? (bytes text) = some text := by
  rw [bytes, Utf8.decode?_encode, String.ofList_toList]

end Text

end ChatGateway
