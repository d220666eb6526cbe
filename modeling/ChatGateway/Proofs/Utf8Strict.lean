import ChatGateway.Proofs.Utf8
import Mathlib.Algebra.Group.Nat.Defs

/-!
# What reads as UTF-8 was written so

A byte string without a stray byte is taken apart into characters whose bytes it is.  The first
byte of a character says how many more have to come and in which range the next one lies, which
leaves out just what no character has.  So every text has one byte string.
-/

namespace ChatGateway

namespace Text

namespace Utf8

theorem piecesFrom_eq (place : Place) (done : List (Option Char)) (bytes : List UInt8) :
    piecesFrom place done bytes = done.reverse ++ piecesFrom place [] bytes := by
  induction bytes generalizing place done with
  | nil => cases place <;> simp [piecesFrom]
  | cons byte rest ih =>
      rw [piecesFrom_cons, piecesFrom_cons, ih, ih _ ((place.next byte).2.reverse ++ [])]
      simp

theorem piecesFrom_cons_eq (place : Place) (byte : UInt8) (rest : List UInt8) :
    piecesFrom place [] (byte :: rest) =
      (place.next byte).2 ++ piecesFrom (place.next byte).1 [] rest := by
  rw [piecesFrom_cons, piecesFrom_eq]
  simp

/-! ## The rest of a character -/

/-- The last `owed` bytes of a character of more than one byte. -/
def continuation : Nat -> Nat -> List UInt8
  | 0, _ => []
  | owed + 1, value => UInt8.ofNat (0x80 + value / 0x40 ^ owed % 0x40) :: continuation owed value

/-- Inside a character only a byte in the range goes on, and it adds its six bits. -/
theorem inside_cons {owed low high value : Nat} {bytes : List UInt8} (hlow : 0x80 ≤ low)
    (hhigh : high ≤ 0xBF) (h : none ∉ piecesFrom (.inside owed low high value) [] bytes) :
    ∃ more rest, more / 0x40 = value ∧ low ≤ 0x80 + more % 0x40 ∧ 0x80 + more % 0x40 ≤ high ∧
      bytes = UInt8.ofNat (0x80 + more % 0x40) :: rest ∧
      piecesFrom (.inside owed low high value) [] bytes =
        if owed ≤ 1 then some (Char.ofNat more) :: piecesFrom .between [] rest
        else piecesFrom (.inside (owed - 1) 0x80 0xBF more) [] rest := by
  cases bytes with
  | nil => simp [piecesFrom] at h
  | cons byte rest =>
      rw [piecesFrom_cons_eq] at h ⊢
      by_cases hrange : low ≤ byte.toNat ∧ byte.toNat ≤ high
      · have hmod : 0x80 + (value * 0x40 + (byte.toNat - 0x80)) % 0x40 = byte.toNat := by omega
        refine ⟨value * 0x40 + (byte.toNat - 0x80), rest, by omega, by omega, by omega, ?_, ?_⟩
        · rw [hmod, UInt8.ofNat_toNat]
        · by_cases hlast : owed ≤ 1 <;>
            simp [Place.next, Place.continue, hrange, hlast]
      · simp [Place.next, Place.continue, hrange] at h

/-- Inside a character the bytes that are owed come, and complete a value with the bits so far. -/
theorem inside_complete (owed : Nat) {low high value : Nat} {bytes : List UInt8}
    (hlow : 0x80 ≤ low) (hhigh : high ≤ 0xBF)
    (h : none ∉ piecesFrom (.inside (owed + 1) low high value) [] bytes) :
    ∃ whole rest, whole / 0x40 ^ (owed + 1) = value ∧
      low ≤ 0x80 + whole / 0x40 ^ owed % 0x40 ∧ 0x80 + whole / 0x40 ^ owed % 0x40 ≤ high ∧
      bytes = continuation (owed + 1) whole ++ rest ∧
      piecesFrom (.inside (owed + 1) low high value) [] bytes =
        some (Char.ofNat whole) :: piecesFrom .between [] rest := by
  induction owed generalizing low high value bytes with
  | zero =>
      obtain ⟨more, rest, hvalue, hge, hle, rfl, hpieces⟩ := inside_cons hlow hhigh h
      refine ⟨more, rest, by rwa [Nat.zero_add, Nat.pow_one], ?_⟩
      rw [Nat.pow_zero, Nat.div_one]
      refine ⟨hge, hle, ?_, hpieces⟩
      rw [continuation, Nat.pow_zero, Nat.div_one]
      rfl
  | succ owed ih =>
      obtain ⟨more, rest, hvalue, hge, hle, rfl, hpieces⟩ := inside_cons hlow hhigh h
      rw [if_neg (by omega)] at hpieces
      rw [hpieces] at h
      obtain ⟨whole, last, hwhole, -, -, hrest, hfound⟩ := ih (Nat.le_refl _) (Nat.le_refl _) h
      refine ⟨whole, last, ?_, ?_⟩
      · rw [Nat.pow_succ, ← Nat.div_div_eq_div_mul, hwhole, hvalue]
      · rw [hwhole]
        refine ⟨hge, hle, ?_, hpieces.trans hfound⟩
        rw [continuation, hwhole, hrest]
        rfl

/-! ## All characters -/

theorem toNat_ofNat {value : Nat} (h : value.isValidChar) : (Char.ofNat value).toNat = value := by
  rw [Char.ofNat, dif_pos h]
  rfl

/-- The first byte of a character of more than one byte; the others continue it. -/
theorem encodeChar_continuation {c : Char} (h : 0x80 ≤ c.toNat) :
    encodeChar c =
      if c.toNat < 0x800 then UInt8.ofNat (0xC0 + c.toNat / 0x40) :: continuation 1 c.toNat
      else if c.toNat < 0x10000 then
        UInt8.ofNat (0xE0 + c.toNat / 0x40 ^ 2) :: continuation 2 c.toNat
      else UInt8.ofNat (0xF0 + c.toNat / 0x40 ^ 3) :: continuation 3 c.toNat := by
  rw [encodeChar, if_neg (Nat.not_lt.2 h)]
  simp [continuation]

/-- The byte and some that follow it are a character, and reading goes on after these. -/
def Opens (byte : UInt8) (bytes : List UInt8) : Prop :=
  ∃ c tail rest, encodeChar c = byte :: tail ∧ bytes = tail ++ rest ∧
    piecesFrom .between [] (byte :: bytes) = some c :: piecesFrom .between [] rest

/-- A first byte that owes others makes a character with them. -/
theorem opens_of_inside (owed lead low high : Nat) {byte : UInt8} {bytes : List UInt8}
    (hlow : 0x80 ≤ low) (hhigh : high ≤ 0xBF)
    (hbegin : Place.begin byte.toNat =
      some (.inside (owed + 1) low high (byte.toNat - lead), none))
    (hchar : ∀ whole, whole / 0x40 ^ (owed + 1) = byte.toNat - lead →
      low ≤ 0x80 + whole / 0x40 ^ owed % 0x40 → 0x80 + whole / 0x40 ^ owed % 0x40 ≤ high →
      encodeChar (Char.ofNat whole) = byte :: continuation (owed + 1) whole)
    (h : none ∉ piecesFrom .between [] (byte :: bytes)) : Opens byte bytes := by
  have hfirst : piecesFrom .between [] (byte :: bytes) =
      piecesFrom (.inside (owed + 1) low high (byte.toNat - lead)) [] bytes := by
    rw [piecesFrom_cons_eq, next_between hbegin]
    rfl
  rw [hfirst] at h
  obtain ⟨whole, rest, hwhole, hge, hle, hbytes, hpieces⟩ := inside_complete owed hlow hhigh h
  exact ⟨Char.ofNat whole, _, rest, hchar whole hwhole hge hle, hbytes, hfirst.trans hpieces⟩

/-- Without a byte astray, what begins between characters is a character. -/
theorem opens_of_strayless {byte : UInt8} {bytes : List UInt8}
    (h : none ∉ piecesFrom .between [] (byte :: bytes)) : Opens byte bytes := by
  have hbyte : byte.toNat < 0x100 := byte.toNat_lt
  by_cases hone : byte.toNat < 0x80
  · have hvalid : byte.toNat.isValidChar := .inl (by omega)
    refine ⟨Char.ofNat byte.toNat, [], bytes, ?_, rfl, ?_⟩
    · rw [encodeChar_ascii (by rwa [toNat_ofNat hvalid]), toNat_ofNat hvalid, UInt8.ofNat_toNat]
    · simp [piecesFrom_cons_eq, Place.next, Place.begin, hone]
  by_cases hnone : byte.toNat < 0xC2
  · simp [piecesFrom_cons_eq, Place.next, Place.begin, hone, hnone] at h
  by_cases htwo : byte.toNat < 0xE0
  · refine opens_of_inside 0 0xC0 0x80 0xBF (Nat.le_refl _) (Nat.le_refl _) ?_ ?_ h
    · simp [Place.begin, hone, hnone, htwo]
    · intro whole hwhole hge hle
      rw [Nat.zero_add, Nat.pow_one] at hwhole
      have hvalid : whole.isValidChar := .inl (by omega)
      have hlead : 0xC0 + whole / 0x40 = byte.toNat := by omega
      rw [encodeChar_continuation (by rw [toNat_ofNat hvalid]; omega), toNat_ofNat hvalid,
        if_pos (by omega), hlead, UInt8.ofNat_toNat]
  by_cases hthree : byte.toNat < 0xF0
  · refine opens_of_inside 1 0xE0 (if byte.toNat = 0xE0 then 0xA0 else 0x80)
      (if byte.toNat = 0xED then 0x9F else 0xBF) (by split <;> omega) (by split <;> omega) ?_ ?_ h
    · simp [Place.begin, hone, hnone, htwo, hthree]
    · intro whole hwhole hge hle
      have hlead : 0xE0 + whole / 0x40 ^ 2 = byte.toNat := by omega
      -- no short value and no surrogate
      have hlow : 0x800 ≤ whole ∧ whole < 0x10000 := by split at hge <;> omega
      have hvalid : whole.isValidChar := by
        unfold Nat.isValidChar
        split at hle <;> omega
      rw [encodeChar_continuation (by rw [toNat_ofNat hvalid]; omega), toNat_ofNat hvalid,
        if_neg (by omega), if_pos (by omega), hlead, UInt8.ofNat_toNat]
  by_cases hfour : byte.toNat < 0xF5
  · refine opens_of_inside 2 0xF0 (if byte.toNat = 0xF0 then 0x90 else 0x80)
      (if byte.toNat = 0xF4 then 0x8F else 0xBF) (by split <;> omega) (by split <;> omega) ?_ ?_ h
    · simp [Place.begin, hone, hnone, htwo, hthree, hfour]
    · intro whole hwhole hge hle
      have hlead : 0xF0 + whole / 0x40 ^ 3 = byte.toNat := by omega
      -- no short value and none beyond the last plane
      have hlow : 0x10000 ≤ whole := by split at hge <;> omega
      have hvalid : whole.isValidChar := by
        unfold Nat.isValidChar
        split at hle <;> omega
      rw [encodeChar_continuation (by rw [toNat_ofNat hvalid]; omega), toNat_ofNat hvalid,
        if_neg (by omega), if_neg (by omega), hlead, UInt8.ofNat_toNat]
  · simp [piecesFrom_cons_eq, Place.next, Place.begin, hone, hnone, htwo, hthree, hfour] at h

theorem encode_of_strayless {bytes : List UInt8} (h : none ∉ piecesFrom .between [] bytes) :
    ∃ text, bytes = encode text := by
  induction hlen : bytes.length using Nat.strongRecOn generalizing bytes with
  | ind n ih =>
      cases bytes with
      | nil => exact ⟨[], rfl⟩
      | cons byte bytes =>
          obtain ⟨c, tail, rest, hchar, rfl, hpieces⟩ := opens_of_strayless h
          rw [hpieces, List.mem_cons, not_or] at h
          have hshort : rest.length < n := by
            rw [← hlen, List.length_cons, List.length_append]
            omega
          obtain ⟨text, rfl⟩ := ih rest.length hshort h.2 rfl
          exact ⟨c :: text, by rw [encode_cons, hchar, List.cons_append]⟩

end Utf8

/-- The bytes that read as a text are its bytes. -/
theorem decode?_eq_some {bytes : List UInt8} {text : String} :
    Utf8.decode? bytes = some text ↔ bytes = Text.bytes text := by
  constructor
  · intro h
    have hall : none ∉ Utf8.piecesFrom .between [] bytes := by
      unfold Utf8.decode? at h
      simp only at h
      split at h
      next hall => exact fun hmem => by simpa using List.all_eq_true.1 hall none hmem
      next => cases h
    obtain ⟨found, rfl⟩ := Utf8.encode_of_strayless hall
    rw [Utf8.decode?_encode, Option.some.injEq] at h
    rw [Text.bytes, ← h, String.toList_ofList]
  · rintro rfl
    exact decode?_bytes text

end Text

end ChatGateway
