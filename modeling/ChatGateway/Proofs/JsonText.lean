import ChatGateway.Json.Printer
import ChatGateway.Json.Reader
import ChatGateway.Proofs.Utf8

/-!
# Reading what was written as JSON

The compact text of a value reads back as the value, for every value that opens no more
brackets than a reader accepts and whose numbers are whole and of 64 bits.
-/

namespace ChatGateway

namespace Json

namespace Reader

open Text

theorem bind_ok {reader : Reader α} {next : α -> Reader β} {input rest : List UInt8} {found : α}
    (h : reader input = .ok (found, rest)) : (reader >>= next) input = next found rest := by
  simp only [bind, StateT.bind, h]
  rfl

theorem map_ok {reader : Reader α} {f : α -> β} {input rest : List UInt8} {found : α}
    (h : reader input = .ok (found, rest)) : (f <$> reader) input = .ok (f found, rest) := by
  simp only [Functor.map, StateT.map, bind, h]
  rfl

theorem bind_eq_ok {reader : Reader α} {next : α -> Reader β} {input rest : List UInt8} {found : β}
    (h : (reader >>= next) input = .ok (found, rest)) :
    ∃ first middle, reader input = .ok (first, middle) ∧ next first middle = .ok (found, rest) := by
  change (reader input >>= fun pair => next pair.1 pair.2) = _ at h
  cases hfirst : reader input with
  | error fault =>
      rw [hfirst] at h
      cases h
  | ok pair =>
      rw [hfirst] at h
      exact ⟨pair.1, pair.2, rfl, h⟩

/-- A whole byte string is read if nothing but blanks is left of it. -/
theorem run_eq_ok {reader : Nat -> Reader α} {input : List UInt8} {found : α} :
    run reader input = .ok found ↔
      ∃ rest, reader nesting input = .ok (found, rest) ∧ rest.all isBlank = true := by
  constructor
  · intro h
    unfold run at h
    split at h
    · cases h
    next other rest hread =>
      split at h
      next hblank =>
        cases h
        exact ⟨rest, hread, hblank⟩
      next => cases h
  · rintro ⟨rest, hread, hblank⟩
    simp only [run, hread, hblank, if_true]

/-! ## Texts -/

/-- A byte that stands for itself between quotes. -/
def IsPlain (byte : UInt8) : Prop :=
  0x20 ≤ byte.toNat ∧ byte.toNat ≠ 0x22 ∧ byte.toNat ≠ 0x5C

theorem scanText_plain {byte : UInt8} (held rest : List UInt8) (h : IsPlain byte) :
    scanText true .plain held (byte :: rest) = scanText true .plain (byte :: held) rest := by
  obtain ⟨hcontrol, hmark, hslash⟩ := h
  have hmark' : byte ≠ quoteMark := fun heq => hmark (by rw [heq]; rfl)
  have hslash' : byte ≠ backslash := fun heq => hslash (by rw [heq]; rfl)
  have hcontrol' : ¬ byte < 0x20 := by
    rw [UInt8.lt_iff_toNat_lt]
    exact Nat.not_lt.2 hcontrol
  simp [scanText, Inside.next, hmark', hslash', hcontrol']

theorem scanText_plain_append {bytes : List UInt8} (held rest : List UInt8)
    (h : ∀ byte ∈ bytes, IsPlain byte) :
    scanText true .plain held (bytes ++ rest) =
      scanText true .plain (bytes.reverse ++ held) rest := by
  induction bytes generalizing held with
  | nil =>
      rfl
  | cons byte bytes ih =>
      have hrest : ∀ other ∈ bytes, IsPlain other := fun other hother =>
        h other (List.mem_cons_of_mem _ hother)
      rw [List.cons_append, scanText_plain held _ (h byte List.mem_cons_self), ih _ hrest]
      simp

theorem hexValue_hexDigit :
    ∀ digit, digit < 16 → Utf8.encodeChar (hexDigit digit) = [UInt8.ofNat (hexDigit digit).toNat] ∧
      hexValue (UInt8.ofNat (hexDigit digit).toNat) = some digit := by
  decide

/-- Four hexadecimal digits stand for a code point that is no surrogate. -/
theorem scanText_digits {high low : Nat} {first second : UInt8} (held rest : List UInt8)
    (hfirst : hexValue first = some high) (hsecond : hexValue second = some low)
    (h : high * 16 + low < 0xD800) :
    scanText true .plain held (0x5C :: 0x75 :: 0x30 :: 0x30 :: first :: second :: rest) =
      scanText true .plain
        ((Utf8.encodeChar (Char.ofNat (high * 16 + low))).reverse ++ held) rest := by
  have hzero : hexValue 0x30 = some 0 := by decide
  have hleading : isLeading (high * 16 + low) = false := by
    simp [isLeading]
    omega
  have htrailing : isTrailing (high * 16 + low) = false := by
    simp [isTrailing]
    omega
  simp [scanText, Inside.next, backslash, quoteMark, hzero, hfirst, hsecond, completeUnit,
    hleading, htrailing]

theorem scanText_escape (c : Char) (held rest : List UInt8) :
    scanText true .plain held (Utf8.encode (escape c) ++ rest) =
      scanText true .plain ((Utf8.encodeChar c).reverse ++ held) rest := by
  unfold escape
  split
  · next h => subst h; rfl
  split
  · next h => subst h; rfl
  split
  · next h => subst h; rfl
  split
  · next h => subst h; rfl
  split
  · next h => subst h; rfl
  split
  · next h => subst h; rfl
  split
  · next h => subst h; rfl
  split
  · next hcontrol =>
      obtain ⟨hhigh, hhighValue⟩ := hexValue_hexDigit (c.toNat / 0x10) (by omega)
      obtain ⟨hlow, hlowValue⟩ := hexValue_hexDigit (c.toNat % 0x10) (by omega)
      have hvalue : c.toNat / 0x10 * 16 + c.toNat % 0x10 = c.toNat := Nat.div_add_mod' _ _
      have hscan := scanText_digits held rest hhighValue hlowValue (by omega)
      rw [hvalue, Char.ofNat_toNat] at hscan
      rw [← hscan]
      simp only [Utf8.encode_cons, Utf8.encode_nil, hhigh, hlow]
      rfl
  · next hmark hslash _ _ _ _ _ hcontrol =>
      have hplain : ∀ byte ∈ Utf8.encodeChar c, IsPlain byte := by
        intro byte hbyte
        have hne : c.toNat ≠ 0x22 ∧ c.toNat ≠ 0x5C := by
          constructor
          · intro heq
            exact hmark (by rw [← Char.ofNat_toNat c, heq])
          · intro heq
            exact hslash (by rw [← Char.ofNat_toNat c, heq])
        unfold IsPlain
        rcases Utf8.toNat_of_mem_encodeChar hbyte with heq | hhigh
        · rw [heq]
          exact ⟨by omega, hne.1, hne.2⟩
        · omega
      rw [Utf8.encode_cons, Utf8.encode_nil, List.append_nil]
      exact scanText_plain_append held rest hplain

theorem scanText_escapes (text : List Char) (held rest : List UInt8) :
    scanText true .plain held (Utf8.encode (text.flatMap escape) ++ quoteMark :: rest) =
      .ok (held.reverse ++ Utf8.encode text, rest) := by
  induction text generalizing held with
  | nil =>
      simp [scanText]
  | cons c text ih =>
      rw [List.flatMap_cons, Utf8.encode_append, List.append_assoc, scanText_escape, ih,
        Utf8.encode_cons]
      simp

/-- A text in quotes reads back, once the opening quote is taken. -/
theorem quoted_quote (text : String) (rest : List UInt8) :
    quoted (Utf8.encode (text.toList.flatMap escape ++ ['"']) ++ rest) = .ok (text, rest) := by
  have hmark : Utf8.encode ['"'] = [quoteMark] := by decide
  rw [Utf8.encode_append, List.append_assoc, hmark, List.singleton_append, quoted,
    scanText_escapes]
  simp [Utf8.decode?_encode]

/-! ## Whole numbers -/

/-- What comes next does not go on with a number. -/
def EndsNumber (rest : List UInt8) : Prop :=
  ∀ byte ∈ rest.head?, isDigit byte = false ∧ byte ≠ 0x2E ∧ byte ≠ 0x65 ∧ byte ≠ 0x45

theorem endsNumber_cons {byte : UInt8} (rest : List UInt8) (hdigit : isDigit byte = false)
    (h : byte ≠ 0x2E ∧ byte ≠ 0x65 ∧ byte ≠ 0x45) : EndsNumber (byte :: rest) := by
  intro other hother
  cases hother
  exact ⟨hdigit, h⟩

theorem takeIf_of_true {test : UInt8 -> Bool} {byte : UInt8} (rest : List UInt8)
    (h : test byte = true) : takeIf test (byte :: rest) = .ok (some byte, rest) := by
  simp [takeIf, h]

theorem takeIf_of_false {test : UInt8 -> Bool} {input : List UInt8}
    (h : ∀ byte ∈ input.head?, test byte = false) : takeIf test input = .ok (none, input) := by
  cases input with
  | nil => rfl
  | cons byte rest => simp [takeIf, h byte rfl]

/-- The values of the decimal digits of a number, the highest first. -/
def decimals (n : Nat) : List Nat :=
  (Nat.toDigits 10 n).map fun c => c.toNat - 0x30

theorem ofDigits_decimals (n : Nat) : Numeral.ofDigits (decimals n) = n := by
  have hvalue := Nat.ofDigitChars_toDigits (b := 10) (n := n) (by omega) (by omega)
  rw [Nat.ofDigitChars_eq_foldl] at hvalue
  rw [Numeral.ofDigits, decimals, List.foldl_map]
  simpa [Nat.mul_comm] using hvalue

theorem decimals_ne_nil (n : Nat) : decimals n ≠ [] := by
  simp [decimals, Nat.toDigits_ne_nil]

/-- A number has no leading zero, unless it is zero. -/
theorem head?_decimals (n : Nat) : (decimals n).head? = some 0 → (decimals n).length = 1 := by
  induction n using Nat.strongRecOn with
  | ind n ih =>
      by_cases hsmall : n < 10
      · simp [decimals, Nat.toDigits_of_lt_base hsmall]
      · have hpos : 0 < n / 10 := by omega
        have hsplit : decimals n = decimals (n / 10) ++ decimals (n % 10) := by
          rw [decimals, decimals, decimals, Nat.toDigits_of_base_le (by omega) (by omega),
            Nat.toDigits_of_lt_base (Nat.mod_lt n (by omega)), List.map_append]
        obtain ⟨first, more, hhead⟩ := List.exists_cons_of_ne_nil (decimals_ne_nil (n / 10))
        rw [hsplit, hhead]
        intro hzero
        exfalso
        have hfirst : first = 0 := by simpa using hzero
        have hone := ih (n / 10) (by omega) (by rw [hhead, hfirst]; rfl)
        have hmore : more = [] := by simpa [hhead] using hone
        have hvalue := ofDigits_decimals (n / 10)
        rw [hhead, hmore, hfirst] at hvalue
        simp only [Numeral.ofDigits, List.foldl_cons, List.foldl_nil] at hvalue
        omega

theorem isDigit_byte {c : Char} (h : c.isDigit = true) :
    Utf8.encodeChar c = [UInt8.ofNat c.toNat] ∧ isDigit (UInt8.ofNat c.toNat) = true ∧
      digitValue (UInt8.ofNat c.toNat) = c.toNat - 0x30 := by
  have hrange : 0x30 ≤ c.toNat ∧ c.toNat ≤ 0x39 := by
    simpa [Char.isDigit, UInt32.le_iff_toNat_le] using h
  have hbyte : (UInt8.ofNat c.toNat).toNat = c.toNat := Utf8.toNat_byte (by omega)
  refine ⟨Utf8.encodeChar_ascii (by omega), ?_, ?_⟩
  · simp [isDigit, UInt8.le_iff_toNat_le, hbyte, hrange]
  · rw [digitValue, hbyte]

theorem digits_append {text : List Char} {rest : List UInt8}
    (htext : ∀ c ∈ text, c.isDigit = true) (hrest : ∀ byte ∈ rest.head?, isDigit byte = false) :
    digits (Utf8.encode text ++ rest) = .ok (text.map fun c => c.toNat - 0x30, rest) := by
  induction text with
  | nil =>
      cases rest with
      | nil => rfl
      | cons byte rest => simp [digits, hrest byte rfl]
  | cons c text ih =>
      obtain ⟨hbytes, hdigit, hvalue⟩ := isDigit_byte (htext c List.mem_cons_self)
      have hmore := ih fun other hother => htext other (List.mem_cons_of_mem _ hother)
      simp only [digits, Except.ok.injEq, Prod.mk.injEq] at hmore
      simp [digits, hbytes, hdigit, hvalue, hmore]

theorem someDigits_toDigits (n : Nat) {rest : List UInt8}
    (hrest : ∀ byte ∈ rest.head?, isDigit byte = false) :
    someDigits (Utf8.encode (Nat.toDigits 10 n) ++ rest) = .ok (decimals n, rest) := by
  have htext : ∀ c ∈ Nat.toDigits 10 n, c.isDigit = true := fun c hc =>
    Nat.isDigit_of_mem_toDigits (by omega) (by omega) hc
  have hsome : (decimals n).isEmpty = false := by simp [decimals_ne_nil]
  rw [someDigits, bind_ok (digits_append htext hrest)]
  change (if (decimals n).isEmpty then malformed else pure (decimals n)) rest = _
  simp only [hsome, Bool.false_eq_true, if_false]
  rfl

/-- The digits of a number after its sign, if what comes next does not go on with them. -/
theorem numeral_toDigits {input rest : List UInt8} {sign : Option UInt8} (n : Nat)
    (hsign : takeIf (fun byte => byte = 0x2D) input =
      .ok (sign, Utf8.encode (Nat.toDigits 10 n) ++ rest))
    (hrest : EndsNumber rest) :
    numeral input = .ok (⟨sign.isSome, decimals n, none, none⟩, rest) := by
  have hlength : ¬ ((decimals n).head? = some 0 ∧ 1 < (decimals n).length) := by
    rintro ⟨hzero, hlong⟩
    have hone := head?_decimals n hzero
    omega
  have hpoint : takeIf (fun byte => decide (byte = 0x2E)) rest = .ok (none, rest) :=
    takeIf_of_false fun byte hbyte => by simp [(hrest byte hbyte).2.1]
  have hmark : takeIf (fun byte => decide (byte = 0x65) || decide (byte = 0x45)) rest =
      .ok (none, rest) :=
    takeIf_of_false fun byte hbyte => by
      simp [(hrest byte hbyte).2.2.1, (hrest byte hbyte).2.2.2]
  rw [numeral, bind_ok hsign,
    bind_ok (someDigits_toDigits n fun byte hbyte => (hrest byte hbyte).1), if_neg hlength,
    bind_ok hpoint]
  simp only [Option.isSome_none, Bool.false_eq_true, if_false, pure_bind]
  rw [bind_ok hmark]
  rfl

theorem number_of_numeral {input rest : List UInt8} {written : Numeral} {value : Int}
    (hnumeral : numeral input = .ok (written, rest)) (hvalue : written.int? = some value) :
    number input = .ok (.int value, rest) := by
  rw [number, bind_ok hnumeral]
  simp only [Numeral.value?, hvalue]
  rfl

/-- The whole numbers that stay whole: those of 64 bits, with a sign or without. -/
def IsWhole (value : Int) : Prop :=
  -9223372036854775808 ≤ value ∧ value < 18446744073709551616

theorem toList_ofNat (n : Nat) : (toString (Int.ofNat n)).toList = Nat.toDigits 10 n :=
  Nat.toList_repr

theorem toList_negSucc (n : Nat) :
    (toString (Int.negSucc n)).toList = '-' :: Nat.toDigits 10 (n + 1) := by
  show ("-" ++ Nat.repr (n + 1)).toList = _
  rw [String.toList_append, Nat.toList_repr]
  rfl

theorem front_toDigits (n : Nat) :
    ∃ byte tail, Utf8.encode (Nat.toDigits 10 n) = byte :: tail ∧ isDigit byte = true := by
  obtain ⟨c, more, hdigits⟩ := List.exists_cons_of_ne_nil
    (Nat.toDigits_ne_nil (n := n) (b := 10))
  have hdigit : c.isDigit = true :=
    Nat.isDigit_of_mem_toDigits (b := 10) (n := n) (by omega) (by omega) (by simp [hdigits])
  obtain ⟨hbytes, hisDigit, _⟩ := isDigit_byte hdigit
  refine ⟨_, Utf8.encode more, ?_, hisDigit⟩
  rw [hdigits, Utf8.encode_cons, hbytes]
  rfl

theorem number_write {value : Int} {rest : List UInt8} (h : IsWhole value)
    (hrest : EndsNumber rest) :
    number (Utf8.encode (writeNumber (.int value)) ++ rest) = .ok (.int value, rest) := by
  cases value with
  | ofNat n =>
      have hbound : n < UInt64.size := by
        have hlt : (n : Int) < 18446744073709551616 := h.2
        simp only [UInt64.size]
        omega
      have hsign : takeIf (fun byte => byte = 0x2D)
          (Utf8.encode (Nat.toDigits 10 n) ++ rest) =
            .ok (none, Utf8.encode (Nat.toDigits 10 n) ++ rest) := by
        obtain ⟨byte, tail, hfront, hdigit⟩ := front_toDigits n
        apply takeIf_of_false
        intro other hother
        rw [hfront] at hother
        cases hother
        simp only [decide_eq_false_iff_not]
        intro heq
        rw [heq] at hdigit
        exact absurd hdigit (by decide)
      rw [writeNumber, toList_ofNat]
      refine number_of_numeral (numeral_toDigits n hsign hrest) ?_
      simp [Numeral.int?, ofDigits_decimals, hbound]
  | negSucc n =>
      have hbound : ¬ UInt64.size / 2 < n + 1 := by
        have hle := h.1
        simp only [UInt64.size]
        omega
      have hminus : Utf8.encodeChar '-' = [0x2D] := by decide
      have hsign : takeIf (fun byte => byte = 0x2D)
          (0x2D :: (Utf8.encode (Nat.toDigits 10 (n + 1)) ++ rest)) =
            .ok (some 0x2D, Utf8.encode (Nat.toDigits 10 (n + 1)) ++ rest) :=
        takeIf_of_true _ rfl
      rw [writeNumber, toList_negSucc, Utf8.encode_cons, hminus]
      refine number_of_numeral (numeral_toDigits (n + 1) hsign hrest) ?_
      simp [Numeral.int?, ofDigits_decimals, hbound, Int.negSucc_eq]

/-! ## Sequences -/

theorem peek_cons {byte : UInt8} (rest : List UInt8) (h : isBlank byte = false) :
    peek (byte :: rest) = .ok (byte, byte :: rest) := by
  simp [peek, h]

def separated : List (List UInt8) -> List UInt8
  | [] => []
  | [piece] => piece
  | piece :: next :: rest => piece ++ 0x2C :: separated (next :: rest)

theorem length_separated {pieces : List (List UInt8)} (h : ∀ piece ∈ pieces, piece ≠ []) :
    pieces.length ≤ (separated pieces).length := by
  induction pieces with
  | nil =>
      simp
  | cons piece pieces ih =>
      have hfirst : 0 < piece.length := List.length_pos_iff.2 (h piece List.mem_cons_self)
      have hrest := ih fun other hother => h other (List.mem_cons_of_mem _ hother)
      cases pieces with
      | nil =>
          simp only [separated, List.length_cons, List.length_nil]
          omega
      | cons next pieces =>
          simp only [separated, List.length_cons, List.length_append] at hrest ⊢
          omega

section Sequences

variable {σ β : Type} {close : UInt8} {step : σ -> Reader σ} {write : β -> List UInt8}
  {push : σ -> β -> σ}

/-- The step takes one written item off, before a comma and before the closing bracket. -/
def TakesItem (close : UInt8) (step : σ -> Reader σ) (write : β -> List UInt8)
    (push : σ -> β -> σ) (item : β) : Prop :=
  ∀ (state : σ) (mark : UInt8) (rest : List UInt8), mark = close ∨ mark = 0x2C →
    step state (write item ++ mark :: rest) = .ok (push state item, mark :: rest)

theorem foldItems_separated (hblank : isBlank close = false) (hcomma : close ≠ 0x2C)
    {item : β} {list : List β} (fuel : Nat) (state : σ) (rest : List UInt8)
    (hsteps : ∀ other ∈ item :: list, TakesItem close step write push other)
    (hfuel : list.length < fuel) :
    foldItems close step fuel state (separated ((item :: list).map write) ++ close :: rest) =
      .ok ((item :: list).foldl push state, rest) := by
  induction list generalizing item state fuel with
  | nil =>
      obtain ⟨fuel, rfl⟩ : ∃ less, fuel = less + 1 := ⟨fuel - 1, by omega⟩
      have hstep := hsteps item List.mem_cons_self state close rest (Or.inl rfl)
      simp only [List.map_cons, List.map_nil, separated, foldItems]
      rw [bind_ok hstep, bind_ok (peek_cons rest hblank), if_pos rfl]
      rfl
  | cons next list ih =>
      obtain ⟨fuel, rfl⟩ : ∃ less, fuel = less + 1 := ⟨fuel - 1, by omega⟩
      have hstep := hsteps item List.mem_cons_self state 0x2C
        (separated ((next :: list).map write) ++ close :: rest) (Or.inr rfl)
      have hmore := ih fuel (push state item)
        (fun other hother => hsteps other (List.mem_cons_of_mem _ hother))
        (by simp only [List.length_cons] at hfuel; omega)
      simp only [List.map_cons, separated, foldItems, List.append_assoc, List.cons_append]
      simp only [List.map_cons] at hstep hmore
      rw [bind_ok hstep, bind_ok (peek_cons _ (by decide)), if_neg (Ne.symm hcomma), if_pos rfl]
      exact hmore

theorem items_separated (hblank : isBlank close = false) (hcomma : close ≠ 0x2C)
    {list : List β} (state : σ) (rest : List UInt8)
    (hsteps : ∀ item ∈ list, TakesItem close step write push item)
    (hstarts : ∀ item ∈ list, ∃ byte tail, write item = byte :: tail ∧
      isBlank byte = false ∧ byte ≠ close) :
    items close step state (separated (list.map write) ++ close :: rest) =
      .ok (list.foldl push state, rest) := by
  cases list with
  | nil =>
      rw [items, List.map_nil, separated, List.nil_append, bind_ok (peek_cons rest hblank),
        if_pos rfl]
      rfl
  | cons item list =>
      obtain ⟨byte, tail, hwrite, hbyte, hclose⟩ := hstarts item List.mem_cons_self
      have hfront : ∃ more, separated ((item :: list).map write) = byte :: more := by
        cases list with
        | nil => exact ⟨tail, by simp [separated, hwrite]⟩
        | cons next list => exact ⟨_, by simp only [List.map_cons, separated, hwrite]; rfl⟩
      have hfuel : list.length <
          (separated ((item :: list).map write) ++ close :: rest).length := by
        have hlength := @length_separated ((item :: list).map write) (by
          intro piece hpiece
          obtain ⟨other, hother, rfl⟩ := List.mem_map.1 hpiece
          obtain ⟨_, _, hcons, _⟩ := hstarts other hother
          simp [hcons])
        simp only [List.length_map, List.length_cons, List.length_append] at hlength ⊢
        omega
      have hfold := foldItems_separated hblank hcomma _ state rest hsteps hfuel
      obtain ⟨more, hmore⟩ := hfront
      rw [hmore] at hfold ⊢
      rw [items, List.cons_append, bind_ok (peek_cons _ hbyte), if_neg hclose]
      exact hfold

end Sequences

/-! ## Whole values -/

theorem encode_writeItems (items : List Json) :
    Utf8.encode (writeItems items) =
      separated (items.map fun item => Utf8.encode item.write) := by
  induction items with
  | nil =>
      rfl
  | cons item rest ih =>
      cases rest with
      | nil => rfl
      | cons next rest =>
          have hcomma : Utf8.encodeChar ',' = [0x2C] := by decide
          simp only [writeItems, List.map_cons, separated, Utf8.encode_append, Utf8.encode_cons,
            hcomma] at ih ⊢
          rw [ih]
          rfl

/-- The bytes of a member: its name in quotes, a colon and its value. -/
def memberBytes (member : String × Json) : List UInt8 :=
  Utf8.encode (quote member.1) ++ 0x3A :: Utf8.encode member.2.write

theorem encode_writeMembers (members : List (String × Json)) :
    Utf8.encode (writeMembers members) = separated (members.map memberBytes) := by
  have hcolon : Utf8.encodeChar ':' = [0x3A] := by decide
  induction members with
  | nil =>
      rfl
  | cons member rest ih =>
      obtain ⟨name, value⟩ := member
      cases rest with
      | nil =>
          simp only [writeMembers, List.map_cons, List.map_nil, separated, memberBytes,
            Utf8.encode_append, Utf8.encode_cons, hcolon]
          rfl
      | cons next rest =>
          have hcomma : Utf8.encodeChar ',' = [0x2C] := by decide
          simp only [writeMembers, List.map_cons, separated, memberBytes, Utf8.encode_append,
            Utf8.encode_cons, hcolon, hcomma] at ih ⊢
          rw [ih]
          simp

theorem encode_array (items : List Json) : Utf8.encode (write (.array items)) =
    0x5B :: (separated (items.map fun item => Utf8.encode item.write) ++ [0x5D]) := by
  have hopen : Utf8.encodeChar '[' = [0x5B] := by decide
  have hclose : Utf8.encode [']'] = [0x5D] := by decide
  rw [write, Utf8.encode_cons, hopen, Utf8.encode_append, hclose, encode_writeItems]
  rfl

theorem encode_object (members : List (String × Json)) : Utf8.encode (write (.object members)) =
    0x7B :: (separated (members.map memberBytes) ++ [0x7D]) := by
  have hopen : Utf8.encodeChar '{' = [0x7B] := by decide
  have hclose : Utf8.encode ['}'] = [0x7D] := by decide
  rw [write, Utf8.encode_cons, hopen, Utf8.encode_append, hclose, encode_writeMembers]
  rfl

theorem encode_quote (text : String) :
    Utf8.encode (quote text) =
      quoteMark :: Utf8.encode (text.toList.flatMap escape ++ ['"']) := by
  have hmark : Utf8.encodeChar '"' = [quoteMark] := by decide
  rw [quote, Utf8.encode_cons, hmark]
  rfl

theorem expect_cons {byte : UInt8} (rest : List UInt8) (h : isBlank byte = false) :
    expect byte (byte :: rest) = .ok ((), rest) := by
  rw [expect, bind_ok (peek_cons rest h), if_pos rfl]
  rfl

theorem name_quote (text : String) (rest : List UInt8) :
    name (Utf8.encode (quote text) ++ 0x3A :: rest) = .ok (text, rest) := by
  rw [encode_quote, List.cons_append, name, bind_ok (expect_cons _ (by decide)),
    bind_ok (quoted_quote text _), bind_ok (expect_cons _ (by decide))]
  rfl

theorem word_append (letters : String) (rest : List UInt8) :
    word letters (Text.ascii letters ++ rest) = .ok ((), rest) := by
  simp [word]

theorem drop_cons (byte : UInt8) (rest : List UInt8) : drop (byte :: rest) = .ok ((), rest) := rfl

/-- The reader takes the text of a value off, whatever follows that does not go on with it. -/
def Takes (inside : Reader Json) (value : Json) : Prop :=
  ∀ rest, EndsNumber rest → inside (Utf8.encode value.write ++ rest) = .ok (value, rest)

section Brackets

variable {inside : Reader Json}

theorem arrayOf_write {list : List Json} (rest : List UInt8)
    (hinside : ∀ item ∈ list, Takes inside item)
    (hstarts : ∀ item ∈ list, ∃ byte tail, Utf8.encode item.write = byte :: tail ∧
      isBlank byte = false ∧ byte ≠ 0x5D) :
    arrayOf inside (Utf8.encode (write (.array list)) ++ rest) = .ok (list, rest) := by
  have hsteps : ∀ item ∈ list, TakesItem 0x5D
      (fun held => do
        let item ← inside
        pure (item :: held))
      (fun item => Utf8.encode item.write) (fun held item => item :: held) item := by
    intro item hitem held mark tail hmark
    have htake := hinside item hitem (mark :: tail) (by
      rcases hmark with rfl | rfl <;> exact endsNumber_cons tail (by decide) (by decide))
    show (inside >>= fun item => pure (item :: held)) _ = _
    rw [bind_ok htake]
    rfl
  have hitems := items_separated (by decide) (by decide) [] rest hsteps hstarts
  rw [encode_array, List.cons_append, List.append_assoc, List.singleton_append, arrayOf,
    bind_ok (drop_cons _ _), bind_ok hitems]
  rw [List.foldl_flip_cons_eq_append', List.append_nil, List.reverse_reverse]
  rfl

theorem objectOf_write {list : List (String × Json)} (rest : List UInt8)
    (hinside : ∀ member ∈ list, Takes inside member.2) :
    objectOf inside (Utf8.encode (write (.object list)) ++ rest) = .ok (list, rest) := by
  have hsteps : ∀ member ∈ list, TakesItem 0x7D
      (fun held => do
        let name ← name
        let item ← inside
        pure ((name, item) :: held))
      memberBytes (fun held member => member :: held) member := by
    intro member hmember held mark tail hmark
    have htake := hinside member hmember (mark :: tail) (by
      rcases hmark with rfl | rfl <;> exact endsNumber_cons tail (by decide) (by decide))
    show (name >>= fun name => inside >>= fun item => pure ((name, item) :: held)) _ = _
    rw [memberBytes, List.append_assoc, List.cons_append, bind_ok (name_quote member.1 _),
      bind_ok htake]
    rfl
  have hstarts : ∀ member ∈ list, ∃ byte tail, memberBytes member = byte :: tail ∧
      isBlank byte = false ∧ byte ≠ 0x7D := by
    intro member _
    rw [memberBytes, encode_quote]
    exact ⟨quoteMark, _, rfl, by decide, by decide⟩
  have hitems := items_separated (by decide) (by decide) [] rest hsteps hstarts
  rw [encode_object, List.cons_append, List.append_assoc, List.singleton_append, objectOf,
    bind_ok (drop_cons _ _), bind_ok hitems]
  rw [List.foldl_flip_cons_eq_append', List.append_nil, List.reverse_reverse]
  rfl

end Brackets

/-! ## Values within a reader's nesting -/

/-- The value opens at most `depth` brackets inside one another and holds whole numbers only. -/
def Fits : Nat -> Json -> Prop
  | _, .null => True
  | _, .bool _ => True
  | _, .text _ => True
  | _, .number (.int value) => IsWhole value
  | _, .number _ => False
  | 0, .array _ => False
  | 0, .object _ => False
  | depth + 1, .array items => ∀ item ∈ items, Fits depth item
  | depth + 1, .object members => ∀ member ∈ members, Fits depth member.2

theorem isWhole_uint32 (n : UInt32) : IsWhole (n.toNat : Int) := by
  have hlt := n.toNat_lt
  exact ⟨by omega, by omega⟩

theorem isWhole_uint64 (n : UInt64) : IsWhole (n.toNat : Int) := by
  have hlt := n.toNat_lt
  exact ⟨by omega, by omega⟩

theorem fits_text (depth : Nat) (text : String) : Fits depth (.text text) := by
  cases depth <;> trivial

theorem fits_null (depth : Nat) : Fits depth .null := by
  cases depth <;> trivial

theorem fits_nat {depth n : Nat} (h : IsWhole n) : Fits depth (.nat n) := by
  cases depth <;> exact h

theorem fits_object {depth : Nat} {members : List (String × Json)}
    (h : ∀ member ∈ members, Fits depth member.2) : Fits (depth + 1) (.object members) := h

theorem starts_number (value : Int) :
    ∃ byte tail, Utf8.encode (writeNumber (.int value)) = byte :: tail ∧
      (byte = 0x2D ∨ isDigit byte = true) := by
  cases value with
  | ofNat n =>
      obtain ⟨byte, tail, hfront, hdigit⟩ := front_toDigits n
      refine ⟨byte, tail, ?_, Or.inr hdigit⟩
      rw [writeNumber, toList_ofNat, hfront]
  | negSucc n =>
      have hminus : Utf8.encodeChar '-' = [0x2D] := by decide
      refine ⟨0x2D, Utf8.encode (Nat.toDigits 10 (n + 1)), ?_, Or.inl rfl⟩
      rw [writeNumber, toList_negSucc, Utf8.encode_cons, hminus]
      rfl

theorem of_starts_number {byte : UInt8} (h : byte = 0x2D ∨ isDigit byte = true) :
    isBlank byte = false ∧ byte ≠ 0x5D ∧ byte ≠ 0x6E ∧ byte ≠ 0x74 ∧ byte ≠ 0x66 ∧
      byte ≠ quoteMark ∧ byte ≠ 0x5B ∧ byte ≠ 0x7B := by
  rcases h with rfl | hdigit
  · decide
  · have hne (other : UInt8) (hother : isDigit other = false) : byte ≠ other := by
      rintro rfl
      rw [hdigit] at hother
      cases hother
    have hblank : isBlank byte = false := by
      simp [isBlank, hne 0x20 (by decide), hne 0x09 (by decide), hne 0x0A (by decide),
        hne 0x0D (by decide)]
    exact ⟨hblank, hne _ (by decide), hne _ (by decide), hne _ (by decide), hne _ (by decide),
      hne _ (by decide), hne _ (by decide), hne _ (by decide)⟩

/-- A written value begins with a byte that is not blank, and opens a bracket only if it may. -/
theorem starts_write {depth : Nat} {value : Json} (h : Fits depth value) :
    ∃ byte tail, Utf8.encode value.write = byte :: tail ∧ isBlank byte = false ∧
      byte ≠ 0x5D ∧ (depth = 0 → byte ≠ 0x5B ∧ byte ≠ 0x7B) := by
  have hfront {c : Char} {byte : UInt8} (tail : List Char) (hc : Utf8.encodeChar c = [byte]) :
      Utf8.encode (c :: tail) = byte :: Utf8.encode tail := by
    rw [Utf8.encode_cons, hc]
    rfl
  cases value with
  | null =>
      exact ⟨0x6E, _, hfront _ (by decide), by decide, by decide, fun _ => by decide⟩
  | bool value =>
      cases value with
      | false =>
          exact ⟨0x66, _, hfront _ (by decide), by decide, by decide, fun _ => by decide⟩
      | true =>
          exact ⟨0x74, _, hfront _ (by decide), by decide, by decide, fun _ => by decide⟩
  | number value =>
      cases value with
      | int value =>
          obtain ⟨byte, tail, hwrite, hfirst⟩ := starts_number value
          obtain ⟨hblank, hclose, _, _, _, _, harray, hobject⟩ := of_starts_number hfirst
          exact ⟨byte, tail, hwrite, hblank, hclose, fun _ => ⟨harray, hobject⟩⟩
      | double value => cases depth <;> exact absurd h (by simp [Fits])
      | single value => cases depth <;> exact absurd h (by simp [Fits])
  | text value =>
      exact ⟨quoteMark, _, encode_quote value, by decide, by decide, fun _ => by decide⟩
  | array items =>
      refine ⟨0x5B, _, hfront _ (by decide), by decide, by decide, ?_⟩
      rintro rfl
      exact absurd h (by simp [Fits])
  | object members =>
      refine ⟨0x7B, _, hfront _ (by decide), by decide, by decide, ?_⟩
      rintro rfl
      exact absurd h (by simp [Fits])

section Values

variable {inside : Reader Json} {depth : Nat}

theorem takes_null : Takes (valueWith inside) .null := by
  intro rest _
  have hwrite : Utf8.encode (write .null) = Text.ascii "null" := by decide
  have hfront : Text.ascii "null" ++ rest = 0x6E :: (Text.ascii "ull" ++ rest) := rfl
  rw [hwrite, valueWith, hfront, bind_ok (peek_cons _ (by decide)), if_pos rfl, ← hfront,
    bind_ok (word_append _ rest)]
  rfl

theorem takes_true : Takes (valueWith inside) (.bool true) := by
  intro rest _
  have hwrite : Utf8.encode (write (.bool true)) = Text.ascii "true" := by decide
  have hfront : Text.ascii "true" ++ rest = 0x74 :: (Text.ascii "rue" ++ rest) := rfl
  rw [hwrite, valueWith, hfront, bind_ok (peek_cons _ (by decide)), if_neg (by decide),
    if_pos rfl, ← hfront, bind_ok (word_append _ rest)]
  rfl

theorem takes_false : Takes (valueWith inside) (.bool false) := by
  intro rest _
  have hwrite : Utf8.encode (write (.bool false)) = Text.ascii "false" := by decide
  have hfront : Text.ascii "false" ++ rest = 0x66 :: (Text.ascii "alse" ++ rest) := rfl
  rw [hwrite, valueWith, hfront, bind_ok (peek_cons _ (by decide)), if_neg (by decide),
    if_neg (by decide), if_pos rfl, ← hfront, bind_ok (word_append _ rest)]
  rfl

theorem takes_text (text : String) : Takes (valueWith inside) (.text text) := by
  intro rest _
  rw [write, encode_quote, List.cons_append, valueWith, bind_ok (peek_cons _ (by decide)),
    if_neg (by decide), if_neg (by decide), if_neg (by decide), if_pos rfl,
    bind_ok (drop_cons _ _), map_ok (quoted_quote text rest)]

theorem takes_number {value : Int} (h : IsWhole value) :
    Takes (valueWith inside) (.number (.int value)) := by
  intro rest hrest
  obtain ⟨byte, tail, hwrite, hfirst⟩ := starts_number value
  obtain ⟨hblank, _, hnull, htrue, hfalse, hmark, _⟩ := of_starts_number hfirst
  have hnumber : (decide (byte = 0x2D) || isDigit byte) = true := by simpa using hfirst
  have hread := number_write h hrest
  rw [write, hwrite, List.cons_append] at *
  rw [valueWith, bind_ok (peek_cons _ hblank), if_neg hnull, if_neg htrue, if_neg hfalse,
    if_neg hmark, if_pos hnumber, map_ok hread]

theorem takes_array {list : List Json} (hinside : ∀ item ∈ list, Takes inside item)
    (hfits : ∀ item ∈ list, Fits depth item) : Takes (valueWith inside) (.array list) := by
  intro rest _
  have hstarts : ∀ item ∈ list, ∃ byte tail, Utf8.encode item.write = byte :: tail ∧
      isBlank byte = false ∧ byte ≠ 0x5D := by
    intro item hitem
    obtain ⟨byte, tail, hwrite, hblank, hne, _⟩ := starts_write (hfits item hitem)
    exact ⟨byte, tail, hwrite, hblank, hne⟩
  have harray := arrayOf_write rest hinside hstarts
  rw [encode_array, List.cons_append] at harray ⊢
  rw [valueWith, bind_ok (peek_cons _ (by decide)), if_neg (by decide), if_neg (by decide),
    if_neg (by decide), if_neg (by decide), if_neg (by decide), if_pos rfl, map_ok harray]

theorem takes_object {list : List (String × Json)}
    (hinside : ∀ member ∈ list, Takes inside member.2) :
    Takes (valueWith inside) (.object list) := by
  intro rest _
  have hobject := objectOf_write rest hinside
  rw [encode_object, List.cons_append] at hobject ⊢
  rw [valueWith, bind_ok (peek_cons _ (by decide)), if_neg (by decide), if_neg (by decide),
    if_neg (by decide), if_neg (by decide), if_neg (by decide), if_neg (by decide), if_pos rfl,
    map_ok hobject]

theorem takes_valueWith {value : Json} (hfits : Fits depth value)
    (hinside : ∀ less item, depth = less + 1 → Fits less item → Takes inside item) :
    Takes (valueWith inside) value := by
  cases value with
  | null => exact takes_null
  | bool value =>
      cases value with
      | false => exact takes_false
      | true => exact takes_true
  | text value => exact takes_text value
  | number value =>
      cases value with
      | int value => exact takes_number (by cases depth <;> exact hfits)
      | double value => cases depth <;> exact absurd hfits (by simp [Fits])
      | single value => cases depth <;> exact absurd hfits (by simp [Fits])
  | array list =>
      cases depth with
      | zero => exact absurd hfits (by simp [Fits])
      | succ depth =>
          exact takes_array (fun item hitem => hinside depth item rfl (hfits item hitem)) hfits
  | object list =>
      cases depth with
      | zero => exact absurd hfits (by simp [Fits])
      | succ depth =>
          exact takes_object fun member hmember =>
            hinside depth member.2 rfl (hfits member hmember)

theorem takes_flat {value : Json} (hfits : Fits 0 value) : Takes flat value := by
  intro rest hrest
  have htake : Takes (valueWith malformed) value :=
    takes_valueWith hfits fun less _ hless => absurd hless (by omega)
  obtain ⟨byte, tail, hwrite, hblank, _, hopen⟩ := starts_write hfits
  have hbracket : ¬ (decide (byte = 0x5B) || decide (byte = 0x7B)) = true := by
    simp [hopen rfl]
  have hvalue := htake rest hrest
  rw [hwrite, List.cons_append] at hvalue ⊢
  rw [flat, bind_ok (peek_cons _ hblank), if_neg hbracket, hvalue]

end Values

theorem takes_value (depth : Nat) :
    ∀ value, Fits depth value → Takes (Reader.value depth) value := by
  induction depth with
  | zero =>
      intro value hfits
      exact takes_flat hfits
  | succ depth ih =>
      intro value hfits
      refine takes_valueWith hfits ?_
      rintro less item hless hitem
      cases hless
      exact ih item hitem

end Reader

/-- The compact text of a value reads back as the value. -/
theorem read_render {value : Json} (h : Reader.Fits nesting value) :
    read (Text.bytes value.render) = .ok value := by
  have hbytes : Text.bytes value.render = Text.Utf8.encode value.write := by
    rw [Text.bytes, render, String.toList_ofList]
  have hread := Reader.takes_value nesting value h [] (by
    intro byte hbyte
    cases hbyte)
  rw [List.append_nil] at hread
  simp [read, Reader.run, hbytes, hread]

end Json

end ChatGateway
