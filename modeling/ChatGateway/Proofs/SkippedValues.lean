import ChatGateway.Proofs.SkipSteps

/-!
# Values that are skipped

What is read as a value a skip passes over, and it leaves the same bytes.  So it is with what a
record is read from: a text that is read as a record is JSON, whatever its unknown members are.
-/

namespace ChatGateway

namespace Json

namespace Reader

variable {α β σ : Type} {reader : Reader α} {inside : Reader Json}

/-! ## What a value begins with -/

/-- A value that is found, and what is left after it, by the byte that it begins with. -/
inductive Begins (inside : Reader Json) : UInt8 → List UInt8 → Json → List UInt8 → Prop
  | null {tail rest} (h : word "null" (0x6E :: tail) = .ok ((), rest)) :
      Begins inside 0x6E tail .null rest
  | true {tail rest} (h : word "true" (0x74 :: tail) = .ok ((), rest)) :
      Begins inside 0x74 tail (.bool true) rest
  | false {tail rest} (h : word "false" (0x66 :: tail) = .ok ((), rest)) :
      Begins inside 0x66 tail (.bool false) rest
  | text {tail found rest} (h : quoted tail = .ok (found, rest)) :
      Begins inside quoteMark tail (.text found) rest
  | number {byte tail found rest} (hbyte : byte = 0x2D ∨ isDigit byte = Bool.true)
      (h : number (byte :: tail) = .ok (found, rest)) : Begins inside byte tail (.number found) rest
  | array {tail found rest} (h : arrayOf inside (0x5B :: tail) = .ok (found, rest)) :
      Begins inside 0x5B tail (.array found) rest
  | object {tail found rest} (h : objectOf inside (0x7B :: tail) = .ok (found, rest)) :
      Begins inside 0x7B tail (.object found) rest

theorem map_eq_ok {f : α -> β} {input rest : List UInt8} {found : β}
    (h : (f <$> reader) input = .ok (found, rest)) :
    ∃ first, found = f first ∧ reader input = .ok (first, rest) := by
  rw [map_eq_pure_bind] at h
  obtain ⟨first, middle, hfirst, hrest⟩ := bind_eq_ok h
  cases hrest
  exact ⟨first, rfl, hfirst⟩

theorem valueWith_eq_ok {input rest : List UInt8} {found : Json}
    (h : valueWith inside input = .ok (found, rest)) :
    ∃ byte tail, peek input = .ok (byte, byte :: tail) ∧ Begins inside byte tail found rest := by
  obtain ⟨byte, middle, hpeek, h⟩ := bind_eq_ok h
  obtain ⟨tail, rfl, -, -⟩ := peek_eq_ok hpeek
  refine ⟨byte, tail, hpeek, ?_⟩
  split at h
  next hbyte =>
    subst hbyte
    obtain ⟨⟨⟩, middle, hword, hrest⟩ := bind_eq_ok h
    cases hrest
    exact .null hword
  split at h
  next hbyte =>
    subst hbyte
    obtain ⟨⟨⟩, middle, hword, hrest⟩ := bind_eq_ok h
    cases hrest
    exact .true hword
  split at h
  next hbyte =>
    subst hbyte
    obtain ⟨⟨⟩, middle, hword, hrest⟩ := bind_eq_ok h
    cases hrest
    exact .false hword
  split at h
  next hbyte =>
    subst hbyte
    rw [bind_ok (drop_cons _ _)] at h
    obtain ⟨text, rfl, hquoted⟩ := map_eq_ok h
    exact .text hquoted
  split at h
  next hbyte =>
    obtain ⟨number, rfl, hnumber⟩ := map_eq_ok h
    exact .number (by simpa using hbyte) hnumber
  split at h
  next hbyte =>
    subst hbyte
    obtain ⟨list, rfl, harray⟩ := map_eq_ok h
    exact .array harray
  split at h
  next hbyte =>
    subst hbyte
    obtain ⟨list, rfl, hobject⟩ := map_eq_ok h
    exact .object hobject
  next => cases h

/-- The reader of what is inside the brackets of a value. -/
def inner : Nat -> Reader Json
  | 0 => malformed
  | depth + 1 => value depth

theorem value_eq_ok {depth : Nat} {input rest : List UInt8} {found : Json}
    (h : value depth input = .ok (found, rest)) :
    ∃ byte tail, peek input = .ok (byte, byte :: tail) ∧
      Begins (inner depth) byte tail found rest := by
  cases depth with
  | succ depth => exact valueWith_eq_ok h
  | zero =>
      obtain ⟨byte, middle, hpeek, h⟩ := bind_eq_ok h
      split at h
      · cases h
      · obtain ⟨tail, rfl, -, hagain⟩ := peek_eq_ok hpeek
        obtain ⟨first, rest', hpeek', hbegins⟩ := valueWith_eq_ok h
        rw [hagain] at hpeek'
        cases hpeek'
        exact ⟨byte, tail, hpeek, hbegins⟩

section Skipping

variable {close byte : UInt8} {outer brackets input middle rest tail : List UInt8}
  {place : Skip}

/-! ## Readers of what can be skipped -/

/-- What the reader takes off a text a skip passes over as a value. -/
def Skippable (reader : Reader α) : Prop :=
  ∀ outer input found rest, reader input = .ok (found, rest) →
    GoesOver outer .value outer input rest

/-- Each step reads an item of the brackets that `close` ends, with a value that can be skipped. -/
def ReadsItems (close : UInt8) (step : σ -> Reader σ) : Prop :=
  ∀ outer state input next rest, step state input = .ok (next, rest) →
    ∃ middle, Enters close input middle ∧
      GoesOver (close :: outer) .value (close :: outer) middle rest

section Items

variable {step : σ -> Reader σ} {state last : σ}

theorem ReadsItems.foldItems (h : ReadsItems close step) (fuel : Nat)
    (hread : foldItems close step fuel state input = .ok (last, rest)) :
    ∃ middle, Enters close input middle ∧ GoesOver outer .value (close :: outer) middle rest := by
  induction fuel generalizing state input with
  | zero => cases hread
  | succ fuel ih =>
      obtain ⟨next, middle, hnext, hread⟩ := bind_eq_ok hread
      obtain ⟨byte, mark, hpeek, hread⟩ := bind_eq_ok hread
      obtain ⟨first, hfirst, hover⟩ := h outer state input next middle hnext
      obtain ⟨tail, rfl, -, -⟩ := peek_eq_ok hpeek
      refine ⟨first, hfirst, hover.trans ?_⟩
      split at hread
      next hclose =>
        rw [bind_ok (drop_cons _ _)] at hread
        cases hread
        exact goesOver_close (.inr rfl) hpeek hclose (goesOver_refl outer _)
      next hgoes =>
        split at hread
        next hcomma =>
          rw [bind_ok (drop_cons _ _)] at hread
          obtain ⟨second, hsecond, hmore⟩ := ih hread
          exact goesOver_comma hpeek hgoes hcomma hsecond hmore
        · cases hread

theorem ReadsItems.items (h : ReadsItems close step)
    (hread : items close step state input = .ok (last, rest)) :
    GoesOver outer .opened (close :: outer) input rest := by
  obtain ⟨byte, mark, hpeek, hread⟩ := bind_eq_ok hread
  obtain ⟨tail, rfl, -, -⟩ := peek_eq_ok hpeek
  split at hread
  next hclose =>
    rw [bind_ok (drop_cons _ _)] at hread
    cases hread
    exact goesOver_close (.inl rfl) hpeek hclose (goesOver_refl outer _)
  next hgoes =>
    obtain ⟨first, hfirst, hmore⟩ := h.foldItems _ hread
    exact goesOver_first hpeek hgoes hfirst hmore

end Items

theorem skipName_of_quoted {first second third : List UInt8} {text : String}
    (hquote : expect quoteMark input = .ok ((), first))
    (hquoted : quoted first = .ok (text, second))
    (hcolon : expect 0x3A second = .ok ((), third)) : skipName input = .ok ((), third) := by
  rw [skipName, bind_ok hquote, bind_ok (skipQuoted_of_quoted hquoted), hcolon]

theorem goesOver_of_begins {found : Json} (hpeek : peek input = .ok (byte, byte :: tail))
    (hinside : Skippable inside) (h : Begins inside byte tail found rest) :
    GoesOver outer .value outer input rest := by
  cases h with
  | null h => exact goesOver_word hpeek (.inl ⟨rfl, rfl⟩) h
  | true h => exact goesOver_word hpeek (.inr (.inl ⟨rfl, rfl⟩)) h
  | false h => exact goesOver_word hpeek (.inr (.inr ⟨rfl, rfl⟩)) h
  | text h => exact goesOver_quoted hpeek (skipQuoted_of_quoted h)
  | number hbyte h =>
      obtain ⟨written, hnumeral⟩ := numeral_of_number h
      exact goesOver_numeral hpeek hbyte hnumeral
  | array h =>
      rw [arrayOf, bind_ok (drop_cons _ _)] at h
      obtain ⟨held, middle, hitems, hrest⟩ := bind_eq_ok h
      cases hrest
      have hsteps : ReadsItems 0x5D (fun held : List Json => do
          let item ← inside
          pure (item :: held)) := by
        intro outer state input next rest hstep
        obtain ⟨item, middle, hitem, hrest⟩ := bind_eq_ok hstep
        cases hrest
        exact ⟨input, enters_item input, hinside _ _ _ _ hitem⟩
      exact goesOver_bracket hpeek (.inl ⟨rfl, rfl⟩) (hsteps.items hitems)
  | object h =>
      rw [objectOf, bind_ok (drop_cons _ _)] at h
      obtain ⟨held, middle, hitems, hrest⟩ := bind_eq_ok h
      cases hrest
      have hsteps : ReadsItems 0x7D (fun held : List (String × Json) => do
          let name ← name
          let item ← inside
          pure ((name, item) :: held)) := by
        intro outer state input next rest hstep
        obtain ⟨found, first, hname, hstep⟩ := bind_eq_ok hstep
        obtain ⟨item, second, hitem, hrest⟩ := bind_eq_ok hstep
        cases hrest
        obtain ⟨⟨⟩, begun, hquote, hname⟩ := bind_eq_ok hname
        obtain ⟨text, ended, hquoted, hname⟩ := bind_eq_ok hname
        obtain ⟨⟨⟩, after, hcolon, hname⟩ := bind_eq_ok hname
        cases hname
        exact ⟨first, enters_member (skipName_of_quoted hquote hquoted hcolon),
          hinside _ _ _ _ hitem⟩
      exact goesOver_bracket hpeek (.inr ⟨rfl, rfl⟩) (hsteps.items hitems)

theorem skippable_value (depth : Nat) : Skippable (value depth) := by
  induction depth with
  | zero =>
      intro outer input found rest h
      obtain ⟨byte, tail, hpeek, hbegins⟩ := value_eq_ok h
      exact goesOver_of_begins hpeek (fun _ _ _ _ hinside => by cases hinside) hbegins
  | succ depth ih =>
      intro outer input found rest h
      obtain ⟨byte, tail, hpeek, hbegins⟩ := value_eq_ok h
      exact goesOver_of_begins hpeek ih hbegins

/-- What is skipped ends where reading it would. -/
theorem Skippable.skip {found : α} (h : Skippable reader)
    (hread : reader input = .ok (found, rest)) : skip input = .ok ((), rest) := by
  obtain ⟨hlength, hover⟩ := h [] input found rest hread
  have hfuel : 1 + 2 * (input.length - rest.length) ≤ 2 * input.length + 2 := by omega
  exact skipFrom_within hfuel _ _ _ _ (hover 1 _ rfl)

/-! ## Skips inside brackets -/

/-- A skip goes into a bracket or passes over a value without one. -/
theorem skipFrom_value_cases {fuel : Nat} {found : Unit × List UInt8}
    (h : skipFrom (fuel + 1) .value outer input = .ok found) :
    (∃ byte close tail, peek input = .ok (byte, byte :: tail) ∧
      (byte = 0x5B ∧ close = 0x5D ∨ byte = 0x7B ∧ close = 0x7D) ∧
      skipFrom fuel .opened (close :: outer) tail = .ok found) ∨
    ∃ rest, skipFrom fuel .ended outer rest = .ok found ∧
      ∀ outer, GoesOver outer .value outer input rest := by
  rw [skipFrom] at h
  obtain ⟨byte, middle, hpeek, h⟩ := bind_eq_ok h
  obtain ⟨tail, rfl, -, -⟩ := peek_eq_ok hpeek
  split at h
  next hbyte =>
    rw [bind_ok (drop_cons _ _)] at h
    exact .inl ⟨byte, 0x5D, tail, hpeek, .inl ⟨hbyte, rfl⟩, h⟩
  split at h
  next hbyte =>
    rw [bind_ok (drop_cons _ _)] at h
    exact .inl ⟨byte, 0x7D, tail, hpeek, .inr ⟨hbyte, rfl⟩, h⟩
  dsimp only at h
  split at h
  next hbyte =>
    obtain ⟨⟨⟩, rest, hword, h⟩ := bind_eq_ok h
    exact .inr ⟨rest, h, fun outer => goesOver_word hpeek (.inl ⟨rfl, hbyte⟩) hword⟩
  split at h
  next hbyte =>
    obtain ⟨⟨⟩, rest, hword, h⟩ := bind_eq_ok h
    exact .inr ⟨rest, h, fun outer => goesOver_word hpeek (.inr (.inl ⟨rfl, hbyte⟩)) hword⟩
  split at h
  next hbyte =>
    obtain ⟨⟨⟩, rest, hword, h⟩ := bind_eq_ok h
    exact .inr ⟨rest, h, fun outer => goesOver_word hpeek (.inr (.inr ⟨rfl, hbyte⟩)) hword⟩
  split at h
  next hbyte =>
    subst hbyte
    rw [bind_ok (drop_cons _ _)] at h
    obtain ⟨⟨⟩, rest, hquoted, h⟩ := bind_eq_ok h
    exact .inr ⟨rest, h, fun outer => goesOver_quoted hpeek hquoted⟩
  split at h
  next hbyte =>
    obtain ⟨written, rest, hnumeral, h⟩ := bind_eq_ok h
    exact .inr ⟨rest, h, fun outer => goesOver_numeral hpeek (by simpa using hbyte) hnumeral⟩
  next => cases h

/-- What is skipped on its own is skipped just so inside other brackets. -/
theorem goesOver_of_skipFrom (fuel : Nat) {inner : List UInt8} (outer : List UInt8)
    (h : skipFrom fuel place inner input = .ok ((), rest)) :
    GoesOver outer place (inner ++ outer) input rest := by
  -- Each step is the one that the skip takes on its own, with `outer` left below its brackets.
  induction fuel generalizing place inner input with
  | zero => cases h
  | succ fuel ih =>
      match place, inner with
      | .ended, [] =>
          cases h
          exact goesOver_refl outer rest
      | .opened, [] => cases h
      | .ended, close :: inner =>
          rw [skipFrom] at h
          obtain ⟨byte, middle, hpeek, h⟩ := bind_eq_ok h
          obtain ⟨tail, rfl, -, -⟩ := peek_eq_ok hpeek
          split at h
          next hclose =>
            rw [bind_ok (drop_cons _ _)] at h
            exact goesOver_close (.inr rfl) hpeek hclose (ih h)
          next hgoes =>
            split at h
            next hcomma =>
              rw [bind_ok (drop_cons _ _)] at h
              obtain ⟨middle, hvalue, h⟩ := enters_of_enter h
              exact goesOver_comma hpeek hgoes hcomma hvalue (ih h)
            · cases h
      | .opened, close :: inner =>
          rw [skipFrom] at h
          obtain ⟨byte, middle, hpeek, h⟩ := bind_eq_ok h
          obtain ⟨tail, rfl, -, -⟩ := peek_eq_ok hpeek
          split at h
          next hclose =>
            rw [bind_ok (drop_cons _ _)] at h
            exact goesOver_close (.inl rfl) hpeek hclose (ih h)
          next hgoes =>
            obtain ⟨middle, hvalue, h⟩ := enters_of_enter h
            exact goesOver_first hpeek hgoes hvalue (ih h)
      | .value, inner =>
          rcases skipFrom_value_cases h with
            ⟨byte, close, tail, hpeek, hbyte, h⟩ | ⟨middle, h, hover⟩
          · exact goesOver_bracket hpeek hbyte (ih h)
          · exact (hover _).trans (ih h)

theorem skippable_skip : Skippable skip :=
  fun outer _ _ _ h => goesOver_of_skipFrom _ outer h

/-! ## Typed readers -/

theorem Skippable.map {f : α -> β} (h : Skippable reader) : Skippable (f <$> reader) := by
  intro outer input found rest hread
  obtain ⟨first, -, hfirst⟩ := map_eq_ok hread
  exact h outer input first rest hfirst

theorem wrongType_ne_ok (input : List UInt8) (found : α × List UInt8) :
    (wrongType : Reader α) input ≠ .ok found :=
  fun h => yields_wrongType (P := fun _ => False) input found.1 found.2 h

theorem skippable_text (depth : Nat) : Skippable (text depth) := by
  intro outer input found rest h
  obtain ⟨byte, middle, hpeek, h⟩ := bind_eq_ok h
  obtain ⟨tail, rfl, -, -⟩ := peek_eq_ok hpeek
  split at h
  next hbyte =>
    subst hbyte
    rw [bind_ok (drop_cons _ _)] at h
    exact goesOver_quoted hpeek (skipQuoted_of_quoted h)
  next => exact absurd h (wrongType_ne_ok _ _)

theorem skippable_numberAs (convert : Number -> Option α) (depth : Nat) :
    Skippable (numberAs convert depth) := by
  intro outer input found rest h
  obtain ⟨byte, middle, hpeek, h⟩ := bind_eq_ok h
  obtain ⟨tail, rfl, -, -⟩ := peek_eq_ok hpeek
  split at h
  next hbyte =>
    obtain ⟨value, last, hnumber, h⟩ := bind_eq_ok h
    obtain ⟨written, hnumeral⟩ := numeral_of_number hnumber
    have hrest : last = rest := by
      cases hvalue : convert value with
      | none =>
          simp only [hvalue] at h
          cases h
      | some value =>
          simp only [hvalue] at h
          cases h
          rfl
    exact goesOver_numeral hpeek (by simpa using hbyte) (hrest ▸ hnumeral)
  next => exact absurd h (wrongType_ne_ok _ _)

section Records

variable {fields : List (TextField σ)} {depth : Nat} {state last : σ}

theorem readsItems_member (hfields : ∀ field ∈ fields, Skippable (field.take depth)) :
    ReadsItems 0x7D (member fields depth) := by
  intro outer state input next rest h
  obtain ⟨⟨⟩, begun, hquote, h⟩ := bind_eq_ok h
  obtain ⟨name, ended, hquoted, h⟩ := bind_eq_ok h
  cases hfind : fields.find? fun field => field.name = name with
  | none =>
      simp only [hfind] at h
      obtain ⟨⟨⟩, after, hcolon, h⟩ := bind_eq_ok h
      obtain ⟨⟨⟩, middle, hskip, h⟩ := bind_eq_ok h
      cases h
      exact ⟨after, enters_member (skipName_of_quoted hquote hquoted hcolon),
        skippable_skip _ _ _ _ hskip⟩
  | some field =>
      simp only [hfind] at h
      split at h
      · cases h
      obtain ⟨⟨⟩, after, hcolon, h⟩ := bind_eq_ok h
      obtain ⟨store, middle, htake, h⟩ := bind_eq_ok h
      cases h
      exact ⟨after, enters_member (skipName_of_quoted hquote hquoted hcolon),
        hfields field (List.mem_of_find?_eq_some hfind) _ _ _ _ htake⟩

/-- Where a skip stands in an array: before the first item, or after an item. -/
def placeOf (first : Bool) : Skip :=
  if first then .opened else .ended

theorem skipFrom_of_peek (hpeek : peek input = .ok (byte, rest)) (fuel : Nat) (place : Skip)
    (close : UInt8) (outer : List UInt8) :
    skipFrom fuel place (close :: outer) rest = skipFrom fuel place (close :: outer) input := by
  obtain ⟨tail, -, -, hagain⟩ := peek_eq_ok hpeek
  cases fuel with
  | zero => rfl
  | succ fuel => cases place <;> rw [skipFrom, bind_ok hpeek, bind_ok hagain]

theorem GoesOver.of_peek {place : Skip} (hpeek : peek input = .ok (byte, middle))
    (h : GoesOver outer place (close :: brackets) middle rest) :
    GoesOver outer place (close :: brackets) input rest := by
  obtain ⟨tail, rfl, htail, -⟩ := peek_eq_ok hpeek
  obtain ⟨hle, hgo⟩ := h
  rw [List.length_cons] at hle hgo
  refine ⟨by omega, fun fuel found hended => ?_⟩
  have hfuel : fuel + 2 * (tail.length + 1 - rest.length) + slack place ≤
      fuel + 2 * (input.length - rest.length) + slack place := by omega
  apply skipFrom_within hfuel
  rw [← skipFrom_of_peek hpeek]
  exact hgo fuel found hended

/-- A skip that is over the item goes over it from where its comma stands, if it has one. -/
theorem goesOver_of_hasItem {first there : Bool} (h : hasItem first input = .ok (there, middle)) :
    if there then ∀ outer rest, GoesOver outer .value (0x5D :: outer) middle rest →
      GoesOver outer (placeOf first) (0x5D :: outer) input rest
    else peek input = .ok (0x5D, middle) := by
  obtain ⟨byte, mark, hpeek, h⟩ := bind_eq_ok h
  obtain ⟨tail, rfl, -, -⟩ := peek_eq_ok hpeek
  split at h
  next hclose =>
    cases h
    exact hclose ▸ hpeek
  next hgoes =>
    split at h
    next hfirst =>
      cases h
      subst hfirst
      exact fun outer rest hover => goesOver_first hpeek hgoes (enters_item _) hover
    next hlater =>
      split at h
      next hcomma =>
        rw [bind_ok (drop_cons _ _)] at h
        obtain ⟨next, ahead, hnext, h⟩ := bind_eq_ok h
        obtain ⟨more, rfl, hmore, -⟩ := peek_eq_ok hnext
        split at h
        · cases h
        · cases h
          intro outer rest hover
          rw [placeOf, if_neg hlater]
          exact goesOver_comma hpeek hgoes hcomma (enters_item tail) (hover.of_peek hnext)
      · cases h

theorem goesOver_positional (hfields : ∀ field ∈ fields, Skippable (field.take depth))
    (first : Bool) (h : positional depth first fields state input = .ok (last, rest)) :
    GoesOver outer (placeOf first) (0x5D :: outer) input rest := by
  induction fields generalizing first state input with
  | nil =>
      obtain ⟨⟨⟩, middle, hclose, h⟩ := bind_eq_ok h
      cases h
      obtain ⟨byte, mark, hpeek, hclose⟩ := bind_eq_ok hclose
      obtain ⟨tail, rfl, -, -⟩ := peek_eq_ok hpeek
      split at hclose
      next hbyte =>
        cases hclose
        refine goesOver_close ?_ hpeek hbyte (goesOver_refl outer _)
        cases first
        · exact .inr rfl
        · exact .inl rfl
      next => cases hclose
  | cons field fields ih =>
      have hrest : ∀ other ∈ fields, Skippable (other.take depth) :=
        fun other hother => hfields other (List.mem_cons_of_mem field hother)
      obtain ⟨there, middle, hitem, h⟩ := bind_eq_ok h
      have hahead := goesOver_of_hasItem hitem
      cases there with
      | true =>
          obtain ⟨store, after, htake, h⟩ := bind_eq_ok h
          have hover := hfields field List.mem_cons_self (0x5D :: outer) _ _ _ htake
          exact hahead outer rest (hover.trans (ih hrest false h))
      | false =>
          rw [if_neg Bool.false_ne_true] at h
          split at h
          · exact (ih hrest first h).of_peek hahead
          · cases h

theorem skippable_record (hfields : ∀ field ∈ fields, ∀ depth, Skippable (field.take depth))
    (blank : σ) : Skippable (record fields blank depth) := by
  intro outer input found rest h
  obtain ⟨byte, mark, hpeek, h⟩ := bind_eq_ok h
  obtain ⟨tail, rfl, -, -⟩ := peek_eq_ok hpeek
  split at h
  next hbyte =>
    cases depth with
    | zero => cases h
    | succ depth =>
        dsimp only at h
        rw [bind_ok (drop_cons _ _)] at h
        obtain ⟨⟨seen, state⟩, middle, hitems, h⟩ := bind_eq_ok h
        have hrest : middle = rest := by
          dsimp only at h
          split at h <;> cases h
          rfl
        have hmember : ReadsItems 0x7D (member fields depth) :=
          readsItems_member fun field hfield => hfields field hfield depth
        exact goesOver_bracket hpeek (.inr ⟨hbyte, rfl⟩) (hrest ▸ hmember.items hitems)
  split at h
  next hbyte =>
    cases depth with
    | zero => cases h
    | succ depth =>
        dsimp only at h
        rw [bind_ok (drop_cons _ _)] at h
        have hless : ∀ field ∈ fields, Skippable (field.take depth) :=
          fun field hfield => hfields field hfield depth
        exact goesOver_bracket hpeek (.inl ⟨hbyte, rfl⟩) (goesOver_positional hless true h)
  next => exact absurd h (wrongType_ne_ok _ _)

end Records

/-- The bytes are the text of one value, whatever its type and its depth, and of blanks. -/
def IsJson (input : List UInt8) : Prop :=
  run (fun _ => skip) input = .ok ()

theorem Skippable.isJson {reader : Typed α} {found : α} (h : Skippable (reader nesting))
    (hread : run reader input = .ok found) : IsJson input := by
  obtain ⟨rest, hfound, hblank⟩ := run_eq_ok.1 hread
  exact run_eq_ok.2 ⟨rest, h.skip hfound, hblank⟩

end Skipping

end Reader

end Json

end ChatGateway
