import ChatGateway.Json.Decode
import ChatGateway.Proofs.SkippedValues

/-!
# Reading for a type

A typed reader finds in a text just what the decoder of its type makes of the value that the text
is read as.  Both go over the same bytes in the same order, and what a typed reader skips it
leaves where reading the value would end.
-/

namespace ChatGateway

namespace Json

namespace Reader

variable {α β σ : Type} {reader : Reader α} {next : α -> Reader β} {inside : Reader Json}

/-! ## Readers and decoders -/

theorem toOption_bind (reader : Reader α) (next : α -> Reader β) (input : List UInt8) :
    ((reader >>= next) input).toOption =
      (reader input).toOption.bind fun pair => (next pair.1 pair.2).toOption := by
  change (reader input >>= fun pair => next pair.1 pair.2).toOption = _
  cases reader input <;> rfl

/--
Where a value is read, the reader finds what the decoder makes of the value, and leaves the same
bytes; it finds nothing where the decoder makes nothing of it.
-/
def Agrees (depth : Nat) (reader : Reader α) (decode : Decode α) : Prop :=
  ∀ input whole rest, value depth input = .ok (whole, rest) →
    (reader input).toOption = (decode whole).map fun found => (found, rest)

section Agrees

variable {depth : Nat} {decode : Decode α} {input rest tail : List UInt8} {byte : UInt8}

theorem Agrees.map (h : Agrees depth reader decode) (f : α -> β) :
    Agrees depth (f <$> reader) fun whole => (decode whole).map f := by
  intro input whole rest hread
  rw [map_eq_pure_bind, toOption_bind, h input whole rest hread]
  dsimp only
  cases decode whole <;> rfl

theorem toOption_wrongType (input : List UInt8) :
    ((wrongType : Reader α) input).toOption = none := by
  cases hread : (wrongType : Reader α) input with
  | error fault => rfl
  | ok found => exact absurd hread (wrongType_ne_ok input found)

theorem agrees_text (depth less : Nat) : Agrees depth (text less) Decode.text := by
  intro input whole rest hread
  obtain ⟨byte, tail, hpeek, hbegins⟩ := value_eq_ok hread
  rw [text, bind_ok hpeek]
  cases hbegins with
  | text h =>
      rw [if_pos rfl, bind_ok (drop_cons _ _), h]
      rfl
  | number hbyte h =>
      obtain ⟨-, -, -, -, -, hmark, -⟩ := of_starts_number hbyte
      rw [if_neg hmark, toOption_wrongType]
      rfl
  | null | true | false | array | object =>
      rw [if_neg (by decide), toOption_wrongType]
      rfl

theorem agrees_numberAs (convert : Number -> Option α) (depth less : Nat) :
    Agrees depth (numberAs convert less) (Decode.numberAs convert) := by
  intro input whole rest hread
  obtain ⟨byte, tail, hpeek, hbegins⟩ := value_eq_ok hread
  rw [numberAs, bind_ok hpeek]
  cases hbegins with
  | number hbyte h =>
      rw [if_pos (by simpa using hbyte), bind_ok h, Decode.numberAs]
      cases convert _ <;> rfl
  | null | true | false | text | array | object =>
      rw [if_neg (by decide), toOption_wrongType]
      rfl

end Agrees

/-! ## Items -/

section Items

variable {close : UInt8} {push : List β -> Reader (List β)} {step : σ -> Reader σ}
  {take : σ -> β -> Option σ} {input rest : List UInt8} {held last : List β}

/-- Each item that one reader lists, the other one takes into its state. -/
def Lists (push : List β -> Reader (List β)) (step : σ -> Reader σ) (take : σ -> β -> Option σ) :
    Prop :=
  ∀ held input next rest, push held input = .ok (next, rest) → ∃ item, next = item :: held ∧
    ∀ state, (step state input).toOption = (take state item).map fun next => (next, rest)

theorem foldItems_agrees (hstep : Lists push step take) (fuel : Nat)
    (h : foldItems close push fuel held input = .ok (last, rest)) :
    ∃ list : List β, last = list.reverse ++ held ∧ ∀ state,
      (foldItems close step fuel state input).toOption =
        (list.foldlM take state).map fun last => (last, rest) := by
  induction fuel generalizing held input with
  | zero => cases h
  | succ fuel ih =>
      obtain ⟨next, middle, hnext, h⟩ := bind_eq_ok h
      obtain ⟨byte, mark, hpeek, h⟩ := bind_eq_ok h
      obtain ⟨tail, rfl, -, -⟩ := peek_eq_ok hpeek
      obtain ⟨item, rfl, hitem⟩ := hstep held input next middle hnext
      split at h
      next hclose =>
        rw [bind_ok (drop_cons _ _)] at h
        cases h
        refine ⟨[item], rfl, fun state => ?_⟩
        rw [foldItems, toOption_bind, hitem, List.foldlM_cons]
        cases take state item with
        | none => rfl
        | some after =>
            simp only [Option.map_some, Option.bind_some, bind_ok hpeek, if_pos hclose,
              bind_ok (drop_cons _ _)]
            rfl
      next hgoes =>
        split at h
        next hcomma =>
          rw [bind_ok (drop_cons _ _)] at h
          obtain ⟨list, rfl, hlist⟩ := ih h
          refine ⟨item :: list, by simp, fun state => ?_⟩
          rw [foldItems, toOption_bind, hitem, List.foldlM_cons]
          cases take state item with
          | none => rfl
          | some after =>
              simp only [Option.map_some, Option.bind_some, bind_ok hpeek, if_neg hgoes,
                if_pos hcomma, bind_ok (drop_cons _ _)]
              exact hlist after
        · cases h

theorem items_agrees (hstep : Lists push step take)
    (h : items close push [] input = .ok (last, rest)) :
    ∃ list : List β, last = list.reverse ∧ ∀ state,
      (items close step state input).toOption =
        (list.foldlM take state).map fun last => (last, rest) := by
  obtain ⟨byte, mark, hpeek, h⟩ := bind_eq_ok h
  obtain ⟨tail, rfl, -, -⟩ := peek_eq_ok hpeek
  split at h
  next hclose =>
    rw [bind_ok (drop_cons _ _)] at h
    cases h
    refine ⟨[], rfl, fun state => ?_⟩
    rw [items, bind_ok hpeek, if_pos hclose, bind_ok (drop_cons _ _)]
    rfl
  next hgoes =>
    obtain ⟨list, rfl, hlist⟩ := foldItems_agrees hstep _ h
    refine ⟨list, List.append_nil _, fun state => ?_⟩
    rw [items, bind_ok hpeek, if_neg hgoes]
    exact hlist state

end Items

/-! ## Records -/

/-- A field that is read from text and one that is taken from a value are the same. -/
structure SameField (depth : Nat) (field : TextField σ) (other : Decode.ValueField σ) : Prop where
  name : field.name = other.name
  presence : field.presence = other.presence
  take : Agrees depth (field.take depth) other.take

section Records

variable {depth : Nat} {fields : List (TextField σ)} {others : List (Decode.ValueField σ)}
  {input rest tail : List UInt8} {state : σ}

theorem find?_same (h : List.Forall₂ (SameField depth) fields others) (name : String) :
    (fields.find? (fun field => field.name = name) = none ∧
      others.find? (fun field => field.name = name) = none) ∨
    ∃ field other, fields.find? (fun field => field.name = name) = some field ∧
      others.find? (fun field => field.name = name) = some other ∧
      SameField depth field other := by
  induction h with
  | nil => exact .inl ⟨rfl, rfl⟩
  | @cons field other fields others hsame _ ih =>
      by_cases hname : field.name = name
      · have hother : other.name = name := hsame.name ▸ hname
        exact .inr ⟨field, other, by simp [hname], by simp [hother], hsame⟩
      · have hother : ¬ other.name = name := hsame.name ▸ hname
        simpa [List.find?_cons, hname, hother] using ih

theorem complete_same (h : List.Forall₂ (SameField depth) fields others) (seen : List String) :
    complete fields seen = complete others seen := by
  induction h with
  | nil => rfl
  | cons hsame _ ih =>
      unfold complete at ih ⊢
      rw [List.all_cons, List.all_cons, hsame.name, hsame.presence, ih]

theorem lists_member (h : List.Forall₂ (SameField depth) fields others) :
    Lists (fun held => do
        let name ← name
        let item ← value depth
        pure ((name, item) :: held)) (member fields depth) (Decode.member others) := by
  intro held input next rest hpush
  obtain ⟨found, first, hname, hpush⟩ := bind_eq_ok hpush
  obtain ⟨item, second, hitem, hpush⟩ := bind_eq_ok hpush
  cases hpush
  refine ⟨(found, item), rfl, fun state => ?_⟩
  obtain ⟨⟨⟩, begun, hquote, hname⟩ := bind_eq_ok hname
  obtain ⟨text, ended, hquoted, hname⟩ := bind_eq_ok hname
  obtain ⟨⟨⟩, after, hcolon, hname⟩ := bind_eq_ok hname
  cases hname
  rw [member, bind_ok hquote, bind_ok hquoted, Decode.member]
  rcases find?_same h found with ⟨hnone, hnone'⟩ | ⟨field, other, hfield, hother, hsame⟩
  · simp only [hnone, hnone', bind_ok hcolon, bind_ok ((skippable_value depth).skip hitem)]
    rfl
  · simp only [hfield, hother]
    split
    · rfl
    · rw [bind_ok hcolon, toOption_bind, hsame.take _ _ _ hitem]
      cases other.take item <;> rfl

/-! ### Fields by their places -/

/-- At the closing bracket a record is read if all the fields that are left may be left out. -/
theorem positional_closed (h : List.Forall₂ (SameField depth) fields others) (first : Bool)
    (state : σ) (hpeek : peek input = .ok (0x5D, 0x5D :: tail)) :
    (positional depth first fields state input).toOption =
      (Decode.positional others [] state).map fun last => (last, tail) := by
  induction h generalizing first state input with
  | nil =>
      rw [positional, expect, toOption_bind, bind_ok hpeek]
      rfl
  | @cons field other fields others hsame _ ih =>
      obtain ⟨-, htail, -, hagain⟩ := peek_eq_ok hpeek
      have hitem : hasItem first input = .ok (false, 0x5D :: tail) := by
        rw [hasItem, bind_ok hpeek]
        rfl
      rw [positional, bind_ok hitem, Decode.positional, ← hsame.presence]
      by_cases hdefault : field.presence = .defaulted
      · rw [if_pos hdefault]
        simp only [hdefault, if_true]
        exact ih first state hagain
      · rw [if_neg hdefault]
        simp only [hdefault, if_false]
        rfl

theorem value_of_peek {byte : UInt8} (depth : Nat) (hpeek : peek input = .ok (byte, rest)) :
    value depth rest = value depth input := by
  obtain ⟨tail, -, -, hagain⟩ := peek_eq_ok hpeek
  cases depth with
  | zero => rw [value, flat, bind_ok hpeek, bind_ok hagain]
  | succ depth => rw [value, valueWith, bind_ok hpeek, bind_ok hagain]

theorem Begins.ne_close {byte : UInt8} {found : Json} (h : Begins inside byte tail found rest) :
    byte ≠ 0x5D := by
  cases h with
  | number hbyte h => exact (of_starts_number hbyte).2.1
  | null | true | false | text | array | object => decide

/-- Lists the items of an array. -/
def pushItem (depth : Nat) (held : List Json) : Reader (List Json) := do
  let item ← value depth
  pure (item :: held)

theorem pushItem_eq_ok {held next : List Json} (h : pushItem depth held input = .ok (next, rest)) :
    ∃ item, next = item :: held ∧ value depth input = .ok (item, rest) := by
  obtain ⟨item, middle, hitem, h⟩ := bind_eq_ok h
  cases h
  exact ⟨item, rfl, hitem⟩

/-- Items that are read begin after blanks with a byte that closes no array. -/
theorem item_ahead {fuel : Nat} {held last : List Json}
    (h : foldItems 0x5D (pushItem depth) fuel held input = .ok (last, rest)) :
    ∃ byte tail, peek input = .ok (byte, byte :: tail) ∧ byte ≠ 0x5D ∧
      foldItems 0x5D (pushItem depth) fuel held (byte :: tail) = .ok (last, rest) := by
  cases fuel with
  | zero => cases h
  | succ fuel =>
      obtain ⟨next, middle, hnext, h⟩ := bind_eq_ok h
      obtain ⟨item, rfl, hitem⟩ := pushItem_eq_ok hnext
      obtain ⟨byte, tail, hpeek, hbegins⟩ := value_eq_ok hitem
      refine ⟨byte, tail, hpeek, hbegins.ne_close, ?_⟩
      have hagain : pushItem depth held (byte :: tail) = .ok (item :: held, middle) := by
        rw [pushItem, bind_ok ((value_of_peek depth hpeek).trans hitem)]
        rfl
      rw [foldItems, bind_ok hagain]
      exact h

/-- From an item on, the fields are read as they are taken from the items that come. -/
theorem positional_items (fuel : Nat) {held last : List Json}
    (h : foldItems 0x5D (pushItem depth) fuel held input = .ok (last, rest)) :
    ∃ list : List Json, last = list.reverse ++ held ∧ list ≠ [] ∧
      ∀ (fields : List (TextField σ)) (others : List (Decode.ValueField σ)) field other state,
        SameField depth field other → List.Forall₂ (SameField depth) fields others →
        ((field.take depth >>= fun store => positional depth false fields (store state))
            input).toOption =
          (Decode.positional (other :: others) list state).map fun last => (last, rest) := by
  induction fuel generalizing held input with
  | zero => cases h
  | succ fuel ih =>
      obtain ⟨next, middle, hnext, h⟩ := bind_eq_ok h
      obtain ⟨byte, mark, hpeek, h⟩ := bind_eq_ok h
      obtain ⟨tail, rfl, -, -⟩ := peek_eq_ok hpeek
      obtain ⟨item, rfl, hitem⟩ := pushItem_eq_ok hnext
      split at h
      next hclose =>
        rw [bind_ok (drop_cons _ _)] at h
        cases h
        refine ⟨[item], rfl, List.cons_ne_nil _ _, ?_⟩
        intro fields others field other state hsame hfields
        rw [toOption_bind, hsame.take _ _ _ hitem, Decode.positional]
        cases other.take item with
        | none => rfl
        | some store => exact positional_closed hfields false _ (hclose ▸ hpeek)
      next hgoes =>
        split at h
        next hcomma =>
          rw [bind_ok (drop_cons _ _)] at h
          obtain ⟨first, more, hfirst, hopen, hmore⟩ := item_ahead h
          obtain ⟨list, rfl, hne, hlist⟩ := ih hmore
          refine ⟨item :: list, by simp, List.cons_ne_nil _ _, ?_⟩
          intro fields others field other state hsame hfields
          rw [toOption_bind, hsame.take _ _ _ hitem, Decode.positional]
          cases other.take item with
          | none => rfl
          | some store =>
              simp only [Option.map_some, Option.bind_some]
              cases hfields with
              | nil =>
                  obtain ⟨item', list, rfl⟩ := List.exists_cons_of_ne_nil hne
                  rw [positional, expect, toOption_bind, bind_ok hpeek, if_neg hgoes]
                  rfl
              | @cons field' other' fields others hsame' hfields =>
                  -- The next field is read from where `item_ahead` looked: past the blanks.
                  have hthere : hasItem false middle = .ok (true, first :: more) := by
                    rw [hasItem, bind_ok hpeek, if_neg hgoes, if_neg (by decide), if_pos hcomma,
                      bind_ok (drop_cons _ _), bind_ok hfirst, if_neg hopen]
                    rfl
                  rw [positional, bind_ok hthere]
                  exact hlist fields others field' other' (store state) hsame' hfields
        · cases h

/-- An array is read as its items are taken for the fields. -/
theorem positional_array (h : List.Forall₂ (SameField depth) fields others) (blank : σ)
    {list : List Json} (harray : arrayOf (value depth) (0x5B :: input) = .ok (list, rest)) :
    (positional depth true fields blank input).toOption =
      (Decode.positional others list blank).map fun last => (last, rest) := by
  rw [arrayOf, bind_ok (drop_cons _ _)] at harray
  obtain ⟨held, middle, hitems, hlast⟩ := bind_eq_ok harray
  cases hlast
  obtain ⟨byte, mark, hpeek, hitems⟩ := bind_eq_ok hitems
  obtain ⟨tail, rfl, -, -⟩ := peek_eq_ok hpeek
  split at hitems
  next hclose =>
    rw [bind_ok (drop_cons _ _)] at hitems
    cases hitems
    exact positional_closed h true blank (hclose ▸ hpeek)
  next hopen =>
    obtain ⟨list, rfl, hne, hlist⟩ := @positional_items σ _ _ _ _ _ _ hitems
    rw [List.append_nil, List.reverse_reverse]
    cases h with
    | nil =>
        obtain ⟨item, list, rfl⟩ := List.exists_cons_of_ne_nil hne
        rw [positional, expect, toOption_bind, bind_ok hpeek, if_neg hopen]
        rfl
    | @cons field other fields others hsame hfields =>
        have hthere : hasItem true input = .ok (true, byte :: tail) := by
          rw [hasItem, bind_ok hpeek, if_neg hopen]
          rfl
        rw [positional, bind_ok hthere]
        exact hlist fields others field other blank hsame hfields

theorem agrees_record (h : List.Forall₂ (SameField depth) fields others) (blank : σ) :
    Agrees (depth + 1) (record fields blank (depth + 1)) (Decode.record others blank) := by
  intro input whole rest hread
  obtain ⟨byte, tail, hpeek, hbegins⟩ := value_eq_ok hread
  rw [record, bind_ok hpeek]
  cases hbegins with
  | object hobject =>
      rw [if_pos rfl, bind_ok (drop_cons _ _)]
      rw [objectOf, bind_ok (drop_cons _ _)] at hobject
      obtain ⟨held, middle, hitems, hlast⟩ := bind_eq_ok hobject
      cases hlast
      obtain ⟨list, rfl, hlist⟩ := items_agrees (lists_member h) hitems
      rw [toOption_bind, hlist ([], blank), List.reverse_reverse, Decode.record]
      cases list.foldlM (Decode.member others) ([], blank) with
      | none => rfl
      | some last =>
          obtain ⟨seen, state⟩ := last
          simp only [Option.map_some, Option.bind_some, complete_same h]
          split <;> rfl
  | array harray =>
      rw [if_neg (by decide), if_pos rfl, bind_ok (drop_cons _ _)]
      exact positional_array h blank harray
  | number hbyte h =>
      obtain ⟨-, -, -, -, -, -, harray, hobject⟩ := of_starts_number hbyte
      rw [if_neg hobject, if_neg harray, toOption_wrongType]
      rfl
  | null | true | false | text =>
      rw [if_neg (by decide), if_neg (by decide), toOption_wrongType]
      rfl

end Records

theorem toOption_run (reader : Typed α) (input : List UInt8) :
    (run reader input).toOption = (reader nesting input).toOption.bind fun found =>
      if found.2.all isBlank then some found.1 else none := by
  unfold run
  cases reader nesting input with
  | error fault => rfl
  | ok found =>
      change Except.toOption (if found.2.all isBlank then .ok found.1 else .error Fault.malformed) =
        if found.2.all isBlank then some found.1 else none
      cases found.2.all isBlank <;> rfl

/-- A whole text is read for a type as its value is decoded. -/
theorem Agrees.run {reader : Typed α} {decode : Decode α} {input : List UInt8} {whole : Json}
    (h : Agrees nesting (reader nesting) decode) (hread : read input = .ok whole) :
    (Reader.run reader input).toOption = decode whole := by
  obtain ⟨rest, hvalue, hblank⟩ := run_eq_ok.1 hread
  rw [toOption_run, h input whole rest hvalue]
  cases decode whole with
  | none => rfl
  | some found => simp only [Option.map_some, Option.bind_some, hblank, if_true]

end Reader

end Json

end ChatGateway
