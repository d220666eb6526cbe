import ChatGateway.Json.Decode
import ChatGateway.Proofs.JsonText
import Mathlib.Data.List.Forall2

/-!
# Reading records that were written

A typed reader takes a record off the text of an object: its members in any order, with
blanks between them or none, those of other names passed over.
-/

namespace ChatGateway

namespace Json

/-! ## Whole numbers -/

theorem natBelow?_nat {limit n : Nat} (h : n < limit) :
    (Number.int n).natBelow? limit = some n := by
  have hlt : (n : Int) < limit := by omega
  rw [Number.natBelow?, if_pos ⟨Int.natCast_nonneg n, hlt⟩, Int.toNat_natCast]

theorem uint64?_nat (n : UInt64) : (Number.int n.toNat).uint64? = some n := by
  rw [Number.uint64?, natBelow?_nat n.toNat_lt]
  simp

@[simp] theorem Decode.uint32_nat (n : UInt32) : Decode.uint32 (.nat n.toNat) = some n := by
  rw [Decode.uint32, Json.nat, Decode.numberAs, Number.uint32?, natBelow?_nat n.toNat_lt]
  simp

@[simp] theorem Decode.uint64_nat (n : UInt64) :
    Decode.numberAs Number.uint64? (.nat n.toNat) = some n := by
  rw [Json.nat, Decode.numberAs, uint64?_nat]

namespace Reader

open Text

/-- The reader takes these bytes off, whatever follows that does not go on with a number. -/
def TakesOff (reader : Reader α) (bytes : List UInt8) (found : α) : Prop :=
  ∀ rest, EndsNumber rest → reader (bytes ++ rest) = .ok (found, rest)

/-- Bytes that readers skip. -/
def AllBlank (gap : List UInt8) : Prop :=
  ∀ byte ∈ gap, isBlank byte = true

theorem allBlank_nil : AllBlank [] := by
  simp [AllBlank]

theorem peek_gap {gap : List UInt8} {byte : UInt8} (rest : List UInt8) (hgap : AllBlank gap)
    (h : isBlank byte = false) : peek (gap ++ byte :: rest) = .ok (byte, byte :: rest) := by
  rw [peek, List.dropWhile_append_of_pos hgap]
  simp [h]

theorem expect_gap {gap : List UInt8} {byte : UInt8} (rest : List UInt8) (hgap : AllBlank gap)
    (h : isBlank byte = false) : expect byte (gap ++ byte :: rest) = .ok ((), rest) := by
  rw [expect, bind_ok (peek_gap rest hgap h), if_pos rfl]
  rfl

theorem endsNumber_gap {gap : List UInt8} {byte : UInt8} (rest : List UInt8)
    (hgap : AllBlank gap) (hdigit : isDigit byte = false)
    (h : byte ≠ 0x2E ∧ byte ≠ 0x65 ∧ byte ≠ 0x45) : EndsNumber (gap ++ byte :: rest) := by
  cases gap with
  | nil => exact endsNumber_cons rest hdigit h
  | cons first gap =>
      have hblank : isBlank first = true := hgap first List.mem_cons_self
      simp only [isBlank, Bool.or_eq_true, decide_eq_true_eq] at hblank
      rcases hblank with ((rfl | rfl) | rfl) | rfl <;>
        exact endsNumber_cons _ (by decide) (by decide)

theorem TakesOff.map {reader : Reader α} {bytes : List UInt8} {found : α} (f : α -> β)
    (h : TakesOff reader bytes found) : TakesOff (f <$> reader) bytes (f found) :=
  fun rest hrest => map_ok (h rest hrest)

/-- A reader that takes a whole text off reads it. -/
theorem TakesOff.run {reader : Nat -> Reader α} {bytes : List UInt8} {found : α}
    (h : TakesOff (reader nesting) bytes found) : run reader bytes = .ok found := by
  have hread := h [] (by
    intro byte hbyte
    cases hbyte)
  rw [List.append_nil] at hread
  simp [Reader.run, hread]

/-! ## Plain values -/

theorem text_takes (depth : Nat) {gap : List UInt8} (hgap : AllBlank gap) (value : String) :
    TakesOff (text depth) (gap ++ Utf8.encode (quote value)) value := by
  intro rest _
  rw [List.append_assoc, encode_quote, List.cons_append, text,
    bind_ok (peek_gap _ hgap (by decide)), if_pos rfl, bind_ok (drop_cons _ _), quoted_quote]

theorem numberAs_takes {convert : Number -> Option α} {value : Int} {found : α} (depth : Nat)
    {gap : List UInt8} (hgap : AllBlank gap) (hwhole : IsWhole value)
    (hfound : convert (.int value) = some found) :
    TakesOff (numberAs convert depth) (gap ++ Utf8.encode (writeNumber (.int value))) found := by
  intro rest hrest
  obtain ⟨byte, tail, hwrite, hfirst⟩ := starts_number value
  obtain ⟨hblank, -⟩ := of_starts_number hfirst
  have hnumber : (decide (byte = 0x2D) || isDigit byte) = true := by simpa using hfirst
  have hread := number_write hwhole hrest
  rw [List.append_assoc]
  rw [hwrite, List.cons_append] at hread ⊢
  rw [numberAs, bind_ok (peek_gap _ hgap hblank), if_pos hnumber, bind_ok hread]
  simp only [hfound]
  rfl

/-! ## Items -/

/-- The step takes the pieces off one after another, from the first state to the last. -/
inductive Folds (step : σ -> Reader σ) : σ -> List (List UInt8) -> σ -> Prop
  | nil (state : σ) : Folds step state [] state
  | cons {state next last : σ} {piece : List UInt8} {pieces : List (List UInt8)} :
      TakesOff (step state) piece next → Folds step next pieces last →
      Folds step state (piece :: pieces) last

theorem Folds.append {step : σ -> Reader σ} {state next last : σ} {first second : List (List UInt8)}
    (h : Folds step state first next) (hmore : Folds step next second last) :
    Folds step state (first ++ second) last := by
  induction h with
  | nil => exact hmore
  | cons htake _ ih => exact .cons htake (ih hmore)

section Items

variable {close : UInt8} {step : σ -> Reader σ} {state last : σ} {gap lead piece : List UInt8}
  {pieces : List (List UInt8)}

/-- A byte that closes a bracket. -/
def Closes (close : UInt8) : Prop :=
  close = 0x5D ∨ close = 0x7D

theorem Closes.facts (h : Closes close) : isBlank close = false ∧ isDigit close = false ∧
    (close ≠ 0x2E ∧ close ≠ 0x65 ∧ close ≠ 0x45) ∧ close ≠ 0x2C := by
  rcases h with rfl | rfl <;> decide

theorem foldItems_of_folds (hclose : Closes close) (hgap : AllBlank gap) (fuel : Nat)
    (rest : List UInt8) (h : Folds step state (piece :: pieces) last)
    (hfuel : pieces.length < fuel) :
    foldItems close step fuel state (separated (piece :: pieces) ++ (gap ++ close :: rest)) =
      .ok (last, rest) := by
  obtain ⟨hblank, hdigit, hnumber, hcomma⟩ := hclose.facts
  induction pieces generalizing piece state fuel with
  | nil =>
      obtain ⟨fuel, rfl⟩ : ∃ less, fuel = less + 1 := ⟨fuel - 1, by omega⟩
      cases h with
      | cons htake hfolds =>
          cases hfolds
          rw [separated, foldItems, bind_ok (htake _ (endsNumber_gap rest hgap hdigit hnumber)),
            bind_ok (peek_gap rest hgap hblank), if_pos rfl]
          rfl
  | cons next pieces ih =>
      obtain ⟨fuel, rfl⟩ : ∃ less, fuel = less + 1 := ⟨fuel - 1, by omega⟩
      cases h with
      | cons htake hfolds =>
          have hmore := ih fuel hfolds (by rw [List.length_cons] at hfuel; omega)
          rw [separated, foldItems, List.append_assoc, List.cons_append,
            bind_ok (htake _ (endsNumber_cons _ (by decide) (by decide))),
            bind_ok (peek_cons _ (by decide)), if_neg (Ne.symm hcomma), if_pos rfl]
          exact hmore

/-- A piece that begins with a byte that is not blank and does not close the bracket. -/
def Opens (close : UInt8) (piece : List UInt8) : Prop :=
  ∃ byte tail, piece = byte :: tail ∧ isBlank byte = false ∧ byte ≠ close

theorem items_of_folds (hclose : Closes close) (hlead : AllBlank lead) (hgap : AllBlank gap)
    (rest : List UInt8) (h : Folds step state (piece :: pieces) last) (hopens : Opens close piece)
    (hpieces : ∀ piece ∈ pieces, piece ≠ []) :
    items close step state (lead ++ (separated (piece :: pieces) ++ (gap ++ close :: rest))) =
      .ok (last, rest) := by
  obtain ⟨byte, tail, hpiece, hbyte, hother⟩ := hopens
  have hne : piece ≠ [] := by
    rw [hpiece]
    exact List.cons_ne_nil _ _
  have hfuel : pieces.length <
      (separated (piece :: pieces) ++ (gap ++ close :: rest)).length := by
    have hall : ∀ other ∈ piece :: pieces, other ≠ [] := by
      intro other hmem
      rcases List.mem_cons.1 hmem with rfl | hmem
      · exact hne
      · exact hpieces other hmem
    have hlength := length_separated hall
    rw [List.length_cons] at hlength
    rw [List.length_append]
    omega
  have hfold := foldItems_of_folds hclose hgap _ rest h hfuel
  obtain ⟨more, hmore⟩ :
      ∃ more, separated (piece :: pieces) ++ (gap ++ close :: rest) = byte :: more := by
    cases pieces <;> exact ⟨_, by simp only [separated, hpiece]; rfl⟩
  rw [hmore] at hfold ⊢
  rw [items, bind_ok (peek_gap _ hlead hbyte), if_neg hother]
  exact hfold

theorem items_nil (hclose : Closes close) (step : σ -> Reader σ) (state : σ) (rest : List UInt8) :
    items close step state (close :: rest) = .ok (state, rest) := by
  rw [items, bind_ok (peek_cons rest hclose.facts.1), if_pos rfl]
  rfl

/-- Items in compact text, each with a byte at its front that closes no bracket. -/
theorem items_compact (hclose : Closes close) (rest : List UInt8)
    (h : Folds step state pieces last) (hopens : ∀ piece ∈ pieces, Opens close piece) :
    items close step state (separated pieces ++ close :: rest) = .ok (last, rest) := by
  cases h with
  | nil => exact items_nil hclose step state rest
  | cons htake hfolds =>
      refine items_of_folds hclose allBlank_nil allBlank_nil rest (.cons htake hfolds)
        (hopens _ List.mem_cons_self) fun piece hpiece => ?_
      obtain ⟨byte, tail, rfl, -⟩ := hopens piece (List.mem_cons_of_mem _ hpiece)
      exact List.cons_ne_nil _ _

end Items

theorem opens_object (members : List (String × Json)) :
    Opens 0x5D (Utf8.encode (write (.object members))) := by
  rw [encode_object]
  exact ⟨_, _, rfl, by decide, by decide⟩

/-! ## Texts that are passed over -/

/-- Where a scan that does not check surrogates stands, while one that does stands here. -/
def Inside.unpaired : Inside -> Inside
  | .plain | .halved _ => .plain
  | .escape _ => .escape none
  | .digits _ owed value => .digits none owed value

theorem Inside.next_unpaired {state after : Inside} {byte : UInt8} {added : List UInt8}
    (h : state.next true byte = some (after, added)) :
    (∃ other, state.unpaired.next false byte = some (after.unpaired, other)) ∧
      (state ≠ .plain → state.unpaired = .plain → byte ≠ quoteMark) := by
  cases state with
  | plain =>
      refine ⟨?_, fun hplain => (hplain rfl).elim⟩
      simp only [Inside.next] at h
      split at h
      next hslash =>
        cases h
        exact ⟨[], by simp [unpaired, next, hslash]⟩
      next hslash =>
        split at h
        · cases h
        next hcontrol =>
          cases h
          exact ⟨[byte], by simp [unpaired, next, hslash, hcontrol]⟩
  | escape lead =>
      refine ⟨?_, fun _ hplain => by cases hplain⟩
      simp only [Inside.next] at h
      split at h
      next hunit =>
        cases h
        exact ⟨[], by simp [unpaired, next, hunit]⟩
      next hunit =>
        split at h
        · cases h
        · obtain ⟨meant, hmeant, heq⟩ := Option.map_eq_some_iff.1 h
          cases heq
          exact ⟨[meant], by simp [unpaired, next, hunit, hmeant]⟩
  | digits lead owed value =>
      refine ⟨?_, fun _ hplain => by cases hplain⟩
      simp only [Inside.next] at h
      cases hdigit : hexValue byte with
      | none => simp [hdigit] at h
      | some digit =>
          simp only [hdigit, if_true] at h
          split at h
          next howed =>
            cases h
            exact ⟨[], by simp [unpaired, next, hdigit, howed]⟩
          next howed =>
            have hafter : after.unpaired = .plain := by
              unfold completeUnit at h
              split at h
              · split at h <;> cases h
                rfl
              · split at h
                · cases h
                · split at h <;> cases h <;> rfl
            exact ⟨[], by rw [hafter]; simp [unpaired, next, hdigit, howed]⟩
  | halved lead =>
      simp only [Inside.next] at h
      split at h
      next hslash =>
        cases h
        exact ⟨⟨[], by simp [unpaired, next, hslash]⟩, fun _ _ => by rw [hslash]; decide⟩
      next => cases h

/-- A text that can be read can be passed over. -/
theorem scanText_unpaired {state : Inside} {held found input rest : List UInt8}
    (other : List UInt8) (h : scanText true state held input = .ok (found, rest)) :
    ∃ passed, scanText false state.unpaired other input = .ok (passed, rest) := by
  induction input generalizing state held other with
  | nil => cases h
  | cons byte input ih =>
      rw [scanText] at h
      split at h
      next hend =>
        obtain ⟨rfl, rfl⟩ := hend
        cases h
        exact ⟨_, rfl⟩
      next hgoes =>
        split at h
        next after added hnext =>
          obtain ⟨⟨more, hmore⟩, hmark⟩ := Inside.next_unpaired hnext
          have hstays : ¬ (state.unpaired = .plain ∧ byte = quoteMark) := by
            rintro ⟨hplain, rfl⟩
            exact hmark (fun hstate => hgoes ⟨hstate, rfl⟩) hplain rfl
          rw [scanText, if_neg hstays, hmore]
          exact ih _ h
        next => cases h

theorem skipQuoted_of_quoted {input rest : List UInt8} {value : String}
    (h : quoted input = .ok (value, rest)) : skipQuoted input = .ok ((), rest) := by
  unfold quoted at h
  split at h
  · cases h
  next held rest hscan =>
    split at h
    · cases h
      obtain ⟨passed, hpassed⟩ := scanText_unpaired [] hscan
      rw [skipQuoted, show (.plain : Inside) = Inside.plain.unpaired from rfl, hpassed]
    · cases h

theorem skip_text (value : String) : TakesOff skip (Utf8.encode (quote value)) () := by
  intro rest _
  have hquoted := skipQuoted_of_quoted (quoted_quote value rest)
  rw [skip, encode_quote]
  generalize hlength : (quoteMark :: _ ++ rest).length = length
  rw [List.cons_append, Nat.mul_comm, skipFrom, bind_ok (peek_cons _ (by decide)),
    if_neg (by decide), if_neg (by decide)]
  show (drop >>= fun _ => skipQuoted >>= fun _ => skipFrom _ _ _) _ = _
  rw [bind_ok (drop_cons _ _), bind_ok hquoted]
  rfl

/-! ## Members -/

section Members

variable {fields : List (TextField σ)} {field : TextField σ} {depth : Nat} {name : String}
  {seen : List String} {state : σ} {store : σ -> σ} {gap value : List UInt8}

@[simp] theorem TextField.name_required (name : String) (inner : Typed α) (keep : α -> σ -> σ) :
    (TextField.required name inner keep).name = name := rfl

@[simp] theorem TextField.name_optional (name : String) (inner : Typed α)
    (keep : Option α -> σ -> σ) : (TextField.optional name inner keep).name = name := rfl

@[simp] theorem TextField.name_defaulted (name : String) (inner : Typed α) (keep : α -> σ -> σ) :
    (TextField.defaulted name inner keep).name = name := rfl

/-- Among fields of different names each is found by its name. -/
theorem find?_of_mem {list : List (Field ρ)} {wanted : Field ρ} (hmem : wanted ∈ list)
    (hnames : (list.map Field.name).Nodup) :
    list.find? (fun field => field.name = wanted.name) = some wanted := by
  induction list with
  | nil => cases hmem
  | cons first list ih =>
      rw [List.map_cons, List.nodup_cons] at hnames
      rcases List.mem_cons.1 hmem with rfl | hmem
      · exact List.find?_cons_of_pos (by simp)
      · have hne : first.name ≠ wanted.name := fun heq =>
          hnames.1 (heq ▸ List.mem_map_of_mem hmem)
        rw [List.find?_cons_of_neg (by simpa using hne), ih hmem hnames.2]

/-- A member of a field that has not been read yet. -/
theorem member_takes (hmem : field ∈ fields) (hnames : (fields.map Field.name).Nodup)
    (hnew : field.name ∉ seen) (hgap : AllBlank gap)
    (htake : TakesOff (field.take depth) value store) :
    TakesOff (member fields depth (seen, state))
      (gap ++ (Utf8.encode (quote field.name) ++ 0x3A :: value))
      (field.name :: seen, store state) := by
  intro rest hrest
  have hcontains : seen.contains field.name = false := by simpa using hnew
  rw [List.append_assoc, List.append_assoc, List.cons_append, encode_quote, List.cons_append,
    member, bind_ok (expect_gap _ hgap (by decide)), bind_ok (quoted_quote field.name _)]
  simp only [find?_of_mem hmem hnames, hcontains, Bool.false_eq_true, if_false]
  rw [bind_ok (expect_cons _ (by decide)), bind_ok (htake rest hrest)]
  rfl

/-- A member of another name is passed over. -/
theorem member_skips (hfind : fields.find? (fun field => field.name = name) = none)
    (hskip : TakesOff skip value ()) :
    TakesOff (member fields depth (seen, state)) (Utf8.encode (quote name) ++ 0x3A :: value)
      (seen, state) := by
  intro rest hrest
  rw [List.append_assoc, List.cons_append, encode_quote, List.cons_append, member,
    bind_ok (expect_cons _ (by decide)), bind_ok (quoted_quote name _)]
  simp only [hfind]
  rw [bind_ok (expect_cons _ (by decide)), bind_ok (hskip rest hrest)]
  rfl

theorem record_of_items {bytes : List UInt8} {blank : σ}
    (hitems : ∀ rest, items 0x7D (member fields depth) ([], blank) (bytes ++ rest) =
      .ok ((seen, state), rest)) (hcomplete : complete fields seen = true) :
    TakesOff (record fields blank (depth + 1)) (0x7B :: bytes) state := by
  intro rest _
  rw [List.cons_append, record, bind_ok (peek_cons _ (by decide)), if_pos rfl]
  show (drop >>= fun _ => _) _ = _
  rw [bind_ok (drop_cons _ _), bind_ok (hitems rest)]
  simp only [hcomplete, if_true]
  rfl

/-- A record in compact text. -/
theorem record_takes {members : List (String × Json)} {blank : σ}
    (h : Folds (member fields depth) ([], blank) (members.map memberBytes) (seen, state))
    (hcomplete : complete fields seen = true) :
    TakesOff (record fields blank (depth + 1)) (Utf8.encode (write (.object members))) state := by
  rw [encode_object]
  refine record_of_items (fun rest => ?_) hcomplete
  rw [List.append_assoc]
  refine items_compact (.inr rfl) rest h fun piece hpiece => ?_
  obtain ⟨member, -, rfl⟩ := List.mem_map.1 hpiece
  rw [memberBytes, encode_quote]
  exact ⟨quoteMark, _, rfl, by decide, by decide⟩

/-- A record in compact text with its first two fields and no others. -/
theorem record_takes_two {first second : TextField σ} {other : String} {found more : Json}
    {blank : σ} {next : σ -> σ} (hnames : ((first :: second :: fields).map Field.name).Nodup)
    (hname : first.name = name) (hother : second.name = other)
    (hfirst : TakesOff (first.take depth) (Utf8.encode found.write) store)
    (hsecond : TakesOff (second.take depth) (Utf8.encode more.write) next)
    (hcomplete : complete (first :: second :: fields) [other, name] = true)
    (hstate : next (store blank) = state) :
    TakesOff (record (first :: second :: fields) blank (depth + 1))
      (Utf8.encode (write (.object [(name, found), (other, more)]))) state := by
  subst hname hother hstate
  have hnew : second.name ∉ [first.name] := by
    intro hsame
    have hnot := (List.nodup_cons.1 hnames).1
    simp [List.mem_singleton.1 hsame] at hnot
  have hstart : TakesOff (member (first :: second :: fields) depth ([], blank)) _ _ :=
    member_takes (.head _) hnames List.not_mem_nil allBlank_nil hfirst
  have hend : TakesOff (member (first :: second :: fields) depth ([first.name], store blank)) _ _ :=
    member_takes (.tail _ (.head _)) hnames hnew allBlank_nil hsecond
  exact record_takes (.cons hstart (.cons hend (.nil _))) hcomplete

end Members

/-! ## Values inside a record -/

section Typed

variable {inner : Typed α} {depth : Nat} {bytes : List UInt8} {found : α}

theorem via_takes {convert : Json -> Option α} {value : Json} (hfits : Fits depth value)
    (hconvert : convert value = some found) :
    TakesOff (via convert depth) (Utf8.encode value.write) found := by
  intro rest hrest
  rw [via, bind_ok (takes_value depth value hfits rest hrest)]
  simp only [hconvert]
  rfl

/-- A value that is there, and so does not begin as null does. -/
theorem nullable_takes {byte : UInt8} {tail : List UInt8} (hfront : bytes = byte :: tail)
    (hblank : isBlank byte = false) (hnull : byte ≠ 0x6E) (h : TakesOff (inner depth) bytes found) :
    TakesOff (nullable inner depth) bytes (some found) := by
  intro rest hrest
  have hread := map_ok (f := some) (h rest hrest)
  rw [hfront, List.cons_append] at hread ⊢
  rw [nullable, bind_ok (peek_cons _ hblank), if_neg hnull]
  exact hread

theorem listOf_takes {values : List Json} {list : List α}
    (h : List.Forall₂ (fun value item => TakesOff (inner depth) (Utf8.encode value.write) item)
      values list) (hopens : ∀ value ∈ values, Opens 0x5D (Utf8.encode value.write)) :
    TakesOff (listOf inner (depth + 1)) (Utf8.encode (write (.array values))) list := by
  have hfolds : ∀ held, Folds (fun held => do
        let item ← inner depth
        pure (item :: held)) held (values.map fun value => Utf8.encode value.write)
      (list.reverse ++ held) := by
    induction h with
    | nil => exact fun held => .nil held
    | @cons value item values list hitem _ ih =>
        intro held
        have hstep : TakesOff (do
            let item ← inner depth
            pure (item :: held)) (Utf8.encode value.write) (item :: held) := by
          intro rest hrest
          show (inner depth >>= fun item => pure (item :: held)) _ = _
          rw [bind_ok (hitem rest hrest)]
          rfl
        have hrest := ih (fun other hother => hopens other (.tail _ hother)) (item :: held)
        rw [List.reverse_cons, List.append_assoc]
        exact .cons hstep hrest
  intro rest _
  have hitems := items_compact (.inl rfl) rest (hfolds []) (by
    intro piece hpiece
    obtain ⟨value, hvalue, rfl⟩ := List.mem_map.1 hpiece
    exact hopens value hvalue)
  rw [encode_array, List.cons_append, List.append_assoc, listOf,
    bind_ok (peek_cons _ (by decide)), if_pos rfl]
  show arrayOf (inner depth) _ = _
  rw [arrayOf, bind_ok (drop_cons _ _), List.singleton_append, bind_ok hitems, List.append_nil,
    List.reverse_reverse]
  rfl

end Typed

end Reader

end Json

end ChatGateway
