import ChatGateway.Json.Decode
import ChatGateway.Proofs.Canonical
import ChatGateway.Proofs.JsonText

/-!
# Bounds on what is read

A value that was read opens no more brackets inside one another than its reader accepts, and its
whole numbers are of 64 bits.  A property of everything that is stored into a record is one of
the record that is read.
-/

namespace ChatGateway

namespace Json

namespace Reader

/-- Whatever the reader returns has the property. -/
def Yields (reader : Reader α) (P : α -> Prop) : Prop :=
  ∀ input found rest, reader input = .ok (found, rest) → P found

section Yields

variable {α β : Type} {reader : Reader α} {P P' : α -> Prop} {Q : β -> Prop}

theorem Yields.imp (h : Yields reader P) (himp : ∀ found, P found → P' found) :
    Yields reader P' :=
  fun input found rest hread => himp found (h input found rest hread)

theorem yields_pure {found : α} (h : P found) : Yields (pure found) P := by
  intro input other rest hread
  cases hread
  exact h

theorem yields_malformed : Yields malformed P := by
  intro input found rest hread
  cases hread

theorem yields_mistyped : Yields mistyped P := by
  intro input found rest hread
  cases hread

theorem Yields.bind {next : α -> Reader β} (h : Yields reader P)
    (hnext : ∀ found, P found → Yields (next found) Q) : Yields (reader >>= next) Q := by
  intro input found rest hread
  obtain ⟨first, middle, hfirst, hlast⟩ := bind_eq_ok hread
  exact hnext first (h input first middle hfirst) middle found rest hlast

/-- A first reader of which nothing matters. -/
theorem yields_bind {next : α -> Reader β} (hnext : ∀ found, Yields (next found) Q) :
    Yields (reader >>= next) Q := by
  have hany : Yields reader fun _ => True := fun _ _ _ _ => trivial
  exact hany.bind fun found _ => hnext found

theorem Yields.map {f : α -> β} (h : Yields reader P) (hmap : ∀ found, P found → Q (f found)) :
    Yields (f <$> reader) Q := by
  rw [map_eq_pure_bind]
  exact h.bind fun found hfound => yields_pure (hmap found hfound)

theorem yields_ite {test : Prop} [Decidable test] {other : Reader α}
    (hthen : Yields reader P) (helse : Yields other P) :
    Yields (if test then reader else other) P := by
  split
  · exact hthen
  · exact helse

end Yields

/-! ## Brackets -/

section Brackets

variable {α σ : Type} {inside : Reader α} {P : α -> Prop} {I : σ -> Prop} {close : UInt8}
  {step : σ -> Reader σ} {state : σ}

theorem yields_foldItems (hstep : ∀ state, I state → Yields (step state) I) (fuel : Nat)
    (h : I state) : Yields (foldItems close step fuel state) I := by
  induction fuel generalizing state with
  | zero => exact yields_malformed
  | succ fuel ih =>
      refine (hstep state h).bind fun next hnext => yields_bind fun byte => ?_
      refine yields_ite (yields_bind fun _ => yields_pure hnext) ?_
      exact yields_ite (yields_bind fun _ => ih hnext) yields_malformed

theorem yields_items (hstep : ∀ state, I state → Yields (step state) I) (h : I state) :
    Yields (items close step state) I := by
  refine yields_bind fun byte => ?_
  refine yields_ite (yields_bind fun _ => yields_pure h) ?_
  intro input
  exact yields_foldItems hstep input.length h input

theorem yields_arrayOf (h : Yields inside P) :
    Yields (arrayOf inside) fun found => ∀ item ∈ found, P item := by
  refine yields_bind fun _ => (yields_items (I := fun held => ∀ item ∈ held, P item) ?_ ?_).bind
    fun found hfound => yields_pure ?_
  · intro held hheld
    refine h.bind fun item hitem => yields_pure fun other hother => ?_
    rcases List.mem_cons.1 hother with rfl | hother
    · exact hitem
    · exact hheld other hother
  · simp
  · simpa using hfound

theorem yields_objectOf (h : Yields inside P) :
    Yields (objectOf inside) fun found => ∀ member ∈ found, P member.2 := by
  refine yields_bind fun _ => (yields_items
    (I := fun held => ∀ member ∈ held, P member.2) ?_ ?_).bind fun found hfound =>
      yields_pure ?_
  · intro held hheld
    refine yields_bind fun name => h.bind fun item hitem => yields_pure fun other hother => ?_
    rcases List.mem_cons.1 hother with rfl | hother
    · exact hitem
    · exact hheld other hother
  · simp
  · simpa using hfound

end Brackets

/-! ## Values -/

/-- The value opens at most `depth` brackets inside one another, and has no greater whole numbers
than a reader returns. -/
def Bounded : Nat -> Json -> Prop
  | _, .number (.int value) => IsWhole value
  | 0, .array _ | 0, .object _ => False
  | depth + 1, .array items => ∀ item ∈ items, Bounded depth item
  | depth + 1, .object members => ∀ member ∈ members, Bounded depth member.2
  | _, _ => True

/-- Every number in the value is a whole one. -/
inductive Whole : Json -> Prop
  | null : Whole .null
  | bool {value} : Whole (.bool value)
  | int {value} : Whole (.number (.int value))
  | text {value} : Whole (.text value)
  | array {items} : (∀ item ∈ items, Whole item) → Whole (.array items)
  | object {members} : (∀ member ∈ members, Whole member.2) → Whole (.object members)

theorem Bounded.fits {depth : Nat} {value : Json} (h : Bounded depth value) (hwhole : Whole value) :
    Fits depth value := by
  induction depth generalizing value with
  | zero => cases hwhole <;> simp_all [Bounded, Fits]
  | succ depth ih =>
      cases hwhole with
      | array hitems => exact fun item hitem => ih (h item hitem) (hitems item hitem)
      | object hmembers =>
          exact fun member hmember => ih (h member hmember) (hmembers member hmember)
      | null => trivial
      | bool => trivial
      | text => trivial
      | int => exact h

theorem Bounded.mono {depth more : Nat} {value : Json} (h : Bounded depth value)
    (hle : depth ≤ more) : Bounded more value := by
  induction depth generalizing value more with
  | zero =>
      cases value with
      | number number => cases number <;> cases more <;> simp_all [Bounded]
      | array | object => exact h.elim
      | null | bool | text => cases more <;> trivial
  | succ depth ih =>
      obtain ⟨more, rfl⟩ : ∃ less, more = less + 1 := ⟨more - 1, by omega⟩
      have hle : depth ≤ more := by omega
      cases value with
      | number number => cases number <;> simp_all [Bounded]
      | array items => exact fun item hitem => ih (h item hitem) hle
      | object members => exact fun member hmember => ih (h member hmember) hle
      | null | bool | text => trivial

theorem Bounded.canonical {depth : Nat} {value : Json} (h : Bounded depth value) :
    Bounded depth value.canonical := by
  induction depth generalizing value with
  | zero => cases value <;> exact h
  | succ depth ih =>
      cases value with
      | array items =>
          rw [Json.canonical, canonicalItems_eq_map]
          intro item hitem
          obtain ⟨held, hheld, rfl⟩ := List.mem_map.1 hitem
          exact ih (h held hheld)
      | object members =>
          intro member hmember
          obtain ⟨held, hheld, -, hvalue⟩ := mem_canonicalMembers hmember
          rw [← hvalue]
          exact ih (h held hheld)
      | null | bool | number | text => exact h

theorem isWhole_of_int? {written : Numeral} {value : Int} (h : written.int? = some value) :
    IsWhole value := by
  unfold Numeral.int? at h
  simp only [UInt64.size] at h
  split at h
  · cases h
  · split at h <;> split at h <;> cases h <;> constructor <;> omega

theorem yields_number : Yields number fun found => Bounded 0 (.number found) := by
  refine yields_bind fun written => ?_
  cases hvalue : written.value? with
  | none => exact yields_malformed
  | some found =>
      refine yields_pure ?_
      unfold Numeral.value? at hvalue
      split at hvalue
      next value hint =>
        cases hvalue
        exact isWhole_of_int? hint
      next =>
        obtain ⟨value, -, rfl⟩ := Option.map_eq_some_iff.1 hvalue
        trivial

theorem yields_valueWith {inside : Reader Json} {depth : Nat}
    (h : Yields inside (Bounded depth)) :
    Yields (valueWith inside) (Bounded (depth + 1)) := by
  refine yields_bind fun byte => ?_
  refine yields_ite (yields_bind fun _ => yields_pure trivial) ?_
  refine yields_ite (yields_bind fun _ => yields_pure trivial) ?_
  refine yields_ite (yields_bind fun _ => yields_pure trivial) ?_
  refine yields_ite (yields_bind fun _ => ?_) ?_
  · have hany : Yields quoted fun _ => True := fun _ _ _ _ => trivial
    exact hany.map fun _ _ => trivial
  refine yields_ite (yields_number.map fun found hfound => hfound.mono (Nat.zero_le _)) ?_
  refine yields_ite ((yields_arrayOf h).map fun _ hfound => hfound) ?_
  exact yields_ite ((yields_objectOf h).map fun _ hfound => hfound) yields_malformed

/-- What the innermost reader refuses at its first byte is not counted here: the bound is one more
than it could be. -/
theorem yields_value (depth : Nat) : Yields (value depth) (Bounded (depth + 1)) := by
  induction depth with
  | zero =>
      exact yields_bind fun _ => yields_ite yields_malformed (yields_valueWith yields_malformed)
  | succ depth ih => exact yields_valueWith ih

/-! ## Typed values -/

section Typed

variable {α σ : Type} {inner : Typed α} {P : α -> Prop} {I : σ -> Prop} {depth : Nat}

theorem yields_wrongType : Yields wrongType P := by
  refine yields_bind fun byte => ?_
  refine yields_ite (yields_bind fun _ => yields_mistyped) ?_
  refine yields_ite (yields_bind fun _ => yields_mistyped) ?_
  refine yields_ite (yields_bind fun _ => yields_mistyped) ?_
  refine yields_ite (yields_bind fun _ => yields_bind fun _ => yields_mistyped) ?_
  refine yields_ite (yields_bind fun _ => yields_mistyped) ?_
  exact yields_ite yields_mistyped yields_malformed

theorem yields_listOf (h : ∀ less, depth = less + 1 → Yields (inner less) P) :
    Yields (listOf inner depth) fun found => ∀ item ∈ found, P item := by
  refine yields_bind fun byte => yields_ite ?_ yields_wrongType
  cases depth with
  | zero => exact yields_malformed
  | succ depth => exact yields_arrayOf (h depth rfl)

theorem yields_via {convert : Json -> Option α}
    (h : ∀ value found, Bounded (depth + 1) value → convert value = some found → P found) :
    Yields (via convert depth) P := by
  refine (yields_value depth).bind fun value hvalue => ?_
  cases hfound : convert value with
  | none => exact yields_mistyped
  | some found => exact yields_pure (h value found hvalue hfound)

/-- A field whose value does not matter. -/
theorem yields_store {reader : Reader α} {store : α -> σ -> σ}
    (h : ∀ value state, I state → I (store value state)) :
    Yields (store <$> reader) fun store => ∀ state, I state → I (store state) := by
  have hany : Yields reader fun _ => True := fun _ _ _ _ => trivial
  exact hany.map fun value _ => h value

variable {fields : List (TextField σ)} {blank : σ}

/-- Storing the value of any of the fields keeps the property. -/
def Keeps (I : σ -> Prop) (fields : List (TextField σ)) (depth : Nat) : Prop :=
  ∀ field ∈ fields, Yields (field.take depth) fun store => ∀ state, I state → I (store state)

theorem Keeps.nil : Keeps I [] depth := by
  intro field hfield
  cases hfield

theorem Keeps.cons {field : TextField σ} (hfields : Keeps I fields depth)
    (h : Yields (field.take depth) fun store => ∀ state, I state → I (store state)) :
    Keeps I (field :: fields) depth := by
  intro other hother
  rcases List.mem_cons.1 hother with rfl | hother
  · exact h
  · exact hfields other hother

theorem yields_member (hfields : Keeps I fields depth) (state : List String × σ)
    (h : I state.2) : Yields (member fields depth state) fun next => I next.2 := by
  refine yields_bind fun _ => yields_bind fun name => ?_
  cases hfind : fields.find? fun field => field.name = name with
  | none => exact yields_bind fun _ => yields_bind fun _ => yields_pure h
  | some field =>
      refine yields_ite yields_mistyped (yields_bind fun _ => ?_)
      exact (hfields field (List.mem_of_find?_eq_some hfind)).bind fun store hstore =>
        yields_pure (hstore _ h)

theorem yields_positional (first : Bool) {state : σ} (hfields : Keeps I fields depth)
    (h : I state) : Yields (positional depth first fields state) I := by
  induction fields generalizing first state with
  | nil => exact yields_bind fun _ => yields_pure h
  | cons field rest ih =>
      have hrest : Keeps I rest depth := fun other hother => hfields other (.tail _ hother)
      refine yields_bind fun there => yields_ite ?_ (yields_ite (ih first hrest h) yields_mistyped)
      exact (hfields field (.head _)).bind fun store hstore => ih false hrest (hstore _ h)

/-- A record has the property that the blank one has and that storing any field keeps. -/
theorem yields_record (hfields : ∀ less, depth = less + 1 → Keeps I fields less)
    (h : I blank) : Yields (record fields blank depth) I := by
  refine yields_bind fun byte => yields_ite ?_ (yields_ite ?_ yields_wrongType)
  · cases depth with
    | zero => exact yields_malformed
    | succ depth =>
        refine yields_bind fun _ => (yields_items (I := fun state => I state.2)
          (yields_member (hfields depth rfl)) h).bind fun found hfound => ?_
        exact yields_ite (yields_pure hfound) yields_mistyped
  · cases depth with
    | zero => exact yields_malformed
    | succ depth => exact yields_bind fun _ => yields_positional true (hfields depth rfl) h

theorem Yields.run {reader : Typed α} {input : List UInt8} {found : α}
    (h : Yields (reader nesting) P) (hread : run reader input = .ok found) : P found := by
  obtain ⟨rest, hfound, -⟩ := run_eq_ok.1 hread
  exact h input found rest hfound

end Typed

end Reader

/-! ## Values of a type -/

namespace Decode

open Reader (Bounded)

/-- Everything right inside the brackets of the value has the property. -/
def Inside (Q : Json -> Prop) : Json -> Prop
  | .array items => ∀ item ∈ items, Q item
  | .object members => ∀ member ∈ members, Q member.2
  | _ => True

theorem inside_of_bounded {depth : Nat} {value : Json} (h : Bounded (depth + 1) value) :
    Inside (Bounded depth) value := by
  cases value with
  | array items => exact h
  | object members => exact h
  | null | bool | number | text => trivial

variable {σ : Type} {Q : Json -> Prop} {I : σ -> Prop} {fields : List (ValueField σ)}
  {state found : σ} {value tag rest : Json}

theorem Inside.of_splitTag (h : Inside Q value) (hsplit : splitTag value = some (tag, rest)) :
    Inside Q rest := by
  unfold splitTag at hsplit
  split at hsplit
  · split at hsplit
    · cases hsplit
      exact fun member hmember => h member (List.mem_filter.1 hmember).1
    · cases hsplit
  · cases hsplit
    exact fun item hitem => h item (.tail _ hitem)
  · cases hsplit

/-- Storing a value with the property into any of the fields keeps the record's property. -/
def Keeps (Q : Json -> Prop) (I : σ -> Prop) (fields : List (ValueField σ)) : Prop :=
  ∀ field ∈ fields, ∀ value store, Q value → field.take value = some store →
    ∀ state, I state → I (store state)

theorem Keeps.nil : Keeps Q I [] := by
  intro field hfield
  cases hfield

theorem Keeps.required {α : Type} {name : String} {inner : Decode α} {store : α -> σ -> σ}
    (hfields : Keeps Q I fields)
    (h : ∀ value found, Q value → inner value = some found →
      ∀ state, I state → I (store found state)) :
    Keeps Q I (.required name inner store :: fields) := by
  intro field hfield value change hvalue hchange
  rcases List.mem_cons.1 hfield with rfl | hfield
  · obtain ⟨found, hfound, rfl⟩ := Option.map_eq_some_iff.1 hchange
    exact h value found hvalue hfound
  · exact hfields field hfield value change hvalue hchange

theorem Keeps.positional (hfields : Keeps Q I fields) {items : List Json}
    (hitems : ∀ item ∈ items, Q item) (hstate : I state)
    (h : positional fields items state = some found) : I found := by
  induction fields generalizing items state with
  | nil =>
      cases items with
      | nil =>
          cases h
          exact hstate
      | cons item items => cases h
  | cons field rest ih =>
      have hrest : Keeps Q I rest := fun other hother => hfields other (.tail _ hother)
      cases items with
      | nil =>
          rw [Decode.positional] at h
          split at h
          · exact ih hrest hitems hstate h
          · cases h
      | cons item items =>
          obtain ⟨store, hstore, h⟩ := Option.bind_eq_some_iff.1 h
          exact ih hrest (fun other hother => hitems other (.tail _ hother))
            (hfields field (.head _) item store (hitems item (.head _)) hstore state hstate) h

theorem Keeps.members (hfields : Keeps Q I fields) {members : List (String × Json)}
    {first last : List String × σ} (hmembers : ∀ member ∈ members, Q member.2)
    (hstate : I first.2) (h : members.foldlM (member fields) first = some last) : I last.2 := by
  induction members generalizing first with
  | nil =>
      cases h
      exact hstate
  | cons held rest ih =>
      rw [List.foldlM_cons] at h
      obtain ⟨next, hnext, h⟩ := Option.bind_eq_some_iff.1 h
      refine ih (fun other hother => hmembers other (.tail _ hother)) ?_ h
      unfold member at hnext
      split at hnext
      next =>
        cases hnext
        exact hstate
      next field hfind =>
        split at hnext
        · cases hnext
        · obtain ⟨store, hstore, rfl⟩ := Option.map_eq_some_iff.1 hnext
          exact hfields field (List.mem_of_find?_eq_some hfind) held.2 store
            (hmembers held (.head _)) hstore first.2 hstate

/-- A record has the property that the blank one has and that storing any field keeps. -/
theorem Keeps.record (hfields : Keeps Q I fields) (hvalue : Inside Q value) (hblank : I state)
    (h : record fields state value = some found) : I found := by
  cases value with
  | array items => exact hfields.positional hvalue hblank h
  | object members =>
      obtain ⟨⟨seen, last⟩, hlast, h⟩ := Option.bind_eq_some_iff.1 h
      have hkept := hfields.members hvalue hblank hlast
      change (if Reader.complete fields seen then some last else none) = some found at h
      split at h
      · cases h
        exact hkept
      · cases h
  | null | bool | number | text => cases h

/-- The decoder that is selected is one of those at hand. -/
theorem select_eq_some {α : Type} {form : TagForm} {choices : List (String × Decode α)}
    {other chosen : Decode α} (h : select form choices other tag = some chosen) :
    chosen = other ∨ chosen ∈ choices.map Prod.snd := by
  unfold select at h
  split at h
  next name =>
    cases h
    cases hlookup : choices.lookup name with
    | none => exact .inl rfl
    | some decoder =>
        obtain ⟨first, last, rfl, -⟩ := List.lookup_eq_some_iff.1 hlookup
        exact .inr (by simp)
  next position =>
    split at h
    · cases h
      cases hget : choices[position.toNat]? with
      | none => exact .inl rfl
      | some choice => exact .inr (List.mem_map_of_mem (List.mem_of_getElem? hget))
    · cases h
  next => cases h

end Decode

end Json

end ChatGateway
