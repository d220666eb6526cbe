import ChatGateway.Credential.Record
import ChatGateway.Json.Decode

/-!
# Values that hold a record

What a record takes from the members of an object depends on no order: each field has a name and a
part of the record of its own.  So an object holds a credential's record exactly if it names each of
the fields once, with a value of the field's type; only the type of the token may be missing.
-/

namespace ChatGateway

namespace Json

namespace Decode

variable {α σ : Type} {fields : List (ValueField σ)} {name : String}
  {members : List (String × Json)} {state next last : List String × σ} {held : String × Json}

/-- The values of all members of a name. -/
def named (members : List (String × Json)) (name : String) : List Json :=
  (members.filter fun member => member.1 = name).map Prod.snd

theorem named_cons_self (h : held.1 = name) :
    named (held :: members) name = held.2 :: named members name := by
  simp [named, h]

theorem named_cons_of_ne (h : held.1 ≠ name) :
    named (held :: members) name = named members name := by
  simp [named, h]

/-- A member of no field changes nothing; one of a field stores its value, the first time. -/
theorem member_eq_some : member fields state held = some next ↔
    fields.find? (fun field => field.name = held.1) = none ∧ next = state ∨
    ∃ field store, fields.find? (fun field => field.name = held.1) = some field ∧
      held.1 ∉ state.1 ∧ field.take held.2 = some store ∧
      next = (held.1 :: state.1, store state.2) := by
  rw [member]
  cases fields.find? fun field => field.name = held.1 with
  | none => simp [eq_comm]
  | some field =>
      by_cases hseen : held.1 ∈ state.1
      · simp [hseen]
      · simp [hseen, @eq_comm _ next]

/-- The field of this name alone stores this part of the record: what its value decodes to. -/
structure Owns (fields : List (ValueField σ)) (name : String) (decode : Decode α)
    (part : σ -> α) : Prop where
  field : ∃ field, fields.find? (fun field => field.name = name) = some field ∧
    ∀ value store, field.take value = some store →
      ∃ found, decode value = some found ∧ ∀ state, part (store state) = found
  others : ∀ field ∈ fields, field.name ≠ name → ∀ value store, field.take value = some store →
    ∀ state, part (store state) = part state

/-- The part is as it was and the name was not read, or it is of the one member of the name. -/
theorem Owns.of_foldlM {decode : Decode α} {part : σ -> α} (h : Owns fields name decode part)
    (hfold : members.foldlM (member fields) state = some last) :
    if name ∈ state.1 then
      named members name = [] ∧ part last.2 = part state.2 ∧ name ∈ last.1
    else
      named members name = [] ∧ part last.2 = part state.2 ∧ name ∉ last.1 ∨
      ∃ value, named members name = [value] ∧ decode value = some (part last.2) ∧
        name ∈ last.1 := by
  induction members generalizing state with
  | nil =>
      cases hfold
      split
      next hseen => exact ⟨rfl, rfl, hseen⟩
      next hseen => exact .inl ⟨rfl, rfl, hseen⟩
  | cons held members ih =>
      rw [List.foldlM_cons] at hfold
      obtain ⟨next, hnext, hfold⟩ := Option.bind_eq_some_iff.1 hfold
      have hrest := ih hfold
      obtain ⟨own, hown, htakes⟩ := h.field
      rcases member_eq_some.1 hnext with ⟨hnone, rfl⟩ | ⟨field, store, hfind, hnew, htake, rfl⟩
      · have hne : held.1 ≠ name := by
          rintro rfl
          rw [hnone] at hown
          cases hown
        rwa [named_cons_of_ne hne]
      · by_cases hname : held.1 = name
        · subst hname
          rw [hfind, Option.some.injEq] at hown
          subst hown
          obtain ⟨found, hdecode, hpart⟩ := htakes _ _ htake
          rw [if_pos List.mem_cons_self] at hrest
          obtain ⟨hnamed, hlast, hseen⟩ := hrest
          rw [if_neg hnew, named_cons_self rfl, hnamed]
          exact .inr ⟨held.2, rfl, by rw [hlast, hpart, hdecode], hseen⟩
        · have hfield : field.name = held.1 := by simpa using List.find?_some hfind
          have hsame := h.others field (List.mem_of_find?_eq_some hfind) (hfield ▸ hname) _ _ htake
          rw [named_cons_of_ne hname]
          simpa [Ne.symm hname, hsame] using hrest

variable {decode : Decode α} {part : σ -> α} {seen : List String} {blank found : σ}

theorem Owns.of_seen (h : Owns fields name decode part)
    (hfold : members.foldlM (member fields) ([], blank) = some (seen, found))
    (hseen : name ∈ seen) :
    ∃ value, named members name = [value] ∧ decode value = some (part found) := by
  have hread := h.of_foldlM hfold
  rw [if_neg List.not_mem_nil] at hread
  rcases hread with ⟨-, -, hunseen⟩ | ⟨value, hnamed, hread, -⟩
  · exact absurd hseen hunseen
  · exact ⟨value, hnamed, hread⟩

theorem Owns.seen_of_named (h : Owns fields name decode part)
    (hfold : members.foldlM (member fields) ([], blank) = some (seen, found))
    (hnamed : named members name ≠ []) : name ∈ seen := by
  have hread := h.of_foldlM hfold
  rw [if_neg List.not_mem_nil] at hread
  rcases hread with ⟨hnone, -, -⟩ | ⟨-, -, -, hseen⟩
  · exact absurd hnone hnamed
  · exact hseen

/-- No field has two of the members, counting what was read before, and all are of its type. -/
def Fits (fields : List (ValueField σ)) (seen : List String) (members : List (String × Json)) :
    Prop :=
  ∀ field ∈ fields, (field.name ∈ seen → named members field.name = []) ∧
    (named members field.name).length ≤ 1 ∧
    ∀ value ∈ named members field.name, (field.take value).isSome

/-- The first of such members is taken, and the others fit behind it. -/
theorem Fits.member (h : Fits fields state.1 (held :: members)) :
    ∃ next, member fields state held = some next ∧ Fits fields next.1 members := by
  cases hfind : fields.find? fun field => field.name = held.1 with
  | none =>
      refine ⟨state, member_eq_some.2 (.inl ⟨hfind, rfl⟩), fun field hfield => ?_⟩
      have hne : held.1 ≠ field.name := by
        simpa [eq_comm] using List.find?_eq_none.1 hfind field hfield
      rw [← named_cons_of_ne hne]
      exact h field hfield
  | some own =>
      have hown : own.name = held.1 := by simpa using List.find?_some hfind
      obtain ⟨hseen, hlength, htaken⟩ := h own (List.mem_of_find?_eq_some hfind)
      rw [named_cons_self hown.symm] at hseen hlength htaken
      have hnew : held.1 ∉ state.1 := fun hmem => by cases hseen (hown ▸ hmem)
      have hnone : named members held.1 = [] := by
        rw [← hown, ← List.length_eq_zero_iff]
        exact Nat.le_zero.1 (Nat.le_of_succ_le_succ hlength)
      obtain ⟨store, htake⟩ := Option.isSome_iff_exists.1 (htaken _ List.mem_cons_self)
      refine ⟨_, member_eq_some.2 (.inr ⟨own, store, hfind, hnew, htake, rfl⟩),
        fun field hfield => ?_⟩
      by_cases hname : held.1 = field.name
      · rw [← hname, hnone]
        exact ⟨fun _ => rfl, Nat.zero_le _, nofun⟩
      · obtain ⟨hseen, hothers⟩ := h field hfield
        rw [named_cons_of_ne hname] at hseen hothers
        refine ⟨fun hmem => hseen ?_, hothers⟩
        exact (List.mem_cons.1 hmem).resolve_left (Ne.symm hname)

theorem Fits.foldlM (h : Fits fields state.1 members) :
    ∃ last, members.foldlM (Decode.member fields) state = some last := by
  induction members generalizing state with
  | nil => exact ⟨state, rfl⟩
  | cons held members ih =>
      obtain ⟨next, hnext, hrest⟩ := h.member
      obtain ⟨last, hlast⟩ := ih hrest
      exact ⟨last, by rw [List.foldlM_cons, hnext]; exact hlast⟩

/-- An array goes on with the value of a field that has to be there. -/
theorem positional_required {inner : Decode α} {store : α -> σ -> σ} {items : List Json}
    (h : positional (.required name inner store :: fields) items blank = some found) :
    ∃ item rest value, items = item :: rest ∧ inner item = some value ∧
      positional fields rest (store value blank) = some found := by
  cases items with
  | nil => cases h
  | cons item rest =>
      obtain ⟨taken, htake, hrest⟩ := Option.bind_eq_some_iff.1 h
      obtain ⟨value, hvalue, rfl⟩ := Option.map_eq_some_iff.1 htake
      exact ⟨item, rest, value, rfl, hvalue, hrest⟩

/-- What stands in the place of a field that may be left out is its value. -/
theorem positional_defaulted {inner : Decode α} {store : α -> σ -> σ} {item : Json}
    {rest : List Json}
    (h : positional (.defaulted name inner store :: fields) (item :: rest) blank = some found) :
    ∃ value, inner item = some value ∧
      positional fields rest (store value blank) = some found := by
  obtain ⟨taken, htake, hrest⟩ := Option.bind_eq_some_iff.1 h
  obtain ⟨value, hvalue, rfl⟩ := Option.map_eq_some_iff.1 htake
  exact ⟨value, hvalue, hrest⟩

/-- A value of the field's type is stored in the part that the field owns. -/
theorem field_of_take {store : α -> σ -> σ}
    (hstore : ∀ found state, part (store found state) = found) :
    ∀ value taken, (decode value).map store = some taken →
      ∃ found, decode value = some found ∧ ∀ state, part (taken state) = found := by
  intro value taken htake
  obtain ⟨found, hfound, rfl⟩ := Option.map_eq_some_iff.1 htake
  exact ⟨found, hfound, hstore found⟩

theorem of_text_eq_some {value : Json} {found : String} (h : Decode.text value = some found) :
    value = .text found := by
  cases value <;> cases h
  rfl

section Texts

variable {part : σ -> String}

theorem Owns.text_of_seen (h : Owns fields name Decode.text part)
    (hfold : members.foldlM (member fields) ([], blank) = some (seen, found))
    (hseen : name ∈ seen) : named members name = [.text (part found)] := by
  obtain ⟨value, hnamed, hread⟩ := h.of_seen hfold hseen
  rw [hnamed, of_text_eq_some hread]

theorem Owns.text_or_blank (h : Owns fields name Decode.text part)
    (hfold : members.foldlM (member fields) ([], blank) = some (seen, found)) :
    named members name = [.text (part found)] ∨
      named members name = [] ∧ part found = part blank := by
  have hread := h.of_foldlM hfold
  rw [if_neg List.not_mem_nil] at hread
  rcases hread with ⟨hnone, hkept, -⟩ | ⟨value, hnamed, hread, -⟩
  · exact .inr ⟨hnone, hkept⟩
  · exact .inl (by rw [hnamed, of_text_eq_some hread])

/-- One text at most is named, or the one that stands for none. -/
theorem text_unique {values : List Json} {first second none : String}
    (hfirst : values = [.text first] ∨ values = [] ∧ first = none)
    (hsecond : values = [.text second] ∨ values = [] ∧ second = none) : first = second := by
  rcases hfirst with rfl | ⟨rfl, rfl⟩ <;> rcases hsecond with hsecond | ⟨hsecond, rfl⟩
  · simpa using hsecond
  · cases hsecond
  · cases hsecond
  · rfl

end Texts

theorem record_object_eq_some : record fields blank (.object members) = some found ↔
    ∃ seen, members.foldlM (member fields) ([], blank) = some (seen, found) ∧
      Reader.complete fields seen = true := by
  rw [record, Option.bind_eq_some_iff]
  simp [Prod.exists]

end Decode

end Json

namespace Credential

namespace Record

open Json Decode

def valueFields : List (ValueField Record) := [
  .required "access_token" Decode.text fun accessToken record => { record with accessToken },
  .required "refresh_token" Decode.text fun refreshToken record => { record with refreshToken },
  .defaulted "token_type" Decode.text fun tokenType record => { record with tokenType },
  .required "expires_at" (numberAs Number.uint64?)
    fun expiresAt record => { record with expiresAt }]

/-- The record that a value is: an object with its members, or an array of their values. -/
def ofJson? : Decode Record :=
  Decode.record valueFields ⟨"", "", defaultTokenType, 0⟩

variable {members : List (String × Json)} {items : List Json} {record : Record}

theorem owns_accessToken : Owns valueFields "access_token" Decode.text accessToken where
  field := ⟨_, rfl, field_of_take fun _ _ => rfl⟩
  others := by simp [valueFields, ValueField.required, ValueField.defaulted]

theorem owns_refreshToken : Owns valueFields "refresh_token" Decode.text refreshToken where
  field := ⟨_, rfl, field_of_take fun _ _ => rfl⟩
  others := by simp [valueFields, ValueField.required, ValueField.defaulted]

theorem owns_tokenType : Owns valueFields "token_type" Decode.text tokenType where
  field := ⟨_, rfl, field_of_take fun _ _ => rfl⟩
  others := by simp [valueFields, ValueField.required, ValueField.defaulted]

theorem owns_expiresAt :
    Owns valueFields "expires_at" (numberAs Number.uint64?) expiresAt where
  field := ⟨_, rfl, field_of_take fun _ _ => rfl⟩
  others := by simp [valueFields, ValueField.required, ValueField.defaulted]

theorem of_numberAs_eq_some {convert : Number -> Option UInt64} {value : Json} {found : UInt64}
    (h : numberAs convert value = some found) :
    ∃ number, value = .number number ∧ convert number = some found := by
  cases value <;> first | exact ⟨_, rfl, h⟩ | cases h

theorem ofJson?_object_eq_some : ofJson? (.object members) = some record ↔
    ∃ seen, members.foldlM (member valueFields) ([], ⟨"", "", defaultTokenType, 0⟩) =
        some (seen, record) ∧
      "access_token" ∈ seen ∧ "refresh_token" ∈ seen ∧ "expires_at" ∈ seen := by
  rw [ofJson?, record_object_eq_some]
  simp [Reader.complete, valueFields, ValueField.required, ValueField.defaulted]

/-- Members that name the parts of a record once, in any order and among other names. -/
structure NamedBy (record : Record) (members : List (String × Json)) : Prop where
  accessToken : named members "access_token" = [.text record.accessToken]
  refreshToken : named members "refresh_token" = [.text record.refreshToken]
  tokenType : named members "token_type" = [.text record.tokenType] ∨
    named members "token_type" = [] ∧ record.tokenType = defaultTokenType
  expiresAt : ∃ number, named members "expires_at" = [.number number] ∧
    number.uint64? = some record.expiresAt

theorem NamedBy.of_ofJson? (h : ofJson? (.object members) = some record) :
    record.NamedBy members := by
  obtain ⟨seen, hfold, haccess, hrefresh, hexpires⟩ := ofJson?_object_eq_some.1 h
  obtain ⟨expires, hnamedExpires, hread⟩ := owns_expiresAt.of_seen hfold hexpires
  obtain ⟨number, rfl, hnumber⟩ := of_numberAs_eq_some hread
  exact ⟨owns_accessToken.text_of_seen hfold haccess, owns_refreshToken.text_of_seen hfold hrefresh,
    owns_tokenType.text_or_blank hfold, number, hnamedExpires, hnumber⟩

theorem NamedBy.unique {other : Record} (h : record.NamedBy members)
    (hother : other.NamedBy members) : record = other := by
  obtain ⟨haccess, hrefresh, htype, number, hexpires, hnumber⟩ := h
  obtain ⟨haccess', hrefresh', htype', number', hexpires', hnumber'⟩ := hother
  rw [haccess] at haccess'
  rw [hrefresh] at hrefresh'
  rw [hexpires] at hexpires'
  have hsame : record.tokenType = other.tokenType := text_unique htype htype'
  cases record
  cases other
  simp_all

theorem NamedBy.fits (h : record.NamedBy members) : Fits valueFields [] members := by
  obtain ⟨haccess, hrefresh, htype, number, hexpires, hnumber⟩ := h
  have htext (found : String) : (Decode.text (.text found)).isSome = true := rfl
  have hexpiry : numberAs Number.uint64? (.number number) = some record.expiresAt := hnumber
  rcases htype with htype | ⟨htype, -⟩ <;>
    simp [Fits, valueFields, ValueField.required, ValueField.defaulted, haccess, hrefresh, htype,
      hexpires, htext, hexpiry]

/-- The members of an object hold a record in any order, among members of other names. -/
theorem ofJson?_object : ofJson? (.object members) = some record ↔ record.NamedBy members := by
  refine ⟨.of_ofJson?, fun h => ?_⟩
  obtain ⟨⟨seen, found⟩, hfold⟩ : ∃ last,
      members.foldlM (member valueFields) ([], ⟨"", "", defaultTokenType, 0⟩) = some last :=
    h.fits.foldlM
  have hfound : ofJson? (.object members) = some found := by
    refine ofJson?_object_eq_some.2 ⟨seen, hfold, ?_, ?_, ?_⟩
    · exact owns_accessToken.seen_of_named hfold (by simp [h.accessToken])
    · exact owns_refreshToken.seen_of_named hfold (by simp [h.refreshToken])
    · obtain ⟨number, hnamed, -⟩ := h.expiresAt
      exact owns_expiresAt.seen_of_named hfold (by simp [hnamed])
  rw [hfound, h.unique (.of_ofJson? hfound)]

/-- An array holds a record if it has exactly the values of its parts, in their order. -/
theorem ofJson?_array : ofJson? (.array items) = some record ↔
    ∃ number, items = [.text record.accessToken, .text record.refreshToken,
        .text record.tokenType, .number number] ∧
      number.uint64? = some record.expiresAt := by
  rw [ofJson?, Decode.record]
  constructor
  · intro h
    obtain ⟨access, items, accessToken, rfl, hread, hrefresh⟩ := positional_required h
    rw [of_text_eq_some hread]
    obtain ⟨refresh, items, refreshToken, rfl, hread, htype⟩ := positional_required hrefresh
    rw [of_text_eq_some hread]
    -- The type may be left out, but what stands behind it may not.
    rcases items with _ | ⟨type, items⟩
    · cases htype
    obtain ⟨tokenType, hread, hexpires⟩ := positional_defaulted htype
    rw [of_text_eq_some hread]
    obtain ⟨expires, items, expiresAt, rfl, hread, hend⟩ := positional_required hexpires
    obtain ⟨number, rfl, hnumber⟩ := of_numberAs_eq_some hread
    rcases items with _ | ⟨item, items⟩
    · cases hend
      exact ⟨number, rfl, hnumber⟩
    · cases hend
  · rintro ⟨number, rfl, hnumber⟩
    simp [positional, valueFields, ValueField.required, ValueField.defaulted, Decode.text,
      Json.text?, numberAs, hnumber]

/-- A value that holds a record: an object that names its parts, or an array of their values. -/
inductive HeldBy (record : Record) : Json -> Prop where
  | object {members : List (String × Json)} (h : record.NamedBy members) :
      HeldBy record (.object members)
  | array {number : Number} (h : number.uint64? = some record.expiresAt) :
      HeldBy record (.array [.text record.accessToken, .text record.refreshToken,
        .text record.tokenType, .number number])

theorem ofJson?_eq_some {whole : Json} : ofJson? whole = some record ↔ record.HeldBy whole := by
  constructor
  · intro h
    cases whole with
    | object members => exact .object (ofJson?_object.1 h)
    | array items =>
        obtain ⟨number, rfl, hnumber⟩ := ofJson?_array.1 h
        exact .array hnumber
    | _ => cases h
  · rintro (h | h)
    · exact ofJson?_object.2 h
    · exact ofJson?_array.2 ⟨_, rfl, h⟩

end Record

end Credential

end ChatGateway
