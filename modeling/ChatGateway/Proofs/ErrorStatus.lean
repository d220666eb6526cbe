import ChatGateway.Proofs.RecordValues
import ChatGateway.Proofs.TypedReading
import ChatGateway.Stream.Event

/-!
# The status of an error of the provider

A body holds a report if its value is an object with one member `error` that names a type, or the
array that stands for such an object.  The status of the answer is the one that is documented for
the type, and without a documented type the provider's own as far as it is passed on.  One type of
the documented table is not known to the gateway, and is answered as if it were not documented.
-/

namespace ChatGateway

namespace Failure

namespace Report

section Values

open Json Decode

/-! ## Values that hold a report -/

def valueFields : List (ValueField Report) := [
  .required "type" Decode.text fun errorType report => { report with errorType },
  .defaulted "message" Decode.text fun message report => { report with message }]

variable {members : List (String × Json)} {items : List Json} {value whole : Json}
  {report : Report}

theorem reportDecoder_eq : Stream.reportDecoder = Decode.record valueFields ⟨"", ""⟩ := rfl

theorem owns_errorType : Owns valueFields "type" Decode.text errorType where
  field := ⟨_, rfl, field_of_take fun _ _ => rfl⟩
  others := by simp [valueFields, ValueField.required, ValueField.defaulted]

theorem owns_message : Owns valueFields "message" Decode.text message where
  field := ⟨_, rfl, field_of_take fun _ _ => rfl⟩
  others := by simp [valueFields, ValueField.required, ValueField.defaulted]

theorem reportDecoder_object_eq_some : Stream.reportDecoder (.object members) = some report ↔
    ∃ seen, members.foldlM (member valueFields) ([], ⟨"", ""⟩) = some (seen, report) ∧
      "type" ∈ seen := by
  rw [reportDecoder_eq, record_object_eq_some]
  simp [Reader.complete, valueFields, ValueField.required, ValueField.defaulted]

/-- Members that name the type of the error once, and its message at most once. -/
structure NamedBy (report : Report) (members : List (String × Json)) : Prop where
  errorType : named members "type" = [.text report.errorType]
  message : named members "message" = [.text report.message] ∨
    named members "message" = [] ∧ report.message = ""

theorem NamedBy.of_reportDecoder (h : Stream.reportDecoder (.object members) = some report) :
    report.NamedBy members := by
  obtain ⟨seen, hfold, hseen⟩ := reportDecoder_object_eq_some.1 h
  exact ⟨owns_errorType.text_of_seen hfold hseen, owns_message.text_or_blank hfold⟩

theorem NamedBy.unique {other : Report} (h : report.NamedBy members)
    (hother : other.NamedBy members) : report = other := by
  obtain ⟨htype, hmessage⟩ := h
  obtain ⟨htype', hmessage'⟩ := hother
  rw [htype] at htype'
  have hsame : report.message = other.message := text_unique hmessage hmessage'
  cases report
  cases other
  simp_all

theorem NamedBy.fits (h : report.NamedBy members) : Fits valueFields [] members := by
  obtain ⟨htype, hmessage⟩ := h
  have htext (found : String) : (Decode.text (.text found)).isSome = true := rfl
  rcases hmessage with hmessage | ⟨hmessage, -⟩ <;>
    simp [Fits, valueFields, ValueField.required, ValueField.defaulted, htype, hmessage, htext]

theorem reportDecoder_object :
    Stream.reportDecoder (.object members) = some report ↔ report.NamedBy members := by
  refine ⟨.of_reportDecoder, fun h => ?_⟩
  obtain ⟨⟨seen, found⟩, hfold⟩ : ∃ last,
      members.foldlM (member valueFields) ([], ⟨"", ""⟩) = some last := h.fits.foldlM
  have hseen : "type" ∈ seen := owns_errorType.seen_of_named hfold (by simp [h.errorType])
  have hfound : Stream.reportDecoder (.object members) = some found :=
    reportDecoder_object_eq_some.2 ⟨seen, hfold, hseen⟩
  rw [hfound, h.unique (.of_reportDecoder hfound)]

theorem reportDecoder_array : Stream.reportDecoder (.array items) = some report ↔
    items = [.text report.errorType, .text report.message] ∨
      items = [.text report.errorType] ∧ report.message = "" := by
  rw [reportDecoder_eq, Decode.record]
  constructor
  · intro h
    obtain ⟨first, items, errorType, rfl, hread, hmessage⟩ := positional_required h
    rw [of_text_eq_some hread]
    rcases items with _ | ⟨second, items⟩
    · cases hmessage
      exact .inr ⟨rfl, rfl⟩
    obtain ⟨message, hread, hend⟩ := positional_defaulted hmessage
    rw [of_text_eq_some hread]
    rcases items with _ | ⟨third, items⟩ <;> cases hend
    exact .inl rfl
  · obtain ⟨errorType, message⟩ := report
    rintro (rfl | ⟨rfl, rfl⟩) <;> rfl

/-- A value that holds a report: an object that names its parts, or an array of their values. -/
inductive HeldBy (report : Report) : Json -> Prop where
  | object {members : List (String × Json)} (h : report.NamedBy members) :
      HeldBy report (.object members)
  | array : HeldBy report (.array [.text report.errorType, .text report.message])
  | short (h : report.message = "") : HeldBy report (.array [.text report.errorType])

theorem reportDecoder_eq_some : Stream.reportDecoder value = some report ↔ report.HeldBy value := by
  constructor
  · intro h
    cases value with
    | object members => exact .object (reportDecoder_object.1 h)
    | array items =>
        rcases reportDecoder_array.1 h with rfl | ⟨rfl, hmessage⟩
        · exact .array
        · exact .short hmessage
    | _ => cases h
  · rintro (h | _ | h)
    · exact reportDecoder_object.2 h
    · exact reportDecoder_array.2 (.inl rfl)
    · exact reportDecoder_array.2 (.inr ⟨rfl, h⟩)

/-! ## Bodies that hold a report -/

def bodyFields : List (ValueField Report) :=
  [.required "error" Stream.reportDecoder fun report _ => report]

/-- The report of the value of a body. -/
def ofValue? : Decode Report :=
  Decode.record bodyFields ⟨"", ""⟩

theorem owns_error : Owns bodyFields "error" Stream.reportDecoder id where
  field := ⟨_, rfl, field_of_take fun _ _ => rfl⟩
  others := by simp [bodyFields, ValueField.required]

theorem ofValue?_object : ofValue? (.object members) = some report ↔
    ∃ value, named members "error" = [value] ∧ report.HeldBy value := by
  simp only [ofValue?, record_object_eq_some, ← reportDecoder_eq_some]
  constructor
  · rintro ⟨seen, hfold, hcomplete⟩
    refine owns_error.of_seen hfold ?_
    simpa [Reader.complete, bodyFields, ValueField.required] using hcomplete
  · rintro ⟨value, hnamed, hread⟩
    have hfits : Fits bodyFields [] members := by
      simp [Fits, bodyFields, ValueField.required, hnamed, hread]
    obtain ⟨⟨seen, found⟩, hfold⟩ : ∃ last,
        members.foldlM (member bodyFields) ([], ⟨"", ""⟩) = some last := hfits.foldlM
    have hseen : "error" ∈ seen := owns_error.seen_of_named hfold (by simp [hnamed])
    obtain ⟨other, hother, hfound⟩ := owns_error.of_seen hfold hseen
    rw [hnamed] at hother
    cases hother
    rw [hread] at hfound
    cases hfound
    exact ⟨seen, hfold, by simpa [Reader.complete, bodyFields, ValueField.required] using hseen⟩

theorem ofValue?_array : ofValue? (.array items) = some report ↔
    ∃ value, items = [value] ∧ report.HeldBy value := by
  simp only [ofValue?, Decode.record, ← reportDecoder_eq_some]
  constructor
  · intro h
    obtain ⟨value, items, found, rfl, hread, hend⟩ := positional_required h
    rcases items with _ | ⟨second, items⟩ <;> cases hend
    exact ⟨value, rfl, hread⟩
  · rintro ⟨value, rfl, hread⟩
    simp [positional, bodyFields, ValueField.required, hread]

/-- The value of a body that holds a report: an object with one `error`, or an array of it alone. -/
inductive InBody (report : Report) : Json -> Prop where
  | object {members : List (String × Json)} {value : Json}
      (hnamed : named members "error" = [value]) (h : report.HeldBy value) :
      InBody report (.object members)
  | array {value : Json} (h : report.HeldBy value) : InBody report (.array [value])

theorem ofValue?_eq_some : ofValue? whole = some report ↔ report.InBody whole := by
  constructor
  · intro h
    cases whole with
    | object members =>
        obtain ⟨value, hnamed, hheld⟩ := ofValue?_object.1 h
        exact .object hnamed hheld
    | array items =>
        obtain ⟨value, rfl, hheld⟩ := ofValue?_array.1 h
        exact .array hheld
    | _ => cases h
  · rintro (⟨hnamed, h⟩ | h)
    · exact ofValue?_object.2 ⟨_, hnamed, h⟩
    · exact ofValue?_array.2 ⟨_, rfl, h⟩

end Values

section Bodies

open Json.Reader

variable {body : String} {whole : Json} {report : Report}

/-- The report that is read from a body. -/
def ofBody? (body : String) : Option Report :=
  (Json.Reader.run bodyReader (Text.bytes body)).toOption

/-- A body that is read as a value holds the report that the value holds. -/
theorem ofBody?_of_value (h : Json.read (Text.bytes body) = .ok whole) :
    ofBody? body = ofValue? whole := by
  refine Agrees.run (agrees_record (.cons ⟨rfl, rfl, ?_⟩ .nil) _) h
  refine (agrees_record (.cons ?_ (.cons ?_ .nil)) _).map _
  · exact ⟨rfl, rfl, (agrees_text _ _).map _⟩
  · exact ⟨rfl, rfl, (agrees_text _ _).map _⟩

theorem skippable_reader (depth : Nat) : Skippable (reader depth) := by
  refine skippable_record (fun field hfield depth => ?_) _
  simp only [List.mem_cons, List.not_mem_nil, or_false] at hfield
  rcases hfield with rfl | rfl <;> exact (skippable_text depth).map

/-- A body that holds a report is JSON. -/
theorem isJson_of_ofBody? (h : ofBody? body = some report) :
    IsJson (Text.bytes body) := by
  rw [ofBody?] at h
  cases hread : run bodyReader (Text.bytes body) with
  | error fault =>
      rw [hread] at h
      cases h
  | ok found =>
      refine Skippable.isJson (skippable_record (fun field hfield depth => ?_) _) hread
      cases List.mem_singleton.1 hfield
      exact (skippable_reader depth).map

/-- The body that the provider documents for a report. -/
def envelope (report : Report) : Json :=
  .object [
    ("type", .text "error"),
    ("error", .object [("type", .text report.errorType), ("message", .text report.message)])]

theorem inBody_envelope (report : Report) : report.InBody report.envelope :=
  .object rfl (.object ⟨rfl, .inl rfl⟩)

theorem read_envelope (report : Report) :
    Json.read (Text.bytes report.envelope.render) = .ok report.envelope :=
  Json.read_render (by simp [envelope, Json.nesting, Fits])

theorem ofBody?_envelope (report : Report) : ofBody? report.envelope.render = some report := by
  rw [ofBody?_of_value report.read_envelope, ofValue?_eq_some]
  exact inBody_envelope report

end Bodies

end Report

/-! ## Statuses -/

/-- The statuses that are documented for the provider's types of errors. -/
def documented : List (String × Nat) := [
  ("invalid_request_error", 400),
  ("authentication_error", 401),
  ("permission_error", 403),
  ("not_found_error", 404),
  ("request_too_large", 413),
  ("rate_limit_error", 429),
  ("api_error", 502),
  ("overloaded_error", 503),
  ("timeout_error", 504)]

/-- The provider's statuses that are passed on: they blame the request, or are 503 or 504. -/
abbrev Relays (own : Nat) : Prop :=
  (400 ≤ own ∧ own < 500) ∨ own = 503 ∨ own = 504

/-- The status for an error without a documented type. -/
def ownStatus (own : Nat) : Nat :=
  if Relays own then own else 502

/-- The status that is documented for an answer of this status with this report in its body. -/
def documentedStatus (own : Nat) (report? : Option Report) : Nat :=
  (report?.bind fun report => documented.lookup report.errorType).getD (ownStatus own)

theorem lookup_documented (errorType : String) : documented.lookup errorType =
    if errorType = "api_error" then some 502 else knownStatus errorType := by
  by_cases hapi : errorType = "api_error"
  · rw [hapi]
    rfl
  · rw [if_neg hapi]
    unfold knownStatus
    split
    case h_9 =>
      rw [List.lookup_eq_none_iff]
      simp_all [documented]
    all_goals rfl

theorem relays_of_knownStatus {errorType : String} {status : Nat}
    (h : knownStatus errorType = some status) : Relays status := by
  unfold knownStatus at h
  split at h <;> cases h <;> decide

theorem ownStatus_range (own : Nat) : Relays (ownStatus own) ∨ ownStatus own = 502 := by
  rw [ownStatus]
  split
  next h => exact .inl h
  next => exact .inr rfl

theorem ownStatus_eq_badGateway {own : Nat} : ownStatus own = 502 ↔ ¬ Relays own := by
  rw [ownStatus]
  split
  next h => exact ⟨fun heq => by omega, fun hnot => absurd h hnot⟩
  next h => exact ⟨fun _ => h, fun _ => rfl⟩

/-- The status that is answered is that of a known type, or it goes by the provider's own. -/
def answeredStatus (own : Nat) (report? : Option Report) : Nat :=
  (report?.bind fun report => knownStatus report.errorType).getD (ownStatus own)

theorem relayedStatus_eq (errorType : String) (own : Nat) :
    relayedStatus errorType own = (knownStatus errorType).getD (ownStatus own) := by
  rw [relayedStatus]
  cases knownStatus errorType <;> rfl

theorem status_ofAnswer (own : Nat) (body : String) :
    (ofAnswer own body).status = answeredStatus own (Report.ofBody? body) := by
  rw [ofAnswer, Report.ofBody?]
  cases Json.Reader.run Report.bodyReader (Text.bytes body) with
  | ok report => exact relayedStatus_eq report.errorType own
  -- A body without a report is answered as an error of a type that is not known.
  | error fault => exact relayedStatus_eq "upstream_error" own

theorem status_ofStreamError (report : Report) :
    (ofStreamError report).status = statusOfType report.errorType := by
  rw [ofStreamError, status, relayedStatus_eq, statusOfType]
  cases knownStatus report.errorType <;> rfl

theorem answeredStatus_range (own : Nat) (report? : Option Report) :
    Relays (answeredStatus own report?) ∨ answeredStatus own report? = 502 := by
  rw [answeredStatus]
  cases hknown : report?.bind fun report => knownStatus report.errorType with
  | none => exact ownStatus_range own
  | some status =>
      obtain ⟨report, -, hstatus⟩ := Option.bind_eq_some_iff.1 hknown
      exact .inl (relays_of_knownStatus hstatus)

/-- Only the type that is not known is answered otherwise than it is documented. -/
theorem answeredStatus_eq (own : Nat) (report? : Option Report) :
    answeredStatus own report? =
      if report?.map Report.errorType = some "api_error" then ownStatus own
      else documentedStatus own report? := by
  cases report? with
  | none => rfl
  | some report =>
      simp only [answeredStatus, documentedStatus, Option.bind_some, Option.map_some,
        Option.some.injEq, lookup_documented]
      by_cases hapi : report.errorType = "api_error"
      · rw [if_pos hapi, hapi]
        rfl
      · rw [if_neg hapi, if_neg hapi]

theorem documentedStatus_of_api_error {report? : Option Report}
    (h : report?.map Report.errorType = some "api_error") (own : Nat) :
    documentedStatus own report? = 502 := by
  obtain ⟨report, rfl, hapi⟩ := Option.map_eq_some_iff.1 h
  rw [documentedStatus, Option.bind_some, hapi]
  rfl

/--
An error of the provider is answered with the status that is documented for the type in its body,
and without a documented type with the provider's own if that is passed on, else with 502; but for
the type `api_error`, which goes by the provider's own.  So the status is the documented one except
for an `api_error` with a status that is passed on, and it is a 4xx, 502, 503 or 504.  An error
inside a stream has the documented status of its type always, which is that of a body with its
report and the status 500.
-/
theorem status_of_upstream_error (own : Nat) (body : String) :
    (∀ whole, Json.read (Text.bytes body) = .ok whole →
      ∀ report, Report.ofBody? body = some report ↔ report.InBody whole) ∧
    (¬ Json.Reader.IsJson (Text.bytes body) → Report.ofBody? body = none) ∧
    (ofAnswer own body).status =
      (if (Report.ofBody? body).map Report.errorType = some "api_error" then ownStatus own
      else documentedStatus own (Report.ofBody? body)) ∧
    ((ofAnswer own body).status = documentedStatus own (Report.ofBody? body) ↔
      ¬ ((Report.ofBody? body).map Report.errorType = some "api_error" ∧ Relays own)) ∧
    (Relays (ofAnswer own body).status ∨ (ofAnswer own body).status = 502) ∧
    ∀ report, (ofStreamError report).status = statusOfType report.errorType ∧
      statusOfType report.errorType = (documented.lookup report.errorType).getD 502 ∧
      Report.ofBody? report.envelope.render = some report ∧
      (Report.ofBody? body = some report →
        (ofAnswer 500 body).status = (ofStreamError report).status) := by
  rw [status_ofAnswer, status_ofAnswer]
  refine ⟨?_, ?_, answeredStatus_eq own _, ?_, answeredStatus_range own _, fun report =>
    ⟨status_ofStreamError report, ?_, Report.ofBody?_envelope report, ?_⟩⟩
  · intro whole hwhole report
    rw [Report.ofBody?_of_value hwhole, Report.ofValue?_eq_some]
  · intro hnone
    cases hread : Report.ofBody? body with
    | none => rfl
    | some report => exact absurd (Report.isJson_of_ofBody? hread) hnone
  · rw [answeredStatus_eq]
    by_cases hapi : (Report.ofBody? body).map Report.errorType = some "api_error"
    · rw [if_pos hapi, documentedStatus_of_api_error hapi, ownStatus_eq_badGateway]
      simp only [hapi, true_and]
    · simp only [hapi, if_false, false_and, not_false_eq_true]
  · rw [statusOfType, lookup_documented]
    split
    next hapi =>
      rw [hapi]
      rfl
    next => rfl
  · intro hread
    rw [hread, status_ofStreamError]
    rfl

/-- A documented body with a status that is not passed on, and a page with one that is. -/
theorem status_of_upstream_error_overloaded :
    let report : Report := ⟨"overloaded_error", "busy"⟩
    let body := report.envelope.render
    Json.read (Text.bytes body) = .ok report.envelope ∧ report.InBody report.envelope ∧
      Report.ofBody? body = some report ∧ (ofAnswer 529 body).status = 503 ∧
      (ofAnswer 500 body).status = (ofStreamError report).status ∧
    ¬ Json.Reader.IsJson (Text.bytes "<html>") ∧ (ofAnswer 429 "<html>").status = 429 := by
  intro report body
  obtain ⟨hvalue, -, hstatus, -, -, hreports⟩ := status_of_upstream_error 529 body
  obtain ⟨-, -, hread, hstream⟩ := hreports report
  have hinside := (hvalue _ report.read_envelope report).1 hread
  have hpage : ¬ Json.Reader.IsJson (Text.bytes "<html>") := by
    unfold Json.Reader.IsJson
    decide +kernel
  obtain ⟨-, hnone, hown, -⟩ := status_of_upstream_error 429 "<html>"
  rw [hread] at hstatus
  rw [hnone hpage] at hown
  exact ⟨report.read_envelope, hinside, hread, hstatus.trans rfl, hstream hread, hpage,
    hown.trans rfl⟩

/-- An `api_error` with the status 429 is answered with 429, where 502 is documented. -/
theorem api_error_keeps_status :
    let body := "\x7b\"type\":\"error\"," ++
      "\"error\":\x7b\"type\":\"api_error\",\"message\":\"m\"\x7d\x7d"
    Report.ofBody? body = some ⟨"api_error", "m"⟩ ∧
      documentedStatus 429 (Report.ofBody? body) = 502 ∧
      (ofAnswer 429 body).status = 429 ∧ (ofStreamError ⟨"api_error", "m"⟩).status = 502 := by
  decide +kernel

end Failure

end ChatGateway
