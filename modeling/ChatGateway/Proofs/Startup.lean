import ChatGateway.Proofs.AtomicSave
import ChatGateway.Proofs.RecordValues
import ChatGateway.Proofs.TypedReading
import ChatGateway.Proofs.Utf8Strict

/-!
# Starting with any file

Whatever text stands in the credential's file, the gateway starts: with the record that the text
holds, or without one.  What is left of a record that lost its end holds none.  A file that is no
text in UTF-8 does keep the gateway from starting, though, and so does one that may not be read.
-/

namespace ChatGateway

namespace Credential

namespace Record

open Json.Reader

/-- A field is stored from a text or from a whole number. -/
theorem take_cases {field : TextField Record} (hfield : field ∈ fields) (depth : Nat) :
    (∃ store : String -> Record -> Record, field.take depth = store <$> text depth) ∨
      ∃ store : UInt64 -> Record -> Record, field.take depth = store <$> uint64 depth := by
  simp only [fields, List.mem_cons, List.not_mem_nil, or_false] at hfield
  rcases hfield with rfl | rfl | rfl | rfl
  · exact .inl ⟨_, rfl⟩
  · exact .inl ⟨_, rfl⟩
  · exact .inl ⟨_, rfl⟩
  · exact .inr ⟨_, rfl⟩

theorem settled_reader (depth : Nat) : Settled True (reader depth) := by
  rw [reader_eq]
  refine settled_record (fun field hfield depth => ?_) _
  rcases take_cases hfield depth with ⟨store, htake⟩ | ⟨store, htake⟩
  · rw [htake]
    exact (settled_text depth).map.weak
  · rw [htake]
    exact (settled_numberAs _ depth).map

/-- A text that is read as a value holds the record that the value holds. -/
theorem read_of_value {content : List UInt8} {whole : Json} (h : Json.read content = .ok whole) :
    (read content).toOption = ofJson? whole := by
  refine Agrees.run ?_ h
  rw [reader_eq]
  refine agrees_record (.cons ?_ (.cons ?_ (.cons ?_ (.cons ?_ .nil)))) _
  · exact ⟨rfl, rfl, (agrees_text _ _).map _⟩
  · exact ⟨rfl, rfl, (agrees_text _ _).map _⟩
  · exact ⟨rfl, rfl, (agrees_text _ _).map _⟩
  · exact ⟨rfl, rfl, (agrees_numberAs _ _ _).map _⟩

/-- A text that holds a record is JSON. -/
theorem isJson_of_read {content : List UInt8} {record : Record}
    (h : read content = .ok record) : IsJson content := by
  refine Skippable.isJson ?_ h
  rw [reader_eq]
  refine skippable_record (fun field hfield depth => ?_) _
  rcases take_cases hfield depth with ⟨store, htake⟩ | ⟨store, htake⟩
  · rw [htake]
    exact (skippable_text depth).map
  · rw [htake]
    exact (skippable_numberAs _ depth).map

/-- Nothing but blanks can be cut off the end of a record. -/
theorem read_cut {part rest : List UInt8} {record found : Record}
    (hwhole : read (part ++ rest) = .ok record) (hpart : read part = .ok found) :
    rest.all isBlank = true ∧ found = record := by
  obtain ⟨hblank, rfl⟩ := run_append (settled_reader _) hpart hwhole
  exact ⟨hblank, rfl⟩

/-- The text of a stored record ends with its bracket. -/
theorem bracket_suffix (record : Record) : [0x7D] <:+ Text.bytes record.render := by
  rw [render, members, Json.bytes_renderLines]
  have hline := List.suffix_append [0x0A] [(0x7D : UInt8)]
  exact ((hline.trans (List.suffix_append _ _)).trans (List.suffix_append _ _)).trans
    (List.suffix_cons _ _)

/-- What is cut off the end of a stored record is not all blank. -/
theorem not_blank_of_cut {part rest : List UInt8} {record : Record}
    (hcut : part ++ rest = Text.bytes record.render) (hrest : rest ≠ []) :
    rest.all isBlank = false := by
  have hbracket : [0x7D] <:+ rest := by
    apply List.suffix_of_suffix_length_le record.bracket_suffix
    · exact ⟨part, hcut⟩
    · exact List.length_pos_iff.2 hrest
  rw [List.all_eq_false]
  exact ⟨0x7D, hbracket.subset List.mem_cons_self, by decide⟩

end Record

namespace Store

variable {store : Store} {disk : Disk} {mode : Nat} {content : List UInt8}

/-- What is read from a file that is a text. -/
theorem load_of_text (text : String) (hroot : disk.Rooted)
    (hfile : disk.entry? store.path = some (.file mode (Text.bytes text)))
    (hreads : ownerReads mode = true) :
    store.load disk = .ok (Record.read (Text.bytes text)).toOption := by
  rw [load, read_of_file hroot hfile, hreads]
  simp only [Text.decode?_bytes, Option.isSome_some, if_true]
  cases Record.read (Text.bytes text) <;> rfl

theorem load_of_no_text (hroot : disk.Rooted)
    (hfile : disk.entry? store.path = some (.file mode content))
    (hreads : ownerReads mode = true) (hnone : ∀ text, content ≠ Text.bytes text) :
    store.load disk = .error (.storage "stream did not contain valid UTF-8") := by
  have hdecode : Text.Utf8.decode? content = none :=
    Option.eq_none_iff_forall_ne_some.2 fun text htext => hnone text (Text.decode?_eq_some.1 htext)
  rw [load, read_of_file hroot hfile, hreads]
  simp [hdecode]

/-- A record is loaded only if it is read from the file. -/
theorem read_of_load {found : Record} (hroot : disk.Rooted)
    (hfile : disk.entry? store.path = some (.file mode content))
    (hload : store.load disk = .ok (some found)) : Record.read content = .ok found := by
  cases hreads : ownerReads mode with
  | false =>
      rw [load_of_denied hroot hfile hreads] at hload
      cases hload
  | true =>
      by_cases htext : ∃ text, content = Text.bytes text
      · obtain ⟨text, rfl⟩ := htext
        rw [load_of_text text hroot hfile hreads] at hload
        cases hread : Record.read (Text.bytes text) <;> rw [hread] at hload <;> cases hload
        rfl
      · rw [load_of_no_text hroot hfile hreads (not_exists.1 htext)] at hload
        cases hload

/--
The gateway starts with whatever text is in the file: with the record that is read from it, which
is the one that the value of the text holds, or without one if the value holds none or the text is
no JSON.  What is left of a record's text without its end is no record, so that the gateway starts
without one if the cut is between two characters.  On bytes that are no text it does not start,
and neither does it on a file that its owner may not read.
-/
theorem opened_on_file (hroot : disk.Rooted)
    (hfile : disk.entry? store.path = some (.file mode content)) :
    (ownerReads mode = true → ∀ text, content = Text.bytes text → ∃ stored traffic,
      store.load disk = .ok stored ∧ stored = (Record.read content).toOption ∧
      (∀ whole, Json.read content = .ok whole →
        ∀ record, stored = some record ↔ record.HeldBy whole) ∧
      (¬ Json.Reader.IsJson content → stored = none) ∧
      Traffic.opened store disk = .ok traffic ∧ traffic.keeper = .initial stored ∧
      traffic.disk = disk ∧
      traffic.keeper.session.state =
        if stored.isSome then .authenticated else .unauthenticated) ∧
    (ownerReads mode = true → ∀ record : Record, content = Text.bytes record.render →
      store.load disk = .ok (some record)) ∧
    (∀ record rest, rest.all Json.Reader.isBlank = false →
      Record.read (content ++ rest) = .ok record → ∀ found, store.load disk ≠ .ok (some found)) ∧
    (∀ (record : Record) rest, rest ≠ [] → content ++ rest = Text.bytes record.render →
      ∀ found, store.load disk ≠ .ok (some found)) ∧
    (ownerReads mode = true → (∀ text, content ≠ Text.bytes text) →
      store.load disk = .error (.storage "stream did not contain valid UTF-8") ∧
      Traffic.opened store disk = .error (.storage "stream did not contain valid UTF-8")) ∧
    (ownerReads mode = false →
      store.load disk = .error (.storage "Permission denied (os error 13)") ∧
      Traffic.opened store disk = .error (.storage "Permission denied (os error 13)")) := by
  have hcut : ∀ record rest, rest.all Json.Reader.isBlank = false →
      Record.read (content ++ rest) = .ok record →
        ∀ found, store.load disk ≠ .ok (some found) := by
    intro record rest hblank hwhole found hload
    have hall := (Record.read_cut hwhole (read_of_load hroot hfile hload)).1
    rw [hblank] at hall
    cases hall
  refine ⟨?_, ?_, hcut, ?_, ?_, ?_⟩
  · rintro hreads text rfl
    have hload := load_of_text text hroot hfile hreads
    refine ⟨_, ⟨.initial _, disk, [], [], []⟩, hload, rfl, ?_, ?_, ?_, rfl, rfl, rfl⟩
    · intro whole hwhole record
      rw [Record.read_of_value hwhole, Record.ofJson?_eq_some]
    · intro hnone
      cases hread : Record.read (Text.bytes text) with
      | error fault => rfl
      | ok record => exact absurd (Record.isJson_of_read hread) hnone
    rw [Traffic.opened, hload]
    rfl
  · intro hreads record hcontent
    rw [hcontent] at hfile
    have hload := load_of_text record.render hroot hfile hreads
    rwa [Record.read_render] at hload
  · intro record rest hrest hwhole
    refine hcut record rest (Record.not_blank_of_cut hwhole hrest) ?_
    rw [hwhole, Record.read_render]
  · intro hreads hnone
    have hload := load_of_no_text hroot hfile hreads hnone
    refine ⟨hload, ?_⟩
    rw [Traffic.opened, hload]
    rfl
  · intro hdenied
    have hload := load_of_denied hroot hfile hdenied
    refine ⟨hload, ?_⟩
    rw [Traffic.opened, hload]
    rfl

/-- A record that lost its last bracket: the gateway starts, without a record. -/
theorem opened_on_file_cut_short :
    let store : Store := ⟨["tokens.json"]⟩
    let record : Record := ⟨"a", "r", "Bearer", 1⟩
    let content := (Text.bytes record.render).dropLast
    let disk : Disk := Disk.empty.put store.path (.file 0o600 content)
    disk.Rooted ∧ disk.entry? store.path = some (.file 0o600 content) ∧
      ∃ traffic, store.load disk = .ok none ∧ Traffic.opened store disk = .ok traffic ∧
        traffic.keeper.session.state = .unauthenticated := by
  intro store record content disk
  have hroot : disk.Rooted := Disk.empty_rooted.put ⟨_, rfl⟩ (.inr nofun)
  have hfile : disk.entry? store.path = some (.file 0o600 content) :=
    Disk.entry?_put_self _ _ (by decide)
  obtain ⟨htext, -, -, hcut, -⟩ := opened_on_file hroot hfile
  have hcontent : content = Text.bytes (String.ofList (record.render.toList.dropLast)) := by
    decide +kernel
  obtain ⟨stored, traffic, hload, -, -, -, hopened, -, -, hstate⟩ :=
    htext (by decide) _ hcontent
  have hnone : stored = none := by
    rw [Option.eq_none_iff_forall_ne_some]
    rintro found rfl
    exact hcut record [0x7D] (by simp) (by decide +kernel) found hload
  rw [hnone] at hload hstate
  exact ⟨hroot, hfile, traffic, hload, hopened, hstate⟩

/-- A byte that is in no text: the file holds no record, but the gateway does not start. -/
theorem unreadable_file_blocks_start :
    let store : Store := ⟨["tokens.json"]⟩
    let disk : Disk := Disk.empty.put store.path (.file 0o600 [0xFF])
    disk.Rooted ∧ (Record.read [0xFF]).toOption = none ∧
      store.load disk = .error (.storage "stream did not contain valid UTF-8") ∧
      Traffic.opened store disk = .error (.storage "stream did not contain valid UTF-8") := by
  intro store disk
  exact ⟨Disk.empty_rooted.put ⟨_, rfl⟩ (.inr nofun), by decide +kernel, by decide +kernel, rfl⟩

end Store

end Credential

end ChatGateway
