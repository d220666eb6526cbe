import ChatGateway.Proofs.JsonRecords
import ChatGateway.Proofs.StoredFile

/-!
# The stored record

A record that was saved is the one that is loaded.  What is loaded depends on the entry at the
store's path alone, as long as no file stands in the way to it; no operation of the store puts
one there.
-/

namespace ChatGateway

namespace Json

open Reader
open Text (Utf8.encode Utf8.encode_append Utf8.encode_cons)

/-! ## Objects with one member a line -/

/-- What stands before a member that has its own line. -/
def lineGap : List UInt8 := [0x0A, 0x20, 0x20]

theorem lineGap_blank : AllBlank lineGap := by
  intro byte hbyte
  simp only [lineGap, List.mem_cons, List.not_mem_nil, or_false] at hbyte
  rcases hbyte with rfl | rfl | rfl <;> decide

/-- The bytes of a member on its line. -/
def lineBytes (member : String × Json) : List UInt8 :=
  Utf8.encode (quote member.1) ++ 0x3A :: 0x20 :: Utf8.encode member.2.write

theorem separated_front (front piece : List UInt8) (pieces : List (List UInt8)) :
    separated ((front ++ piece) :: pieces) = front ++ separated (piece :: pieces) := by
  cases pieces <;> simp [separated]

theorem encode_line (member : String × Json) :
    Utf8.encode (' ' :: ' ' :: (quote member.1 ++ ':' :: ' ' :: member.2.write)) =
      0x20 :: 0x20 :: lineBytes member := by
  have hblank : Text.Utf8.encodeChar ' ' = [0x20] := by decide
  have hcolon : Text.Utf8.encodeChar ':' = [0x3A] := by decide
  simp only [Utf8.encode_cons, Utf8.encode_append, hblank, hcolon, lineBytes]
  rfl

theorem bytes_renderLines (member : String × Json) (more : List (String × Json)) :
    Text.bytes (renderLines (member :: more)) = 0x7B :: (lineGap ++
      (separated (lineBytes member :: more.map fun member => lineGap ++ lineBytes member) ++
        ([0x0A] ++ [0x7D]))) := by
  have hlines : ∀ member more, Utf8.encode ((((member :: more).map fun member =>
      String.ofList (' ' :: ' ' :: (quote member.1 ++ ':' :: ' ' :: member.2.write))).intersperse
        ",\n").foldr (· ++ ·) "").toList =
      0x20 :: 0x20 ::
        separated (lineBytes member :: more.map fun member => lineGap ++ lineBytes member) := by
    intro member more
    induction more generalizing member with
    | nil =>
        show _ = 0x20 :: 0x20 :: lineBytes member
        rw [← encode_line member]
        simp
    | cons next more ih =>
        have hcomma : Utf8.encode ",\n".toList = [0x2C, 0x0A] := by decide
        have hrest := ih next
        rw [List.map_cons] at hrest
        rw [List.map_cons, List.map_cons, List.intersperse_cons_cons, List.foldr_cons,
          List.foldr_cons, String.toList_append, String.toList_append, Utf8.encode_append,
          Utf8.encode_append, hrest, String.toList_ofList, encode_line, hcomma, List.map_cons,
          separated, separated_front]
        simp [lineGap]
  have hopen : Utf8.encode "\x7b\n".toList = [0x7B, 0x0A] := by decide
  have hclose : Utf8.encode "\n\x7d".toList = [0x0A, 0x7D] := by decide
  rw [Text.bytes, renderLines]
  simp only [String.toList_append, Utf8.encode_append, hlines, hopen, hclose]
  simp [lineGap]

end Json

namespace Credential

open Json.Reader

namespace Record

/-- The fields of a record, in the order of its text. -/
def fields : List (TextField Record) := [
  .required "access_token" text fun accessToken record => { record with accessToken },
  .required "refresh_token" text fun refreshToken record => { record with refreshToken },
  .defaulted "token_type" text fun tokenType record => { record with tokenType },
  .required "expires_at" uint64 fun expiresAt record => { record with expiresAt }]

theorem reader_eq : reader = Json.Reader.record fields ⟨"", "", defaultTokenType, 0⟩ := rfl

theorem fields_nodup : (fields.map Json.Field.name).Nodup := by
  simp [fields]

/-- The members on their lines fill the fields one after another. -/
theorem folds_lines (record : Record) :
    ∃ seen, Json.Reader.complete fields seen = true ∧
      Folds (member fields 126) ([], ⟨"", "", defaultTokenType, 0⟩)
        (Json.lineBytes ("access_token", .text record.accessToken) ::
          [("refresh_token", .text record.refreshToken), ("token_type", .text record.tokenType),
            ("expires_at", .nat record.expiresAt.toNat)].map
              fun member => Json.lineGap ++ Json.lineBytes member)
        (seen, record) := by
  have hgap : AllBlank [0x20] := by
    intro byte hbyte
    rw [List.mem_singleton.1 hbyte]
    decide
  have hline := Json.lineGap_blank
  have htext := text_takes 126 hgap
  have htime : TakesOff (uint64 126)
      ([0x20] ++ Text.Utf8.encode (Json.writeNumber (.int record.expiresAt.toNat)))
      record.expiresAt :=
    numberAs_takes 126 hgap (isWhole_uint64 record.expiresAt) (Json.uint64?_nat record.expiresAt)
  have haccess : TakesOff (member fields 126 ([], ⟨"", "", defaultTokenType, 0⟩)) _ _ :=
    member_takes (.head _) fields_nodup (by simp) allBlank_nil ((htext record.accessToken).map _)
  have hrefresh : TakesOff (member fields 126
      (["access_token"], ⟨record.accessToken, "", defaultTokenType, 0⟩)) _ _ :=
    member_takes (.tail _ (.head _)) fields_nodup (by simp) hline
      ((htext record.refreshToken).map _)
  have hkind : TakesOff (member fields 126 (["refresh_token", "access_token"],
      ⟨record.accessToken, record.refreshToken, defaultTokenType, 0⟩)) _ _ :=
    member_takes (.tail _ (.tail _ (.head _))) fields_nodup
      (by simp) hline ((htext record.tokenType).map _)
  have hexpires : TakesOff (member fields 126 (["token_type", "refresh_token", "access_token"],
      ⟨record.accessToken, record.refreshToken, record.tokenType, 0⟩)) _ _ :=
    member_takes (.tail _ (.tail _ (.tail _ (.head _)))) fields_nodup
      (by simp) hline (htime.map _)
  exact ⟨_, by decide, .cons haccess (.cons hrefresh (.cons hkind (.cons hexpires (.nil _))))⟩

/-- The text of a stored record reads back as the record. -/
theorem read_render (record : Record) : read (Text.bytes record.render) = .ok record := by
  obtain ⟨seen, hcomplete, hfolds⟩ := folds_lines record
  have hnewline : AllBlank [0x0A] := by
    intro byte hbyte
    rw [List.mem_singleton.1 hbyte]
    decide
  have hopens : Opens 0x7D (Json.lineBytes ("access_token", .text record.accessToken)) := by
    rw [Json.lineBytes, encode_quote]
    exact ⟨quoteMark, _, rfl, by decide, by decide⟩
  rw [read, reader_eq, render, members, Json.bytes_renderLines]
  apply TakesOff.run
  apply record_of_items _ hcomplete
  intro rest
  rw [List.append_assoc, List.append_assoc, List.append_assoc]
  apply items_of_folds (.inr rfl) Json.lineGap_blank hnewline rest hfolds hopens
  intro piece hpiece
  obtain ⟨member, -, rfl⟩ := List.mem_map.1 hpiece
  exact List.append_ne_nil_of_left_ne_nil (List.cons_ne_nil _ _) _

end Record

end Credential

namespace Disk

variable {disk after : Disk} {path other above : Path} {entry : Entry} {mode : Nat}
  {names : List String}

/-! ## The way to a path -/

/-- No file stands on the way to the path. -/
def Passable (disk : Disk) (path : Path) : Prop :=
  ∀ above below mode content, above ++ below = path → below ≠ [] →
    disk.entry? above ≠ some (.file mode content)

/-- Going down fails where nothing is, or where a file is. -/
theorem reach_eq_error {fault : Fault} (h : disk.reach above names = .error fault) :
    fault = .missing ∨ fault = .notDirectory ∧
      ∃ front back mode content, front ++ back = names ∧
        disk.entry? (above ++ front) = some (.file mode content) := by
  induction names generalizing above with
  | nil =>
      rw [reach] at h
      cases hentry : disk.entry? above with
      | none => simp_all
      | some entry =>
          cases entry with
          | directory => simp_all
          | file mode content =>
              rw [hentry] at h
              cases h
              exact .inr ⟨rfl, [], [], mode, content, rfl, by rw [List.append_nil, hentry]⟩
  | cons name rest ih =>
      rw [reach] at h
      cases hentry : disk.entry? above with
      | none => simp_all
      | some entry =>
          rw [hentry] at h
          cases entry with
          | file mode content =>
              cases h
              exact .inr ⟨rfl, [], name :: rest, mode, content, rfl,
                by rw [List.append_nil, hentry]⟩
          | directory =>
              rcases ih h with hfault | ⟨hfault, front, back, mode, content, hnames, hfile⟩
              · exact .inl hfault
              · rw [List.append_assoc, List.singleton_append] at hfile
                exact .inr ⟨hfault, name :: front, back, mode, content,
                  by rw [List.cons_append, hnames], hfile⟩

/-- In a tree nothing is below a path where nothing is. -/
theorem Rooted.entry?_below (h : disk.Rooted) (habove : disk.entry? above = none)
    (below : List String) : disk.entry? (above ++ below) = none := by
  induction below using List.reverseRecOn with
  | nil => rwa [List.append_nil]
  | append_singleton below name ih =>
      cases hentry : disk.entry? (above ++ (below ++ [name])) with
      | none => rfl
      | some entry =>
          rw [← List.append_assoc] at hentry
          obtain ⟨mode, hparent⟩ := h _ _ _ hentry
          rw [ih] at hparent
          cases hparent

/-- A file on the way down is what stops it. -/
theorem Rooted.reach_of_file (h : disk.Rooted) {front back : List String}
    {content : List UInt8} (hnames : front ++ back = names)
    (hfile : disk.entry? (above ++ front) = some (.file mode content)) :
    disk.reach above names = .error .notDirectory := by
  induction front generalizing above names with
  | nil =>
      rw [List.append_nil] at hfile
      cases names <;> rw [Disk.reach, hfile]
  | cons name front ih =>
      rw [← hnames, List.cons_append, Disk.reach]
      have hbelow : disk.entry? (above ++ [name] ++ front) = some (.file mode content) := by
        rwa [List.append_assoc, List.singleton_append]
      cases hentry : disk.entry? above with
      | none =>
          rw [h.entry?_below hentry] at hfile
          cases hfile
      | some entry =>
          cases entry with
          | file => rfl
          | directory => exact ih rfl hbelow

theorem Rooted.passable (h : disk.Rooted) (hfind : disk.find path ≠ .error .notDirectory) :
    disk.Passable path := by
  intro above below mode content hpath hbelow hfile
  apply hfind
  have hparent : above ++ below.dropLast = path.dropLast := by
    rw [← hpath, List.dropLast_append_of_ne_nil hbelow]
  have hreach : disk.reachParent path = .error .notDirectory :=
    h.reach_of_file hparent (by rwa [List.nil_append])
  rw [find, hreach]
  rfl

/-- In a tree what is there is found. -/
theorem Rooted.find_of_entry? (h : disk.Rooted) (hentry : disk.entry? path = some entry) :
    disk.find path = .ok entry := by
  rw [find, h.reachParent hentry, hentry]
  rfl

/-- With a free way, what is found at a path is what is there. -/
theorem Rooted.find_eq (h : disk.Rooted) (hpass : disk.Passable path) :
    disk.find path = (disk.entry? path).elim (.error .missing) .ok := by
  cases hentry : disk.entry? path with
  | some entry =>
      rw [h.find_of_entry? hentry]
      rfl
  | none =>
      rw [find, hentry]
      cases hreach : disk.reachParent path with
      | ok => rfl
      | error fault =>
          rcases reach_eq_error hreach with rfl | ⟨-, front, back, mode, content, hnames, hfile⟩
          · rfl
          · have hpath : path ≠ [] := by
              rintro rfl
              cases hreach
            have hway : front ++ (back ++ [path.getLast hpath]) = path := by
              rw [← List.append_assoc, hnames, List.dropLast_concat_getLast]
            exact (hpass front _ mode content hway (by simp) hfile).elim

theorem Passable.put (h : disk.Passable path)
    (hentry : (∃ mode, entry = .directory mode) ∨ ∀ below, below ≠ [] → other ++ below ≠ path) :
    (disk.put other entry).Passable path := by
  intro above below mode content hpath hbelow hfile
  by_cases hsame : above = other
  · subst hsame
    rcases hentry with ⟨mode', rfl⟩ | hway
    · cases above with
      | nil => cases hfile
      | cons name rest =>
          rw [entry?_put_self _ _ (List.cons_ne_nil _ _)] at hfile
          cases hfile
    · exact hway below hbelow hpath
  · rw [entry?_put_of_ne _ _ hsame] at hfile
    exact h above below mode content hpath hbelow hfile

theorem Passable.erase (h : disk.Passable path) (other : Path) :
    (disk.erase other).Passable path := by
  intro above below mode content hpath hbelow hfile
  by_cases hsame : above = other
  · subst hsame
    cases above with
    | nil => cases hfile
    | cons name rest =>
        rw [entry?_erase_self _ (List.cons_ne_nil _ _)] at hfile
        cases hfile
  · rw [entry?_erase_of_ne _ hsame] at hfile
    exact h above below mode content hpath hbelow hfile

theorem Passable.makeBelow (h : disk.Passable path)
    (hmake : disk.makeBelow mode above names = .ok after) : after.Passable path := by
  induction names generalizing disk above with
  | nil =>
      cases hmake
      exact h
  | cons name rest ih =>
      cases hentry : disk.entry? (above ++ [name]) with
      | none =>
          simp only [Disk.makeBelow, hentry] at hmake
          exact ih (h.put (.inl ⟨mode, rfl⟩)) hmake
      | some entry =>
          cases entry with
          | file => simp [Disk.makeBelow, hentry] at hmake
          | directory =>
              simp only [Disk.makeBelow, hentry] at hmake
              exact ih h hmake

end Disk

namespace Credential

namespace Store

variable {store : Store} {disk other after : Disk} {record : Record} {mishap : Option Mishap}

/-! ## What saving and removing do to what is loaded -/

/-- What each successful step of saving keeps, and giving up, holds after any steps. -/
theorem saveSteps_induction {P : Disk → Prop} (store : Store) (record : Record)
    (hstep : ∀ disk step after, P disk → store.saveStep record disk step = .ok after → P after)
    (habandon : ∀ disk step, P disk → P (store.abandon disk step)) (steps : List SaveStep)
    (h : P disk) : P (store.saveSteps record disk steps).1 := by
  induction steps generalizing disk with
  | nil => exact h
  | cons step rest ih =>
      rw [saveSteps]
      cases hsaved : store.saveStep record disk step with
      | ok after => exact ih (hstep disk step after h hsaved)
      | error fault => exact habandon disk step h

/-- What each successful step of saving keeps, and giving up, holds after every save. -/
theorem saveAmid_induction {P : Disk → Prop} (store : Store) (record : Record)
    (hstep : ∀ disk step after, P disk → store.saveStep record disk step = .ok after → P after)
    (habandon : ∀ disk step, P disk → P (store.abandon disk step)) (h : P disk)
    (mishap : Option Mishap) : P (store.saveAmid record disk mishap).1 := by
  have hsteps := fun steps => saveSteps_induction store record hstep habandon steps h
  cases mishap with
  | none => exact hsteps SaveStep.all
  | some mishap =>
      have hbefore := hsteps (SaveStep.all.takeWhile (· ≠ mishap.step))
      rw [saveAmid]
      rcases houtcome : store.saveSteps record disk (SaveStep.all.takeWhile (· ≠ mishap.step)) with
        ⟨after, fault | done⟩
      · rw [houtcome] at hbefore
        exact hbefore
      · rw [houtcome] at hbefore
        exact habandon after mishap.step hbefore

theorem length_draft (store : Store) : store.draft.length = store.path.length := by
  rcases List.eq_nil_or_concat store.path with hpath | ⟨parent, name, hpath⟩
  · simp [draft, hpath]
  · simp [draft, hpath]

theorem draft_append_ne {below : List String} (h : below ≠ []) :
    store.draft ++ below ≠ store.path := by
  intro heq
  have hlength := congrArg List.length heq
  have hpos := List.length_pos_iff.2 h
  rw [List.length_append, length_draft] at hlength
  omega

theorem saveStep_passable {step : SaveStep} (h : disk.Passable store.path)
    (hstep : store.saveStep record disk step = .ok after) : after.Passable store.path := by
  cases step with
  | makeParent =>
      simp only [saveStep, makeParent] at hstep
      cases hfind : disk.find store.path.dropLast with
      | ok entry =>
          rw [hfind] at hstep
          cases hstep
          exact h
      | error fault =>
          rw [hfind] at hstep
          cases fault with
          | missing => exact h.makeBelow hstep
          | occupied | notDirectory | isDirectory | denied => cases hstep
  | openDraft =>
      obtain ⟨-, -, -, rfl⟩ := Disk.openEmpty_ok hstep
      exact h.put (.inr fun below => draft_append_ne)
  | writeDraft =>
      obtain ⟨-, mode, held, -, rfl⟩ := Disk.write_ok hstep
      exact h.put (.inr fun below => draft_append_ne)
  | replace =>
      obtain ⟨-, -, mode, content, -, rfl⟩ := Disk.renameFile_ok hstep
      exact (h.erase store.draft).put (.inr fun below hbelow heq =>
        hbelow (List.append_right_eq_self.1 heq))

theorem abandon_passable (h : disk.Passable store.path) (step : SaveStep) :
    (store.abandon disk step).Passable store.path := by
  cases step with
  | replace =>
      unfold abandon
      cases hremove : disk.removeFile store.draft with
      | error fault => exact h
      | ok after =>
          obtain ⟨-, rfl⟩ := Disk.removeFile_ok hremove
          exact h.erase store.draft
  | makeParent | openDraft | writeDraft => exact h

/-- The record can be looked for: the disk is a tree with a free way to the store's path. -/
structure Usable (store : Store) (disk : Disk) : Prop where
  path : store.path ≠ []
  rooted : disk.Rooted
  passable : disk.Passable store.path

theorem usable_of_load {stored : Option Record} (hroot : disk.Rooted)
    (h : store.load disk = .ok stored) : store.Usable disk := by
  refine ⟨?_, hroot, hroot.passable ?_⟩
  · intro hpath
    simp [load, Disk.read, Disk.find, Disk.reachParent, Disk.reach, Disk.entry?, hpath, bind,
      Except.bind] at h
  · intro hfind
    simp [load, Disk.read, hfind, bind, Except.bind] at h

/-- What is loaded depends on the entry at the store's path alone. -/
theorem Usable.load_congr (h : store.Usable disk) (hother : store.Usable other)
    (hentry : disk.entry? store.path = other.entry? store.path) :
    store.load disk = store.load other := by
  have hfind : disk.find store.path = other.find store.path := by
    rw [h.rooted.find_eq h.passable, hother.rooted.find_eq hother.passable, hentry]
  have hread : disk.read store.path = other.read store.path := by
    rw [Disk.read, Disk.read, hfind]
  rw [load, load, hread]

theorem Usable.load_of_absent (h : store.Usable disk) (habsent : disk.entry? store.path = none) :
    store.load disk = .ok none := by
  have hfind := h.rooted.find_eq h.passable
  rw [habsent] at hfind
  simp [load, Disk.read, hfind, bind, Except.bind]

theorem read_of_file {mode : Nat} {content : List UInt8} (hroot : disk.Rooted)
    (hfile : disk.entry? store.path = some (.file mode content)) :
    disk.read store.path = if ownerReads mode then .ok content else .error .denied := by
  rw [Disk.read, hroot.find_of_entry? hfile]
  rfl

theorem load_of_render {mode : Nat} (hroot : disk.Rooted)
    (hfile : disk.entry? store.path = some (.file mode (Text.bytes record.render)))
    (hreads : ownerReads mode = true) : store.load disk = .ok (some record) := by
  rw [load, read_of_file hroot hfile, hreads]
  simp [Text.decode?_bytes, Record.read_render]

/-- A file that its owner may not read is not loaded, whatever is in it. -/
theorem load_of_denied {mode : Nat} {content : List UInt8} (hroot : disk.Rooted)
    (hfile : disk.entry? store.path = some (.file mode content))
    (hdenied : ownerReads mode = false) : store.load disk = .error (failure .denied) := by
  rw [load, read_of_file hroot hfile, hdenied]
  rfl

theorem Usable.saveAmid (h : store.Usable disk) (record : Record) (mishap : Option Mishap) :
    store.Usable (store.saveAmid record disk mishap).1 where
  path := h.path
  rooted := (store.saveAmid_rooted record h.rooted mishap).1
  passable := saveAmid_induction store record (fun _ _ _ => saveStep_passable)
    (fun _ step hpass => abandon_passable hpass step) h.passable mishap

theorem Usable.clearAmid (h : store.Usable disk) (mishap : Option Mishap) :
    store.Usable (store.clearAmid disk mishap).1 := by
  refine ⟨h.path, (store.clearAmid_rooted h.rooted mishap).1, ?_⟩
  cases mishap with
  | some mishap => exact h.passable
  | none =>
      rw [Store.clearAmid, clear]
      cases hremove : disk.removeFile store.path with
      | ok after =>
          obtain ⟨-, rfl⟩ := Disk.removeFile_ok hremove
          exact h.passable.erase store.path
      | error fault => cases fault <;> exact h.passable

theorem saveSteps_cons_ok {step : SaveStep} {rest : List SaveStep}
    (h : (store.saveSteps record disk (step :: rest)).2 = .ok ()) :
    ∃ after, store.saveStep record disk step = .ok after ∧
      store.saveSteps record disk (step :: rest) = store.saveSteps record after rest := by
  rw [saveSteps] at h ⊢
  cases hstep : store.saveStep record disk step with
  | error fault =>
      rw [hstep] at h
      cases h
  | ok after => exact ⟨after, rfl, rfl⟩

/-- A save that succeeds takes all of its steps. -/
theorem saveSteps_all_ok (h : (store.saveSteps record disk SaveStep.all).2 = .ok ()) :
    ∃ made opened written,
      store.makeParent disk = .ok made ∧ made.openEmpty fileMode store.draft = .ok opened ∧
        opened.write store.draft (Text.bytes record.render) = .ok written ∧
          written.renameFile store.draft store.path =
            .ok (store.saveSteps record disk SaveStep.all).1 := by
  obtain ⟨made, hmake, hmade⟩ := saveSteps_cons_ok h
  rw [SaveStep.all, hmade] at h ⊢
  obtain ⟨opened, hopen, hopened⟩ := saveSteps_cons_ok h
  rw [hopened] at h ⊢
  obtain ⟨written, hwrite, hwritten⟩ := saveSteps_cons_ok h
  rw [hwritten] at h ⊢
  obtain ⟨replaced, hreplace, hreplaced⟩ := saveSteps_cons_ok h
  rw [hreplaced]
  exact ⟨made, opened, written, hmake, hopen, hwrite, hreplace⟩

theorem save_ok_iff :
    (store.save record disk).2 = .ok () ↔
      (store.saveSteps record disk SaveStep.all).2 = .ok () := by
  show (store.saveSteps record disk SaveStep.all).2.mapError failure = .ok () ↔ _
  cases (store.saveSteps record disk SaveStep.all).2 <;> simp [Except.mapError]

theorem draft_ne_nil (hpath : store.path ≠ []) : store.draft ≠ [] := by
  rw [← List.length_pos_iff, length_draft, List.length_pos_iff]
  exact hpath

/--
What a save that succeeds does to the disk.  The permissions of a draft that was left behind stay
with it, and so they come to the file.
-/
theorem save_eq_put (hroot : disk.Rooted) (hpath : store.path ≠ [])
    (hok : (store.save record disk).2 = .ok ()) :
    let file := Entry.file (disk.fileModeOr store.draft fileMode) (Text.bytes record.render)
    ∃ made opened, store.makeParent disk = .ok made ∧
      (store.save record disk).1 =
        (((made.put store.draft opened).put store.draft file).erase store.draft).put
          store.path file := by
  obtain ⟨made, opened, written, hmake, hopen, hwrite, hreplace⟩ :=
    saveSteps_all_ok (save_ok_iff.1 hok)
  have hdraft := draft_ne_nil hpath
  -- the draft is too deep to be one of the directories
  have hheld : made.fileModeOr store.draft fileMode = disk.fileModeOr store.draft fileMode := by
    rw [Disk.fileModeOr, (makeParent_ok hroot hmake).2 hpath store.draft (length_draft store)]
    rfl
  obtain ⟨-, -, -, rfl⟩ := Disk.openEmpty_ok hopen
  rw [hheld] at hwrite
  obtain ⟨-, mode, held, hentry, rfl⟩ := Disk.write_ok hwrite
  rw [Disk.entry?_put_self _ _ hdraft] at hentry
  cases hentry
  obtain ⟨-, -, mode, content, hentry, hsaved⟩ := Disk.renameFile_ok hreplace
  rw [Disk.entry?_put_self _ _ hdraft] at hentry
  cases hentry
  exact ⟨made, _, hmake, hsaved⟩

/-- A save that succeeds puts the text of the record into the file, and no draft is left. -/
theorem entry?_save (hroot : disk.Rooted) (hpath : store.path ≠ [])
    (hok : (store.save record disk).2 = .ok ()) :
    Disk.entry? (store.save record disk).1 store.path =
        some (.file (disk.fileModeOr store.draft fileMode) (Text.bytes record.render)) ∧
      Disk.entry? (store.save record disk).1 store.draft = none := by
  obtain ⟨made, opened, -, hsaved⟩ := save_eq_put hroot hpath hok
  rw [hsaved]
  refine ⟨Disk.entry?_put_self _ _ hpath, ?_⟩
  rw [Disk.entry?_put_of_ne _ _ (draft_ne hpath), Disk.entry?_erase_self _ (draft_ne_nil hpath)]

theorem entry?_saveAmid (hroot : disk.Rooted) (hpath : store.path ≠ [])
    (hok : (store.saveAmid record disk mishap).2 = .ok ()) :
    Disk.entry? (store.saveAmid record disk mishap).1 store.path =
      some (.file (disk.fileModeOr store.draft fileMode) (Text.bytes record.render)) := by
  cases mishap with
  | none => exact (entry?_save hroot hpath hok).1
  | some mishap =>
      rw [saveAmid] at hok
      rcases houtcome : store.saveSteps record disk (SaveStep.all.takeWhile (· ≠ mishap.step)) with
        ⟨after, fault | done⟩ <;>
        · rw [houtcome] at hok
          cases hok

/-! ## Drafts that were left behind -/

/-- A draft that is there, if any, may be read by its owner, like all that a save makes. -/
def DraftReadable (store : Store) (disk : Disk) : Prop :=
  ∀ mode content, disk.entry? store.draft = some (.file mode content) → ownerReads mode = true

theorem DraftReadable.mode (h : store.DraftReadable disk) :
    ownerReads (disk.fileModeOr store.draft fileMode) = true := by
  have hmade : ownerReads fileMode = true := by decide
  rw [Disk.fileModeOr]
  cases hdraft : disk.entry? store.draft with
  | none => exact hmade
  | some entry =>
      cases entry with
      | file mode content => exact h mode content hdraft
      | directory => exact hmade

theorem draftReadable_of_absent (habsent : disk.entry? store.draft = none) :
    store.DraftReadable disk := by
  intro mode content hdraft
  rw [habsent] at hdraft
  cases hdraft

theorem DraftReadable.put (hpath : store.path ≠ []) {mode : Nat} (hreads : ownerReads mode = true)
    (content : List UInt8) (disk : Disk) :
    store.DraftReadable (disk.put store.draft (.file mode content)) := by
  intro mode' content' hdraft
  rw [Disk.entry?_put_self _ _ (draft_ne_nil hpath)] at hdraft
  cases hdraft
  exact hreads

theorem DraftReadable.saveStep {step : SaveStep} (h : store.DraftReadable disk)
    (hroot : disk.Rooted) (hpath : store.path ≠ [])
    (hstep : store.saveStep record disk step = .ok after) : store.DraftReadable after := by
  cases step with
  | makeParent =>
      rw [DraftReadable, (makeParent_ok hroot hstep).2 hpath store.draft (length_draft store)]
      exact h
  | openDraft =>
      obtain ⟨-, -, -, rfl⟩ := Disk.openEmpty_ok hstep
      exact .put hpath h.mode [] disk
  | writeDraft =>
      obtain ⟨-, mode, held, hheld, rfl⟩ := Disk.write_ok hstep
      exact .put hpath (h mode held hheld) _ disk
  | replace =>
      obtain ⟨-, -, mode, content, -, rfl⟩ := Disk.renameFile_ok hstep
      apply draftReadable_of_absent
      rw [Disk.entry?_put_of_ne _ _ (draft_ne hpath),
        Disk.entry?_erase_self _ (draft_ne_nil hpath)]

theorem DraftReadable.erase (h : store.DraftReadable disk) (hpath : store.path ≠ [])
    (path : Path) : store.DraftReadable (disk.erase path) := by
  by_cases hsame : store.draft = path
  · subst hsame
    exact draftReadable_of_absent (Disk.entry?_erase_self disk (draft_ne_nil hpath))
  · rw [DraftReadable, Disk.entry?_erase_of_ne _ hsame]
    exact h

theorem DraftReadable.abandon (h : store.DraftReadable disk) (hpath : store.path ≠ [])
    (step : SaveStep) : store.DraftReadable (store.abandon disk step) := by
  cases step with
  | replace =>
      unfold Store.abandon
      cases hremove : disk.removeFile store.draft with
      | error fault => exact h
      | ok after =>
          obtain ⟨-, rfl⟩ := Disk.removeFile_ok hremove
          exact h.erase hpath store.draft
  | makeParent | openDraft | writeDraft => exact h

/-- No save leaves a draft behind that its owner may not read. -/
theorem DraftReadable.saveAmid (h : store.DraftReadable disk) (hroot : disk.Rooted)
    (hpath : store.path ≠ []) (record : Record) (mishap : Option Mishap) :
    store.DraftReadable (store.saveAmid record disk mishap).1 :=
  (saveAmid_induction (P := fun disk => disk.Rooted ∧ store.DraftReadable disk) store record
    (fun _ _ _ hbefore hstep =>
      ⟨(saveStep_ok hbefore.1 hstep).1, hbefore.2.saveStep hbefore.1 hpath hstep⟩)
    (fun _ step hbefore =>
      ⟨(store.abandon_rooted hbefore.1 step).1, hbefore.2.abandon hpath step⟩)
    ⟨hroot, h⟩ mishap).2

theorem DraftReadable.clearAmid (h : store.DraftReadable disk) (hpath : store.path ≠ [])
    (mishap : Option Mishap) : store.DraftReadable (store.clearAmid disk mishap).1 := by
  cases mishap with
  | some mishap => exact h
  | none =>
      rw [Store.clearAmid, clear]
      cases hremove : disk.removeFile store.path with
      | ok after =>
          obtain ⟨-, rfl⟩ := Disk.removeFile_ok hremove
          exact h.erase hpath store.path
      | error fault => cases fault <;> exact h

/-- A saved record is the one that is loaded, unless a draft was left behind for nobody to read. -/
theorem Usable.load_saveAmid (h : store.Usable disk) (hdraft : store.DraftReadable disk)
    (hok : (store.saveAmid record disk mishap).2 = .ok ()) :
    store.load (store.saveAmid record disk mishap).1 = .ok (some record) :=
  load_of_render (h.saveAmid record mishap).rooted (entry?_saveAmid h.rooted h.path hok)
    hdraft.mode

theorem Usable.load_saveAmid_of_ne (h : store.Usable disk)
    (hfails : (store.saveAmid record disk mishap).2 ≠ .ok ()) :
    store.load (store.saveAmid record disk mishap).1 = store.load disk :=
  (h.saveAmid record mishap).load_congr h
    ((store.saveAmid_rooted record h.rooted mishap).2 h.path hfails)

/-- After a removal that succeeds nothing is loaded. -/
theorem Usable.load_clearAmid (h : store.Usable disk)
    (hok : (store.clearAmid disk mishap).2 = .ok ()) :
    store.load (store.clearAmid disk mishap).1 = .ok none :=
  (h.clearAmid mishap).load_of_absent ((store.clearAmid_rooted h.rooted mishap).2.1 hok).2

theorem clearAmid_of_ne (hfails : (store.clearAmid disk mishap).2 ≠ .ok ()) :
    (store.clearAmid disk mishap).1 = disk := by
  cases mishap with
  | some mishap => rfl
  | none =>
      rw [clearAmid, clear] at hfails ⊢
      cases hremove : disk.removeFile store.path with
      | ok after =>
          rw [hremove] at hfails
          exact (hfails rfl).elim
      | error fault => cases fault <;> rfl

end Store

end Credential

end ChatGateway
