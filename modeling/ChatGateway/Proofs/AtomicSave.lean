import ChatGateway.Proofs.StoredRecord

/-!
# Saving as a whole

A save takes effect with its last step or not at all.  On any disk that is a tree it succeeds
exactly if neither a file stands on the way to the store's path nor a directory in the place of
the file or of the draft, and a draft that was left behind may be written to.  Whatever stops it,
before the file is replaced the same is loaded as ever, and after that the new record.

There is one exception.  A draft that was left behind keeps its permissions, and if they do not
let its owner read it, the record that was saved through it cannot be loaded.
-/

namespace ChatGateway

namespace Disk

variable {disk after : Disk} {path other above : Path} {names : List String} {mode : Nat}
  {content : List UInt8}

/-! ## The way to a path -/

/-- With a file on the way nothing can be put at the path. -/
theorem Rooted.reachParent_ne_ok (h : disk.Rooted) (hblocked : ¬ disk.Passable path) :
    disk.reachParent path ≠ .ok () := by
  intro hreach
  apply hblocked
  apply h.passable
  rw [find, hreach]
  intro hfind
  cases hentry : disk.entry? path <;> rw [hentry] at hfind <;> cases hfind

theorem Passable.dropLast (h : disk.Passable path) : disk.Passable path.dropLast := by
  intro above below mode content hpath hbelow
  rcases List.eq_nil_or_concat path with rfl | ⟨parent, name, rfl⟩
  · simp_all
  · rw [List.concat_eq_append, List.dropLast_concat] at hpath
    refine h above (below ++ [name]) mode content ?_ (by simp)
    rw [← List.append_assoc, hpath, List.concat_eq_append]

/-- Where the directory of a path is not there, neither is a file on the way to the path. -/
theorem Rooted.passable_of_missing (h : disk.Rooted)
    (hmissing : disk.find path.dropLast = .error .missing) : disk.Passable path := by
  have habsent := h.entry?_of_find_error hmissing
  have hparent : disk.Passable path.dropLast := h.passable (by rw [hmissing]; exact nofun)
  intro above below mode content hpath hbelow hfile
  have hfront : above ++ below.dropLast = path.dropLast := by
    rw [← hpath, List.dropLast_append_of_ne_nil hbelow]
  by_cases hlast : below.dropLast = []
  · rw [hlast, List.append_nil] at hfront
    rw [hfront, habsent] at hfile
    cases hfile
  · exact hparent above below.dropLast mode content hfront hlast hfile

/-! ## Operations that succeed -/

theorem openEmpty_of_reachParent (mode : Nat) (hreach : disk.reachParent path = .ok ())
    (hnot : ∀ mode, disk.entry? path ≠ some (.directory mode))
    (hwrites : ∀ held content, disk.entry? path = some (.file held content) →
      ownerWrites held = true) :
    disk.openEmpty mode path = .ok (disk.put path (.file (disk.fileModeOr path mode) [])) := by
  rw [openEmpty, hreach, fileModeOr]
  cases hentry : disk.entry? path with
  | none => rfl
  | some entry =>
      cases entry with
      | file held content => simp [bind, Except.bind, hwrites held content hentry]
      | directory mode' => exact (hnot mode' hentry).elim

theorem Rooted.write_of_file {held : List UInt8} (h : disk.Rooted)
    (hentry : disk.entry? path = some (.file mode held)) (content : List UInt8) :
    disk.write path content = .ok (disk.put path (.file mode content)) := by
  rw [write, h.find_of_entry? hentry]
  rfl

theorem Rooted.renameFile_of_file (h : disk.Rooted)
    (hentry : disk.entry? path = some (.file mode content))
    (hreach : disk.reachParent other = .ok ())
    (hnot : ∀ mode, disk.entry? other ≠ some (.directory mode)) :
    disk.renameFile path other = .ok ((disk.erase path).put other (.file mode content)) := by
  rw [renameFile, h.find_of_entry? hentry, hreach]
  cases htarget : disk.entry? other with
  | none => rfl
  | some entry =>
      cases entry with
      | file => rfl
      | directory mode' => exact (hnot mode' htarget).elim

/-- Directories can be made wherever no file is in the way. -/
theorem makeBelow_of_passable (mode : Nat)
    (habove : ∃ mode, disk.entry? above = some (.directory mode))
    (hway : ∀ front back mode content, front ++ back = names →
      disk.entry? (above ++ front) ≠ some (.file mode content)) :
    ∃ after, disk.makeBelow mode above names = .ok after ∧
      ∃ mode, after.entry? (above ++ names) = some (.directory mode) := by
  induction names generalizing disk above with
  | nil => exact ⟨disk, rfl, by rwa [List.append_nil]⟩
  | cons name rest ih =>
      have hrest : ∀ front back mode content, front ++ back = rest →
          disk.entry? (above ++ [name] ++ front) ≠ some (.file mode content) := by
        intro front back mode content hnames
        rw [List.append_assoc]
        exact hway (name :: front) back mode content (by rw [List.cons_append, hnames])
      have hpath : above ++ name :: rest = above ++ [name] ++ rest := by simp
      cases hentry : disk.entry? (above ++ [name]) with
      | none =>
          simp only [makeBelow, hentry, hpath]
          apply ih ⟨mode, entry?_put_self _ _ (by simp)⟩
          intro front back mode' content hnames
          by_cases hfront : above ++ [name] ++ front = above ++ [name]
          · rw [hfront, entry?_put_self _ _ (by simp)]
            simp
          · rw [entry?_put_of_ne _ _ hfront]
            exact hrest front back mode' content hnames
      | some entry =>
          cases entry with
          | file mode' content =>
              exact (hway [name] rest mode' content rfl hentry).elim
          | directory mode' =>
              simp only [makeBelow, hentry, hpath]
              exact ih ⟨mode', hentry⟩ hrest

/-- Where the directory of a path is not there, it can be made, and so can those above it. -/
theorem Rooted.makeDirectories_of_missing (h : disk.Rooted) (mode : Nat)
    (hmissing : disk.find path.dropLast = .error .missing) (hnames : names <+: path.dropLast) :
    ∃ after, disk.makeDirectories mode names = .ok after ∧
      ∃ mode, after.entry? names = some (.directory mode) := by
  have hpass := h.passable_of_missing hmissing
  have hpath : path ≠ [] := by
    rintro rfl
    cases hmissing
  obtain ⟨rest, hrest⟩ := hnames
  refine makeBelow_of_passable mode ⟨_, rfl⟩ fun front back mode content hsplit => ?_
  refine hpass front (back ++ rest ++ [path.getLast hpath]) mode content ?_ (by simp)
  rw [← List.append_assoc, ← List.append_assoc, hsplit, hrest, List.dropLast_concat_getLast]

end Disk

namespace Credential

namespace Store

variable {store : Store} {disk after left : Disk} {record : Record} {mishap : Option Mishap}

theorem draft_dropLast (store : Store) : store.draft.dropLast = store.path.dropLast := by
  rcases List.eq_nil_or_concat store.path with hpath | ⟨parent, name, hpath⟩
  · simp [draft, hpath]
  · simp [draft, hpath]

theorem reachParent_draft (store : Store) (disk : Disk) :
    disk.reachParent store.draft = disk.reachParent store.path := by
  rw [Disk.reachParent, draft_dropLast, Disk.reachParent]

/-! ## When saving succeeds -/

/--
A record can be saved: no file stands on the way, no directory in the place of the file or of
the draft, and no draft that its owner may not write to.
-/
structure Writable (store : Store) (disk : Disk) : Prop where
  passable : disk.Passable store.path
  file : ∀ mode, disk.entry? store.path ≠ some (.directory mode)
  draft : ∀ mode, disk.entry? store.draft ≠ some (.directory mode)
  draftWrites : ∀ mode content, disk.entry? store.draft = some (.file mode content) →
    ownerWrites mode = true

theorem Writable.path (h : store.Writable disk) : store.path ≠ [] := by
  intro hpath
  exact h.file 0o755 (by rw [hpath]; rfl)

theorem Writable.makeParent (h : store.Writable disk) (hroot : disk.Rooted) :
    ∃ after, store.makeParent disk = .ok after ∧ after.reachParent store.path = .ok () := by
  have hfile : ∀ front back mode content, front ++ back = store.path.dropLast →
      disk.entry? front ≠ some (.file mode content) := by
    intro front back mode content hnames
    refine h.passable front (back ++ [store.path.getLast h.path]) mode content ?_ (by simp)
    rw [← List.append_assoc, hnames, List.dropLast_concat_getLast]
  have hfind := hroot.find_eq h.passable.dropLast
  rw [Store.makeParent]
  cases hentry : disk.entry? store.path.dropLast with
  | none =>
      rw [hentry] at hfind
      simp only [hfind, Option.elim]
      have hmakes : ∃ after, disk.makeBelow directoryMode [] store.path.dropLast = .ok after ∧
          ∃ mode, after.entry? ([] ++ store.path.dropLast) = some (.directory mode) :=
        Disk.makeBelow_of_passable directoryMode ⟨_, rfl⟩ hfile
      obtain ⟨after, hmake, mode, hmade⟩ := hmakes
      obtain ⟨hafter, -⟩ := Disk.makeBelow_ok ⟨_, rfl⟩ hroot hmake
      exact ⟨after, hmake, hafter.reach hmade⟩
  | some entry =>
      rw [hentry] at hfind
      simp only [hfind, Option.elim]
      cases entry with
      | file mode content => exact (hfile _ [] mode content (List.append_nil _) hentry).elim
      | directory mode => exact ⟨disk, rfl, hroot.reach hentry⟩

/-- Where a record can be saved, it is. -/
theorem Writable.save_ok (h : store.Writable disk) (hroot : disk.Rooted) (record : Record) :
    (store.save record disk).2 = .ok () := by
  obtain ⟨made, hmake, hreach⟩ := h.makeParent hroot
  obtain ⟨hmade, hdeep⟩ := makeParent_ok hroot hmake
  have hsame := hdeep h.path
  rw [← reachParent_draft] at hreach
  have hnot : ∀ mode, made.entry? store.draft ≠ some (.directory mode) := by
    rw [hsame store.draft store.length_draft]
    exact h.draft
  have hwrites : ∀ held content, made.entry? store.draft = some (.file held content) →
      ownerWrites held = true := by
    rw [hsame store.draft store.length_draft]
    exact h.draftWrites
  have hopen := Disk.openEmpty_of_reachParent fileMode hreach hnot hwrites
  generalize made.fileModeOr store.draft fileMode = mode at hopen
  have hopened : (made.put store.draft (.file mode [])).Rooted :=
    hmade.put (Disk.parent_of_reachParent hreach) (.inr hnot)
  have hdraft := Disk.entry?_put_self made (.file mode []) (draft_ne_nil h.path)
  have hwrite := hopened.write_of_file hdraft (Text.bytes record.render)
  obtain ⟨written, hwritten⟩ : ∃ written, written = (made.put store.draft (.file mode [])).put
    store.draft (.file mode (Text.bytes record.render)) := ⟨_, rfl⟩
  rw [← hwritten] at hwrite
  have hstep : store.saveStep record _ .writeDraft = .ok written := hwrite
  obtain ⟨hroots, -⟩ := saveStep_ok hopened hstep
  have hheld : written.entry? store.draft = some (.file mode (Text.bytes record.render)) := by
    rw [hwritten]
    exact Disk.entry?_put_self _ _ (draft_ne_nil h.path)
  have hfile : written.entry? store.path = disk.entry? store.path := by
    rw [hwritten, Disk.entry?_put_of_ne _ _ (draft_ne h.path).symm,
      Disk.entry?_put_of_ne _ _ (draft_ne h.path).symm, hsame store.path rfl]
  have hreplace := hroots.renameFile_of_file hheld
    (by rw [← reachParent_draft]; exact hroots.reachParent hheld) (by rw [hfile]; exact h.file)
  rw [save_ok_iff]
  simp only [SaveStep.all, saveSteps, saveStep, hmake, hopen, hwrite, hreplace]

theorem Writable.putDraft (h : store.Writable disk) {mode : Nat}
    (hwrites : ownerWrites mode = true) (content : List UInt8) :
    store.Writable (disk.put store.draft (.file mode content)) where
  passable := h.passable.put (.inr fun _ => draft_append_ne)
  file := by
    rw [Disk.entry?_put_of_ne _ _ (draft_ne h.path).symm]
    exact h.file
  draft := by
    rw [Disk.entry?_put_self _ _ (draft_ne_nil h.path)]
    exact nofun
  draftWrites := by
    intro mode' content' hdraft
    rw [Disk.entry?_put_self _ _ (draft_ne_nil h.path)] at hdraft
    cases hdraft
    exact hwrites

theorem Writable.fileModeOr (h : store.Writable disk) :
    ownerWrites (disk.fileModeOr store.draft fileMode) = true := by
  rw [Disk.fileModeOr]
  cases hdraft : disk.entry? store.draft with
  | none => exact (by decide : ownerWrites fileMode = true)
  | some entry =>
      cases entry with
      | file mode content => exact h.draftWrites mode content hdraft
      | directory mode => exact (h.draft mode hdraft).elim

theorem Writable.eraseDraft (h : store.Writable disk) :
    store.Writable (disk.erase store.draft) where
  passable := h.passable.erase store.draft
  file := by
    rw [Disk.entry?_erase_of_ne _ (draft_ne h.path).symm]
    exact h.file
  draft := by
    rw [Disk.entry?_erase_self _ (draft_ne_nil h.path)]
    exact nofun
  draftWrites := by
    rw [Disk.entry?_erase_self _ (draft_ne_nil h.path)]
    exact nofun

/-- What a step of saving does stands in the way of no other save. -/
theorem Writable.saveStep {step : SaveStep} (h : store.Writable disk) (hroot : disk.Rooted)
    (hstep : store.saveStep record disk step = .ok after) : store.Writable after := by
  cases step with
  | makeParent =>
      have hsame := (makeParent_ok hroot hstep).2 h.path
      have hdraft := hsame store.draft store.length_draft
      exact ⟨saveStep_passable h.passable hstep, hsame store.path rfl ▸ h.file,
        hdraft ▸ h.draft, hdraft ▸ h.draftWrites⟩
  | openDraft =>
      obtain ⟨-, -, -, rfl⟩ := Disk.openEmpty_ok hstep
      exact h.putDraft h.fileModeOr []
  | writeDraft =>
      obtain ⟨-, mode, held, hheld, rfl⟩ := Disk.write_ok hstep
      exact h.putDraft (h.draftWrites mode held hheld) _
  | replace =>
      have hpass := saveStep_passable h.passable hstep
      obtain ⟨-, -, mode, content, -, rfl⟩ := Disk.renameFile_ok hstep
      refine ⟨hpass, ?_, ?_, ?_⟩
      · rw [Disk.entry?_put_self _ _ h.path]
        exact nofun
      · rw [Disk.entry?_put_of_ne _ _ (draft_ne h.path)]
        exact h.eraseDraft.draft
      · rw [Disk.entry?_put_of_ne _ _ (draft_ne h.path)]
        exact h.eraseDraft.draftWrites

theorem Writable.abandon (h : store.Writable disk) (step : SaveStep) :
    store.Writable (store.abandon disk step) := by
  cases step with
  | replace =>
      unfold Store.abandon
      cases hremove : disk.removeFile store.draft with
      | error fault => exact h
      | ok after =>
          obtain ⟨-, rfl⟩ := Disk.removeFile_ok hremove
          exact h.eraseDraft
  | makeParent | openDraft | writeDraft => exact h

theorem Writable.saveAmid (h : store.Writable disk) (hroot : disk.Rooted) (record : Record)
    (mishap : Option Mishap) : store.Writable (store.saveAmid record disk mishap).1 :=
  (saveAmid_induction (P := fun disk => disk.Rooted ∧ store.Writable disk) store record
    (fun _ _ _ hbefore hstep =>
      ⟨(saveStep_ok hbefore.1 hstep).1, hbefore.2.saveStep hbefore.1 hstep⟩)
    (fun _ step hbefore => ⟨(store.abandon_rooted hbefore.1 step).1, hbefore.2.abandon step⟩)
    ⟨hroot, h⟩ mishap).2

/-- With a file on the way no step but the first succeeds, and that one finds its work done. -/
theorem saveStep_of_blocked {step : SaveStep} (hroot : disk.Rooted)
    (hblocked : ¬ disk.Passable store.path)
    (h : store.saveStep record disk step = .ok after) : step = .makeParent ∧ after = disk := by
  have hreach := hroot.reachParent_ne_ok hblocked
  cases step with
  | makeParent =>
      refine ⟨rfl, ?_⟩
      simp only [saveStep, Store.makeParent] at h
      cases hfind : disk.find store.path.dropLast with
      | ok entry =>
          rw [hfind] at h
          cases h
          rfl
      | error fault =>
          rw [hfind] at h
          cases fault with
          | missing => exact (hblocked (hroot.passable_of_missing hfind)).elim
          | occupied | notDirectory | isDirectory | denied => cases h
  | openDraft => exact (hreach (reachParent_draft store disk ▸ (Disk.openEmpty_ok h).1)).elim
  | writeDraft => exact (hreach (reachParent_draft store disk ▸ (Disk.write_ok h).1)).elim
  | replace => exact (hreach (Disk.renameFile_ok h).1).elim

theorem abandon_of_blocked (hroot : disk.Rooted) (hblocked : ¬ disk.Passable store.path)
    (step : SaveStep) : store.abandon disk step = disk := by
  cases step with
  | replace =>
      unfold abandon
      cases hremove : disk.removeFile store.draft with
      | error fault => rfl
      | ok after =>
          obtain ⟨⟨mode, content, hheld⟩, -⟩ := Disk.removeFile_ok hremove
          exact (hroot.reachParent_ne_ok hblocked
            (reachParent_draft store disk ▸ hroot.reachParent hheld)).elim
  | makeParent | openDraft | writeDraft => rfl

/-- A record can be saved exactly where saving succeeds. -/
theorem save_ok_iff_writable (hroot : disk.Rooted) :
    (store.save record disk).2 = .ok () ↔ store.Writable disk := by
  refine ⟨fun hok => ?_, fun h => h.save_ok hroot record⟩
  obtain ⟨made, opened, written, hmake, hopen, hwrite, hreplace⟩ :=
    saveSteps_all_ok (save_ok_iff.1 hok)
  have hmake' : store.saveStep record disk .makeParent = .ok made := hmake
  have hopen' : store.saveStep record made .openDraft = .ok opened := hopen
  have hwrite' : store.saveStep record opened .writeDraft = .ok written := hwrite
  have hpath : store.path ≠ [] := by
    intro hpath
    exact (Disk.renameFile_ok hreplace).2.1 0o755 (by rw [hpath]; rfl)
  obtain ⟨hmade, hdeep⟩ := makeParent_ok hroot hmake
  have hsame := hdeep hpath
  obtain ⟨hopened, hopens⟩ := saveStep_ok hmade hopen'
  obtain ⟨-, hwrites⟩ := saveStep_ok hopened hwrite'
  refine ⟨?_, ?_, ?_, ?_⟩
  · by_contra hblocked
    obtain ⟨-, rfl⟩ := saveStep_of_blocked hroot hblocked hmake'
    exact nomatch (saveStep_of_blocked hroot hblocked hopen').1
  · rw [← hsame store.path rfl, ← hopens hpath nofun, ← hwrites hpath nofun]
    exact (Disk.renameFile_ok hreplace).2.1
  · rw [← hsame store.draft store.length_draft]
    exact (Disk.openEmpty_ok hopen).2.1
  · rw [← hsame store.draft store.length_draft]
    exact (Disk.openEmpty_ok hopen).2.2.1

theorem saveSteps_of_blocked (hroot : disk.Rooted) (hblocked : ¬ disk.Passable store.path)
    (record : Record) (steps : List SaveStep) :
    (store.saveSteps record disk steps).1 = disk := by
  refine saveSteps_induction (P := (· = disk)) store record ?_ ?_ steps rfl
  · rintro _ step after rfl hstep
    exact (saveStep_of_blocked hroot hblocked hstep).2
  · rintro _ step rfl
    exact abandon_of_blocked hroot hblocked step

theorem saveAmid_of_blocked (hroot : disk.Rooted) (hblocked : ¬ disk.Passable store.path)
    (record : Record) (mishap : Option Mishap) : (store.saveAmid record disk mishap).1 = disk := by
  refine saveAmid_induction (P := (· = disk)) store record ?_ ?_ rfl mishap
  · rintro _ step after rfl hstep
    exact (saveStep_of_blocked hroot hblocked hstep).2
  · rintro _ step rfl
    exact abandon_of_blocked hroot hblocked step

/-! ## What a save that is stopped leaves -/

/-- The root holds no record, whatever is below it. -/
theorem load_of_root (hpath : store.path = []) (disk : Disk) :
    store.load disk = .error (failure .isDirectory) := by
  simp [load, Disk.read, Disk.find, Disk.reachParent, Disk.reach, Disk.entry?, hpath, bind,
    Except.bind]

theorem Usable.saveSteps (h : store.Usable disk) (record : Record) (steps : List SaveStep) :
    store.Usable (store.saveSteps record disk steps).1 where
  path := h.path
  rooted := (store.saveSteps_rooted record h.rooted steps).1
  passable := saveSteps_induction store record (fun _ _ _ => saveStep_passable)
    (fun _ step hpass => abandon_passable hpass step) steps h.passable

/-- Steps of saving other than the last change nothing of what is loaded. -/
theorem load_saveSteps (store : Store) (record : Record) (hroot : disk.Rooted)
    {steps : List SaveStep} (hfront : .replace ∉ steps.dropLast)
    (hlast : .replace ∉ steps ∨ (store.saveSteps record disk steps).2 ≠ .ok ()) :
    store.load (store.saveSteps record disk steps).1 = store.load disk := by
  by_cases hpath : store.path = []
  · rw [load_of_root hpath, load_of_root hpath]
  by_cases hpass : disk.Passable store.path
  · have husable : store.Usable disk := ⟨hpath, hroot, hpass⟩
    exact (husable.saveSteps record steps).load_congr husable
      ((store.saveSteps_rooted record hroot steps).2 hpath hfront hlast)
  · rw [saveSteps_of_blocked hroot hpass]

/-- A save that fails changes nothing of what is loaded, wherever the store is. -/
theorem load_saveAmid_of_ne (hroot : disk.Rooted)
    (hfails : (store.saveAmid record disk mishap).2 ≠ .ok ()) :
    store.load (store.saveAmid record disk mishap).1 = store.load disk := by
  by_cases hpath : store.path = []
  · rw [load_of_root hpath, load_of_root hpath]
  by_cases hpass : disk.Passable store.path
  · exact Usable.load_saveAmid_of_ne ⟨hpath, hroot, hpass⟩ hfails
  · rw [saveAmid_of_blocked hroot hpass]

/--
The disk where saving a record stops short, whether the machine fails there or the whole program
ends.  Bringing the draft from the machine's memory to the disk changes nothing that is read, so
stopping before that or after it leaves the same.
-/
inductive CutShort (store : Store) (record : Record) (disk : Disk) : Disk → Prop where
  /-- Some of the directories above the file have been made. -/
  | making {names : List String} {left : Disk}
      (hmissing : disk.find store.path.dropLast = .error .missing)
      (hnames : names <+: store.path.dropLast)
      (hmade : disk.makeDirectories directoryMode names = .ok left) :
      CutShort store record disk left
  /-- Some of the steps have been taken. -/
  | after {count : Nat} {left : Disk}
      (hsteps : store.saveSteps record disk (SaveStep.all.take count) = (left, .ok ())) :
      CutShort store record disk left
  /-- Some of the text is in the draft. -/
  | writing {opened left : Disk} {part : List UInt8}
      (hopened : store.saveSteps record disk [.makeParent, .openDraft] = (opened, .ok ()))
      (hpart : part <+: Text.bytes record.render)
      (hwrite : opened.write store.draft part = .ok left) : CutShort store record disk left

theorem load_of_making {names : List String} (hroot : disk.Rooted)
    (hmissing : disk.find store.path.dropLast = .error .missing)
    (hnames : names <+: store.path.dropLast)
    (hmade : disk.makeDirectories directoryMode names = .ok left) :
    store.load left = store.load disk := by
  have hpath : store.path ≠ [] := by
    intro hpath
    rw [hpath] at hmissing
    cases hmissing
  have hpass := hroot.passable_of_missing hmissing
  obtain ⟨hleft, hdeeper⟩ := Disk.makeBelow_ok ⟨_, rfl⟩ hroot hmade
  refine Usable.load_congr ⟨hpath, hleft, hpass.makeBelow hmade⟩ ⟨hpath, hroot, hpass⟩
    (hdeeper _ ?_)
  have hlength := hnames.length_le
  have hpos := List.length_pos_iff.2 hpath
  rw [List.length_dropLast] at hlength
  rw [List.length_nil]
  omega

theorem load_of_write {content : List UInt8} (hroot : disk.Rooted)
    (hwrite : disk.write store.draft content = .ok left) : store.load left = store.load disk := by
  obtain ⟨hreach, mode, held, hheld, rfl⟩ := Disk.write_ok hwrite
  have hnot : ∀ mode, disk.entry? store.draft ≠ some (.directory mode) := by simp [hheld]
  have hpath : store.path ≠ [] := by
    intro hpath
    exact hnot 0o755 (by rw [draft, hpath]; rfl)
  have hpass : disk.Passable store.path := by
    by_contra hblocked
    exact hroot.reachParent_ne_ok hblocked (reachParent_draft store disk ▸ hreach)
  have hput : (disk.put store.draft (.file mode content)).Rooted :=
    hroot.put (Disk.parent_of_reachParent hreach) (.inr hnot)
  exact Usable.load_congr ⟨hpath, hput, hpass.put (.inr fun below => draft_append_ne)⟩
    ⟨hpath, hroot, hpass⟩ (Disk.entry?_put_of_ne disk _ (draft_ne hpath).symm)

/-- Whatever stops a save, the same is loaded as before, until all is done. -/
theorem CutShort.load (h : store.CutShort record disk left) (hroot : disk.Rooted) :
    store.load left = store.load disk ∨
      store.saveSteps record disk SaveStep.all = (left, .ok ()) := by
  cases h with
  | making hmissing hnames hmade => exact .inl (load_of_making hroot hmissing hnames hmade)
  | @after count _ hsteps =>
      by_cases hall : SaveStep.all.length ≤ count
      · rw [List.take_of_length_le hall] at hsteps
        exact .inr hsteps
      · have hno : .replace ∉ SaveStep.all.take count := by
          rw [SaveStep.all, List.length_cons, List.length_cons, List.length_cons,
            List.length_singleton] at hall
          have hfew : count = 0 ∨ count = 1 ∨ count = 2 ∨ count = 3 := by omega
          rcases hfew with rfl | rfl | rfl | rfl <;> decide
        have hload := store.load_saveSteps record hroot
          (fun hmem => hno (List.dropLast_subset _ hmem)) (.inl hno)
        rw [hsteps] at hload
        exact .inl hload
  | @writing opened _ part hopened hpart hwrite =>
      have hload : store.load (store.saveSteps record disk [.makeParent, .openDraft]).1 =
          store.load disk :=
        store.load_saveSteps record hroot (by decide) (.inl (by decide))
      have hrooted := (store.saveSteps_rooted record hroot [.makeParent, .openDraft]).1
      rw [hopened] at hload hrooted
      exact .inl ((load_of_write hrooted hwrite).trans hload)

theorem not_draftReadable (h : ¬ store.DraftReadable disk) :
    ownerReads (disk.fileModeOr store.draft fileMode) = false := by
  simp only [DraftReadable, not_forall] at h
  obtain ⟨mode, content, hdraft, hdenied⟩ := h
  rw [Disk.fileModeOr, hdraft]
  exact Bool.eq_false_iff.2 hdenied

/--
A saved record is the one that is loaded, if a draft that was left behind may be read, and no
draft is left.
-/
theorem load_save (hroot : disk.Rooted) (hok : (store.save record disk).2 = .ok ()) :
    (store.DraftReadable disk → store.load (store.save record disk).1 = .ok (some record)) ∧
      (¬ store.DraftReadable disk →
        store.load (store.save record disk).1 = .error (failure .denied)) ∧
      Disk.entry? (store.save record disk).1 store.draft = none := by
  have hwritable := (save_ok_iff_writable hroot).1 hok
  have husable : store.Usable disk := ⟨hwritable.path, hroot, hwritable.passable⟩
  have hsaved : store.Usable (store.save record disk).1 := husable.saveAmid record none
  obtain ⟨hfile, hdraft⟩ := entry?_save hroot hwritable.path hok
  exact ⟨fun hreadable => load_of_render hsaved.rooted hfile hreadable.mode,
    fun hdenied => load_of_denied hsaved.rooted hfile (not_draftReadable hdenied), hdraft⟩

/-- A stored record, and beside it the draft of a save that never ended. -/
def leftBehind : Disk :=
  ((Disk.empty.put ["data"] (.directory 0o700)).put ["data", "tokens.json"]
    (.file 0o600 (Text.bytes (Record.render ⟨"old", "refresh", "Bearer", 7⟩)))).put
      ["data", "tokens.json.tmp"] (.file 0o600 [0x7B, 0x0A])

theorem leftBehind_rooted : leftBehind.Rooted := by
  have hdirectory : (Disk.empty.put ["data"] (.directory 0o700)).Rooted :=
    Disk.empty_rooted.put ⟨_, rfl⟩ (.inl ⟨_, rfl⟩)
  have hstored : ((Disk.empty.put ["data"] (.directory 0o700)).put ["data", "tokens.json"]
      (.file 0o600 (Text.bytes (Record.render ⟨"old", "refresh", "Bearer", 7⟩)))).Rooted :=
    hdirectory.put ⟨_, rfl⟩ (.inr nofun)
  exact hstored.put ⟨_, rfl⟩ (.inr nofun)

end Store

end Credential

end ChatGateway
