import ChatGateway.Credential.TokenFile
import ChatGateway.Proofs.AtomicSave

/-!
# Saving by the names of a path

Where the directory of the token file is there, or its path does not go up, a save by the names of
the path is one of the store that they lead to: it takes effect as a whole or not at all.  For a
path that goes up from a directory which is not there, this is different.  A save makes that
directory first, so that its names lead somewhere even if it fails after that.
-/

namespace ChatGateway

namespace Disk

variable {disk after other : Disk} {path found : Path} {entry : Entry} {name : String}
  {names rest : List String} {mode : Nat}

/-! ## Directories that stay -/

/-- Every directory stays where it is. -/
def KeepsDirectories (disk after : Disk) : Prop :=
  ∀ path mode, disk.entry? path = some (.directory mode) →
    after.entry? path = some (.directory mode)

theorem KeepsDirectories.trans (h : disk.KeepsDirectories after)
    (hother : after.KeepsDirectories other) : disk.KeepsDirectories other :=
  fun path mode hpath => hother path mode (h path mode hpath)

theorem keepsDirectories_put (hnot : ∀ mode, disk.entry? path ≠ some (.directory mode))
    (entry : Entry) : disk.KeepsDirectories (disk.put path entry) := by
  intro above mode habove
  have hne : above ≠ path := by
    rintro rfl
    exact hnot mode habove
  rw [entry?_put_of_ne _ _ hne, habove]

theorem keepsDirectories_erase (hnot : ∀ mode, disk.entry? path ≠ some (.directory mode)) :
    disk.KeepsDirectories (disk.erase path) := by
  intro above mode habove
  have hne : above ≠ path := by
    rintro rfl
    exact hnot mode habove
  rw [entry?_erase_of_ne _ hne, habove]

theorem makeBelow_keepsDirectories (h : disk.makeBelow mode path names = .ok after) :
    disk.KeepsDirectories after := by
  induction names generalizing disk path with
  | nil =>
      cases h
      exact fun _ _ => id
  | cons name rest ih =>
      cases hentry : disk.entry? (path ++ [name]) with
      | none =>
          simp only [makeBelow, hentry] at h
          exact (keepsDirectories_put (by simp [hentry]) _).trans (ih h)
      | some entry =>
          cases entry with
          | file => simp [makeBelow, hentry] at h
          | directory =>
              simp only [makeBelow, hentry] at h
              exact ih h

/-! ## Following names -/

theorem follow_cons : disk.follow path (name :: rest) = .ok found ↔
    (∃ mode, disk.entry? path = some (.directory mode)) ∧
      disk.follow (path.enter name) rest = .ok found := by
  rw [follow]
  cases disk.entry? path with
  | none => simp
  | some entry => cases entry <;> simp

theorem follow_append (disk : Disk) (path : Path) (names rest : List String) :
    disk.follow path (names ++ rest) =
      disk.follow path names >>= fun next => disk.follow next rest := by
  induction names generalizing path with
  | nil => rfl
  | cons name names ih =>
      rw [List.cons_append, follow, follow]
      cases disk.entry? path with
      | none => rfl
      | some entry =>
          cases entry with
          | file => rfl
          | directory => exact ih _

/-- Names lead to the same path as long as all directories stay. -/
theorem KeepsDirectories.follow (h : disk.KeepsDirectories after)
    (hfollow : disk.follow path names = .ok found) : after.follow path names = .ok found := by
  induction names generalizing path with
  | nil => exact hfollow
  | cons name rest ih =>
      obtain ⟨⟨mode, hmode⟩, hrest⟩ := follow_cons.1 hfollow
      exact follow_cons.2 ⟨⟨mode, h path mode hmode⟩, ih hrest⟩

/-- Names that do not go up lead down by each of them, if there are directories to go through. -/
theorem follow_of_plain (hplain : ".." ∉ names) (hnames : names ≠ []) :
    disk.follow path names = (disk.reach path names.dropLast).map fun _ => path ++ names := by
  induction names generalizing path with
  | nil => exact (hnames rfl).elim
  | cons name rest ih =>
      rw [List.mem_cons, not_or] at hplain
      have henter : path.enter name = path ++ [name] := if_neg (Ne.symm hplain.1)
      rw [follow, henter]
      cases rest with
      | nil =>
          rw [List.dropLast_singleton, reach]
          cases disk.entry? path with
          | none => rfl
          | some entry => cases entry <;> rfl
      | cons second rest =>
          rw [List.dropLast_cons_cons, reach, ih hplain.2 (List.cons_ne_nil _ _)]
          cases disk.entry? path with
          | none => rfl
          | some entry =>
              cases entry with
              | file => rfl
              | directory => simp

theorem follow_root (disk : Disk) (hplain : ".." ∉ names) :
    disk.follow [] names = (disk.reachParent names).map fun _ => names := by
  by_cases hnames : names = []
  · subst hnames
    rfl
  · exact follow_of_plain hplain hnames

/-! ## Directories made along names -/

/-- Nothing differs but for directories that were made where nothing was. -/
def Grown (mode : Nat) (disk after : Disk) : Prop :=
  ∀ path, after.entry? path = disk.entry? path ∨
    disk.entry? path = none ∧ after.entry? path = some (.directory mode)

theorem Grown.keepsDirectories (h : Grown mode disk after) : disk.KeepsDirectories after := by
  intro path held hpath
  rcases h path with hsame | ⟨hnone, -⟩
  · rw [hsame, hpath]
  · rw [hnone] at hpath
    cases hpath

theorem Grown.file_iff (h : Grown mode disk after) {held : Nat} {content : List UInt8} :
    after.entry? path = some (.file held content) ↔
      disk.entry? path = some (.file held content) := by
  rcases h path with hsame | ⟨hnone, hmade⟩
  · rw [hsame]
  · rw [hnone, hmade]
    simp

theorem Grown.of_put (hnone : disk.entry? path = none)
    (h : Grown mode (disk.put path (.directory mode)) after) : Grown mode disk after := by
  intro above
  by_cases hsame : above = path
  · subst hsame
    have hne : above ≠ [] := by
      rintro rfl
      cases hnone
    rcases h above with hmade | ⟨hput, -⟩
    · exact .inr ⟨hnone, by rw [hmade, entry?_put_self _ _ hne]⟩
    · rw [entry?_put_self _ _ hne] at hput
      cases hput
  · rcases h above with hkept | ⟨hput, hmade⟩
    · exact .inl (by rw [hkept, entry?_put_of_ne _ _ hsame])
    · exact .inr ⟨by rwa [entry?_put_of_ne _ _ hsame] at hput, hmade⟩

/-- Only going down leads from a directory to where nothing is. -/
theorem Rooted.enter_of_absent (h : disk.Rooted)
    (hpath : disk.entry? path = some (.directory mode))
    (hnone : disk.entry? (path.enter name) = none) : path.enter name = path ++ [name] := by
  by_cases hup : name = ".."
  · rw [Path.enter, if_pos hup] at hnone
    obtain ⟨mode, hparent⟩ := parent_of_reachParent (h.reachParent hpath)
    rw [hnone] at hparent
    cases hparent
  · exact if_neg hup

/-- What making directories along names leaves, and where it leads if it succeeds. -/
theorem makeAlong_made (hroot : disk.Rooted)
    (hpath : ∃ mode, disk.entry? path = some (.directory mode)) (mode : Nat) (names : List String) :
    (disk.makeAlong mode path names).1.Rooted ∧
      Grown mode disk (disk.makeAlong mode path names).1 ∧
      ∀ found, (disk.makeAlong mode path names).2 = .ok found →
        (disk.makeAlong mode path names).1.follow path names = .ok found ∧
          ∃ entry, Disk.entry? (disk.makeAlong mode path names).1 found = some entry := by
  induction names generalizing disk path with
  | nil =>
      refine ⟨hroot, fun _ => .inl rfl, fun found hfound => ⟨hfound, ?_⟩⟩
      obtain ⟨mode, hmode⟩ := hpath
      cases hfound
      exact ⟨_, hmode⟩
  | cons name rest ih =>
      obtain ⟨held, hheld⟩ := hpath
      rw [makeAlong]
      cases hentry : disk.entry? (path.enter name) with
      | none =>
          have henter := hroot.enter_of_absent hheld hentry
          have hne : path.enter name ≠ [] := by simp [henter]
          have hput : (disk.put (path.enter name) (.directory mode)).Rooted :=
            hroot.put ⟨held, by rw [henter, List.dropLast_concat, hheld]⟩ (.inl ⟨_, rfl⟩)
          obtain ⟨hrooted, hgrown, hleads⟩ := ih hput ⟨_, entry?_put_self disk _ hne⟩
          have hgrown := hgrown.of_put hentry
          exact ⟨hrooted, hgrown, fun found hfound =>
            ⟨follow_cons.2 ⟨⟨held, hgrown.keepsDirectories _ _ hheld⟩, (hleads found hfound).1⟩,
              (hleads found hfound).2⟩⟩
      | some entry =>
          cases entry with
          | file => exact ⟨hroot, fun _ => .inl rfl, nofun⟩
          | directory mode' =>
              obtain ⟨hrooted, hgrown, hleads⟩ := ih hroot ⟨mode', hentry⟩
              exact ⟨hrooted, hgrown, fun found hfound =>
                ⟨follow_cons.2 ⟨⟨held, hgrown.keepsDirectories _ _ hheld⟩,
                  (hleads found hfound).1⟩, (hleads found hfound).2⟩⟩

/-- Along names that do not go up directories are made below each other. -/
theorem makeAlong_of_makeBelow (hplain : ".." ∉ names)
    (h : disk.makeBelow mode path names = .ok after) :
    disk.makeAlong mode path names = (after, .ok (path ++ names)) := by
  induction names generalizing disk path with
  | nil =>
      cases h
      rw [makeAlong, List.append_nil]
  | cons name rest ih =>
      rw [List.mem_cons, not_or] at hplain
      have henter : path.enter name = path ++ [name] := if_neg (Ne.symm hplain.1)
      have hnames : path ++ name :: rest = path ++ [name] ++ rest := List.append_cons _ _ _
      rw [makeAlong, henter, hnames]
      cases hentry : disk.entry? (path ++ [name]) with
      | none =>
          simp only [makeBelow, hentry] at h
          exact ih hplain.2 h
      | some entry =>
          cases entry with
          | file => simp [makeBelow, hentry] at h
          | directory =>
              simp only [makeBelow, hentry] at h
              exact ih hplain.2 h

end Disk

namespace Credential

/-! ## What the store's steps leave where it is -/

namespace Store

variable {store : Store} {disk after left : Disk} {record : Record} {mishap : Option Mishap}

theorem saveStep_keepsDirectories {step : SaveStep}
    (h : store.saveStep record disk step = .ok after) : disk.KeepsDirectories after := by
  cases step with
  | makeParent =>
      simp only [saveStep, Store.makeParent] at h
      cases hfind : disk.find store.path.dropLast with
      | ok entry =>
          rw [hfind] at h
          cases h
          exact fun _ _ => id
      | error fault =>
          rw [hfind] at h
          cases fault with
          | missing => exact Disk.makeBelow_keepsDirectories h
          | occupied | notDirectory | isDirectory | denied => cases h
  | openDraft =>
      obtain ⟨-, hnot, -, rfl⟩ := Disk.openEmpty_ok h
      exact Disk.keepsDirectories_put hnot _
  | writeDraft =>
      obtain ⟨-, mode, held, hheld, rfl⟩ := Disk.write_ok h
      exact Disk.keepsDirectories_put (by simp [hheld]) _
  | replace =>
      obtain ⟨-, hnot, mode, content, hheld, rfl⟩ := Disk.renameFile_ok h
      have herased : disk.KeepsDirectories (disk.erase store.draft) :=
        Disk.keepsDirectories_erase (by simp [hheld])
      refine herased.trans (Disk.keepsDirectories_put (fun mode hmode => ?_) _)
      by_cases hsame : store.path = store.draft
      · by_cases hnil : store.draft = []
        · rw [hnil] at hheld
          cases hheld
        · rw [hsame, Disk.entry?_erase_self _ hnil] at hmode
          cases hmode
      · exact hnot mode (by rwa [Disk.entry?_erase_of_ne _ hsame] at hmode)

theorem abandon_keepsDirectories (store : Store) (disk : Disk) (step : SaveStep) :
    disk.KeepsDirectories (store.abandon disk step) := by
  cases step with
  | replace =>
      unfold abandon
      cases hremove : disk.removeFile store.draft with
      | error fault => exact fun _ _ => id
      | ok after =>
          obtain ⟨⟨mode, content, hheld⟩, rfl⟩ := Disk.removeFile_ok hremove
          exact Disk.keepsDirectories_erase (by simp [hheld])
  | makeParent | openDraft | writeDraft => exact fun _ _ => id

theorem saveSteps_keepsDirectories (store : Store) (record : Record) (disk : Disk)
    (steps : List SaveStep) : disk.KeepsDirectories (store.saveSteps record disk steps).1 :=
  saveSteps_induction (P := disk.KeepsDirectories) store record
    (fun _ _ _ hbefore hstep => hbefore.trans (saveStep_keepsDirectories hstep))
    (fun _ step hbefore => hbefore.trans (abandon_keepsDirectories store _ step)) steps
    fun _ _ => id

theorem saveAmid_keepsDirectories (store : Store) (record : Record) (disk : Disk)
    (mishap : Option Mishap) : disk.KeepsDirectories (store.saveAmid record disk mishap).1 :=
  saveAmid_induction (P := disk.KeepsDirectories) store record
    (fun _ _ _ hbefore hstep => hbefore.trans (saveStep_keepsDirectories hstep))
    (fun _ step hbefore => hbefore.trans (abandon_keepsDirectories store _ step))
    (fun _ _ => id) mishap

theorem CutShort.keepsDirectories (h : store.CutShort record disk left) :
    disk.KeepsDirectories left := by
  cases h with
  | making hmissing hnames hmade => exact Disk.makeBelow_keepsDirectories hmade
  | @after count _ hsteps =>
      have hkept := saveSteps_keepsDirectories store record disk (SaveStep.all.take count)
      rwa [hsteps] at hkept
  | writing hopened hpart hwrite =>
      have hkept := saveSteps_keepsDirectories store record disk [.makeParent, .openDraft]
      rw [hopened] at hkept
      obtain ⟨-, mode, held, hheld, rfl⟩ := Disk.write_ok hwrite
      exact hkept.trans (Disk.keepsDirectories_put (by simp [hheld]) _)

/-- With a file on the way a save leaves everything as it was, wherever it stops. -/
theorem CutShort.eq_of_blocked (h : store.CutShort record disk left) (hroot : disk.Rooted)
    (hblocked : ¬ disk.Passable store.path) : left = disk := by
  cases h with
  | making hmissing hnames hmade => exact (hblocked (hroot.passable_of_missing hmissing)).elim
  | @after count _ hsteps =>
      have hsame := saveSteps_of_blocked hroot hblocked record (SaveStep.all.take count)
      rwa [hsteps] at hsame
  | writing hopened hpart hwrite =>
      have hsame := saveSteps_of_blocked hroot hblocked record [.makeParent, .openDraft]
      rw [hopened] at hsame
      subst hsame
      exact (hroot.reachParent_ne_ok hblocked
        (reachParent_draft store _ ▸ (Disk.write_ok hwrite).1)).elim

/-! ## The directory that is made first -/

theorem makeParent_again (hroot : disk.Rooted) (h : store.makeParent disk = .ok after) :
    store.makeParent after = .ok after := by
  have hafter := (makeParent_ok hroot h).1
  rw [Store.makeParent] at h
  cases hfind : disk.find store.path.dropLast with
  | ok entry =>
      rw [hfind] at h
      cases h
      rw [Store.makeParent, hfind]
  | error fault =>
      rw [hfind] at h
      cases fault with
      | missing =>
          obtain ⟨made, hmake, mode, hmade⟩ :=
            hroot.makeDirectories_of_missing directoryMode hfind (List.prefix_refl _)
          cases hmake.symm.trans h
          rw [Store.makeParent, hafter.find_of_entry? hmade]
      | occupied | notDirectory | isDirectory | denied => cases h

/-- A save begins with the directory, so that it does not matter who makes it. -/
theorem save_of_makeParent (hroot : disk.Rooted) (h : store.makeParent disk = .ok after) :
    store.save record disk = store.save record after := by
  simp only [save, SaveStep.all, saveSteps, saveStep, h, makeParent_again hroot h]

theorem save_of_makeParent_error {fault : Disk.Fault} (h : store.makeParent disk = .error fault) :
    store.save record disk = (disk, .error (failure fault)) := by
  simp only [save, SaveStep.all, saveSteps, saveStep, h]
  rfl

end Store

namespace TokenFile

variable {file : TokenFile} {store : Store} {disk made left : Disk} {record : Record}
  {parent : Path} {mishap : Option Mishap}

/-! ## The store that the names lead to -/

theorem within?_eq_some (h : file.within? parent = some store) :
    ∃ name, name ≠ ".." ∧ file.names = file.names.dropLast ++ [name] ∧
      store.path = parent ++ [name] := by
  rw [within?] at h
  split at h
  next name hlast =>
    split at h
    · cases h
    next hname =>
      cases h
      exact ⟨name, hname, (List.dropLast_append_getLast? name hlast).symm, rfl⟩
  next => cases h

/-- What is loaded below a directory is what the store there holds. -/
theorem load_of_parent (hparent : disk.follow [] file.names.dropLast = .ok parent) {mode : Nat}
    (hentry : disk.entry? parent = some (.directory mode))
    (hstore : file.within? parent = some store) :
    file.store? disk = .ok store ∧ file.load disk = store.load disk := by
  obtain ⟨name, hname, hnames, hpath⟩ := within?_eq_some hstore
  have henter : parent.enter name = parent ++ [name] := if_neg hname
  have hfollow : disk.follow [] file.names = .ok store.path := by
    rw [hnames, Disk.follow_append, hparent, hpath, ← henter]
    exact Disk.follow_cons.2 ⟨⟨mode, hentry⟩, rfl⟩
  have hfound : file.store? disk = .ok store := by
    rw [store?, hfollow]
    rfl
  exact ⟨hfound, by rw [load, hfound]⟩

/-- By names that do not go up the store's own record is loaded. -/
theorem load_of_plain (hplain : ".." ∉ file.names) (disk : Disk) :
    file.load disk = Store.load ⟨file.names⟩ disk := by
  rw [load, store?, Disk.follow_root disk hplain]
  cases hreach : disk.reachParent file.names with
  | ok done => rfl
  | error fault =>
      have hread : disk.read file.names = .error fault := by
        rw [Disk.read, Disk.find, hreach]
        rfl
      simp only [Store.load, hread]
      cases fault <;> rfl

/-! ## The directory of the file -/

theorem parent?_ok (h : file.parent? disk = .ok parent) :
    disk.follow [] file.names.dropLast = .ok parent ∧
      ∃ entry, disk.entry? parent = some entry := by
  obtain ⟨found, hfollow, h⟩ := Disk.bind_ok.1 h
  obtain ⟨entry, hfind, h⟩ := Disk.bind_ok.1 h
  cases h
  exact ⟨hfollow, entry, (Disk.find_ok hfind).2⟩

theorem plain_dropLast (h : ".." ∉ file.names) : ".." ∉ file.names.dropLast :=
  fun hmem => h (List.dropLast_subset _ hmem)

theorem parent?_of_plain (hplain : ".." ∉ file.names) (disk : Disk) :
    file.parent? disk = (disk.find file.names.dropLast).map fun _ => file.names.dropLast := by
  rw [parent?, Disk.follow_root disk (plain_dropLast hplain), Disk.find]
  cases hreach : disk.reachParent file.names.dropLast with
  | error fault => rfl
  | ok done =>
      show (disk.find file.names.dropLast >>= fun _ => .ok file.names.dropLast) = _
      rw [Disk.find, hreach]
      cases disk.entry? file.names.dropLast <;> rfl

theorem makeParent_made (hroot : disk.Rooted) (file : TokenFile) :
    (file.makeParent disk).1.Rooted ∧
      Disk.Grown Store.directoryMode disk (file.makeParent disk).1 ∧
      ∀ parent, (file.makeParent disk).2 = .ok parent →
        (file.makeParent disk).1.follow [] file.names.dropLast = .ok parent ∧
          ∃ entry, Disk.entry? (file.makeParent disk).1 parent = some entry := by
  rw [makeParent]
  cases hparent : file.parent? disk with
  | ok path =>
      refine ⟨hroot, fun _ => .inl rfl, fun parent hfound => ?_⟩
      cases hfound
      exact parent?_ok hparent
  | error fault =>
      cases fault with
      | missing => exact Disk.makeAlong_made hroot ⟨_, rfl⟩ _ _
      | occupied | notDirectory | isDirectory | denied =>
          exact ⟨hroot, fun _ => .inl rfl, nofun⟩

theorem find_of_parent?_missing (hplain : ".." ∉ file.names)
    (h : file.parent? disk = .error .missing) :
    disk.find file.names.dropLast = .error .missing := by
  rw [parent?_of_plain hplain] at h
  cases hfind : disk.find file.names.dropLast with
  | ok entry =>
      rw [hfind] at h
      cases h
  | error fault =>
      rw [hfind] at h
      cases h
      rfl

/-- Directories made along names that do not go up bring no record to light. -/
theorem load_makeAlong (hroot : disk.Rooted) (hplain : ".." ∉ file.names)
    (hparent : file.parent? disk = .error .missing) {front : List String}
    (hfront : front <+: file.names.dropLast) :
    file.load (disk.makeAlong Store.directoryMode [] front).1 = file.load disk := by
  have hmissing := find_of_parent?_missing hplain hparent
  obtain ⟨left, hmade, -⟩ := hroot.makeDirectories_of_missing Store.directoryMode hmissing hfront
  have hfrontPlain : ".." ∉ front := fun hmem => plain_dropLast hplain (hfront.subset hmem)
  rw [Disk.makeAlong_of_makeBelow hfrontPlain hmade, load_of_plain hplain, load_of_plain hplain]
  have hstore : ∀ store : Store, store.path = file.names → store.load left = store.load disk :=
    fun store hpath => Store.load_of_making hroot (hpath ▸ hmissing) (hpath ▸ hfront) hmade
  exact hstore ⟨file.names⟩ rfl

/-- The path does not go up, or the directory of the file is there. -/
def Settled (file : TokenFile) (disk : Disk) : Prop :=
  ".." ∉ file.names ∨ ∃ parent, file.parent? disk = .ok parent

theorem Settled.plain (h : file.Settled disk) (hparent : file.parent? disk = .error .missing) :
    ".." ∉ file.names := by
  rcases h with hplain | ⟨parent, hfound⟩
  · exact hplain
  · rw [hparent] at hfound
    cases hfound

theorem Settled.load_makeParent (h : file.Settled disk) (hroot : disk.Rooted) :
    file.load (file.makeParent disk).1 = file.load disk := by
  rw [makeParent]
  cases hparent : file.parent? disk with
  | ok path => rfl
  | error fault =>
      cases fault with
      | missing => exact load_makeAlong hroot (h.plain hparent) hparent (List.prefix_refl _)
      | occupied | notDirectory | isDirectory | denied => rfl

/-! ## Saves below the directory -/

/-- What the store does below the directory of the file does not change where the names lead. -/
theorem load_below (hparent : made.follow [] file.names.dropLast = .ok parent)
    (hentry : ∃ entry, made.entry? parent = some entry)
    (hstore : file.within? parent = some store) (hkept : made.KeepsDirectories left)
    (hload : store.load left = store.load made)
    (hblocked : ¬ made.Passable store.path → left = made) : file.load left = file.load made := by
  obtain ⟨entry, hentry⟩ := hentry
  cases entry with
  | directory mode =>
      rw [(load_of_parent hparent hentry hstore).2,
        (load_of_parent (hkept.follow hparent) (hkept _ _ hentry) hstore).2, hload]
  | file mode content =>
      obtain ⟨name, -, -, hpath⟩ := within?_eq_some hstore
      rw [hblocked fun hpass => hpass parent [name] mode content hpath.symm (by simp) hentry]

/-- A save that fails leaves the directories that it made, and nothing more that is loaded. -/
theorem load_saveAmid_of_ne (hroot : disk.Rooted)
    (hfails : (file.saveAmid record disk mishap).2 ≠ .ok ()) :
    file.load (file.saveAmid record disk mishap).1 = file.load (file.makeParent disk).1 := by
  obtain ⟨hmade, -, hleads⟩ := makeParent_made hroot file
  rw [saveAmid] at hfails ⊢
  rcases hmake : file.makeParent disk with ⟨made, fault | parent⟩
  · rfl
  · rw [hmake] at hmade hleads hfails
    obtain ⟨hparent, hentry⟩ := hleads parent rfl
    cases hstore : file.within? parent with
    | none =>
        simp only [hstore]
        cases file.store? made <;> rfl
    | some store =>
        simp only [hstore] at hfails ⊢
        exact load_below hparent hentry hstore
          (Store.saveAmid_keepsDirectories store record made mishap)
          (Store.load_saveAmid_of_ne hmade hfails)
          fun hblocked => Store.saveAmid_of_blocked hmade hblocked record mishap

/-- The disk where a save by the names of a path stops short. -/
inductive CutShort (file : TokenFile) (record : Record) (disk : Disk) : Disk → Prop where
  /-- Some of the directories on the way have been made. -/
  | making {front : List String} (hmissing : file.parent? disk = .error .missing)
      (hfront : front <+: file.names.dropLast) :
      CutShort file record disk (disk.makeAlong Store.directoryMode [] front).1
  /-- The store has come so far below the directory. -/
  | saving {made left : Disk} {parent : Path} {store : Store}
      (hmake : file.makeParent disk = (made, .ok parent))
      (hstore : file.within? parent = some store)
      (hcut : store.CutShort record made left) : CutShort file record disk left

theorem CutShort.load (h : file.CutShort record disk left) (hroot : disk.Rooted)
    (hsettled : file.Settled disk) :
    file.load left = file.load disk ∨ file.save record disk = (left, .ok ()) := by
  cases h with
  | making hmissing hfront =>
      exact .inl (load_makeAlong hroot (hsettled.plain hmissing) hmissing hfront)
  | @saving made _ parent store hmake hstore hcut =>
      obtain ⟨hmade, -, hleads⟩ := makeParent_made hroot file
      have hsame := hsettled.load_makeParent hroot
      rw [hmake] at hmade hleads hsame
      obtain ⟨hparent, hentry⟩ := hleads parent rfl
      rcases hcut.load hmade with hload | hall
      · exact .inl ((load_below hparent hentry hstore hcut.keepsDirectories hload
          (hcut.eq_of_blocked hmade)).trans hsame)
      · refine .inr ?_
        simp only [save, saveAmid, hmake, hstore, Store.saveAmid, Store.save, hall]
        rfl

/-- A save that succeeds is one of the store that the names lead to after it. -/
theorem exists_saved (hroot : disk.Rooted) (hok : (file.save record disk).2 = .ok ()) :
    ∃ store made, made.Rooted ∧ (store.DraftReadable made ↔ store.DraftReadable disk) ∧
      file.save record disk = store.save record made ∧
      file.store? (file.save record disk).1 = .ok store ∧
      file.load (file.save record disk).1 = store.load (store.save record made).1 := by
  obtain ⟨hmade, hgrown, hleads⟩ := makeParent_made hroot file
  rw [save, saveAmid] at hok ⊢
  rcases hmake : file.makeParent disk with ⟨made, fault | parent⟩
  · rw [hmake] at hok
    cases hok
  · rw [hmake] at hmade hgrown hleads hok
    obtain ⟨hparent, entry, hentry⟩ := hleads parent rfl
    cases hstore : file.within? parent with
    | none =>
        simp only [hstore] at hok
        cases hpath : file.store? made <;> rw [hpath] at hok <;> cases hok
    | some store =>
        simp only [hstore] at hok ⊢
        have hok : (store.save record made).2 = .ok () := hok
        obtain ⟨name, -, -, hpath⟩ := within?_eq_some hstore
        have hpass := ((Store.save_ok_iff_writable hmade).1 hok).passable
        cases entry with
        | file mode content =>
            exact (hpass parent [name] mode content hpath.symm (by simp) hentry).elim
        | directory mode =>
            have hkept := Store.saveAmid_keepsDirectories store record made none
            obtain ⟨hfound, hload⟩ :=
              load_of_parent (hkept.follow hparent) (hkept _ _ hentry) hstore
            refine ⟨store, made, hmade, ?_, rfl, hfound, hload⟩
            simp only [Store.DraftReadable, hgrown.file_iff]

/-- The directory of names that do not go up is the one that the store makes. -/
theorem makeParent_of_plain (hroot : disk.Rooted) (hplain : ".." ∉ file.names) :
    file.makeParent disk = match Store.makeParent ⟨file.names⟩ disk with
      | .ok made => (made, .ok file.names.dropLast)
      | .error fault => (disk, .error fault) := by
  rw [makeParent, Store.makeParent, parent?_of_plain hplain]
  cases hfind : disk.find file.names.dropLast with
  | ok entry => rfl
  | error fault =>
      cases fault with
      | missing =>
          obtain ⟨made, hmade, -⟩ :=
            hroot.makeDirectories_of_missing Store.directoryMode hfind (List.prefix_refl _)
          simp only [Except.map, hmade]
          rw [Disk.makeAlong_of_makeBelow (plain_dropLast hplain) hmade, List.nil_append]
      | occupied | notDirectory | isDirectory | denied => rfl

/-- By names that do not go up the store's own save is made. -/
theorem save_of_plain (hroot : disk.Rooted) (hplain : ".." ∉ file.names) (record : Record) :
    file.save record disk = Store.save ⟨file.names⟩ record disk := by
  rcases List.eq_nil_or_concat file.names with hnil | ⟨parent, name, hnames⟩
  · simp only [save, saveAmid, makeParent, parent?, within?, store?, hnil]
    rfl
  · rw [List.concat_eq_append] at hnames
    have hname : name ≠ ".." := by
      rintro rfl
      exact hplain (by simp [hnames])
    have hwithin : file.within? file.names.dropLast = some ⟨file.names⟩ := by
      simp [within?, hnames, hname]
    rw [save, saveAmid, makeParent_of_plain hroot hplain]
    cases hmake : Store.makeParent ⟨file.names⟩ disk with
    | error fault => exact (Store.save_of_makeParent_error hmake).symm
    | ok made =>
        simp only [hwithin]
        exact (Store.save_of_makeParent hroot hmake).symm

/-- A save that succeeds leaves the record where the names lead to, and no draft. -/
theorem load_save (hroot : disk.Rooted) (hok : (file.save record disk).2 = .ok ()) :
    ∃ store, file.store? (file.save record disk).1 = .ok store ∧
      (store.DraftReadable disk → file.load (file.save record disk).1 = .ok (some record)) ∧
      (¬ store.DraftReadable disk →
        file.load (file.save record disk).1 = .error (Store.failure .denied)) ∧
      Disk.entry? (file.save record disk).1 store.draft = none := by
  obtain ⟨store, made, hmade, hdraft, hsave, hfound, hload⟩ := exists_saved hroot hok
  rw [hsave] at hok
  obtain ⟨hreadable, hdenied, hgone⟩ := Store.load_save hmade hok
  rw [hdraft] at hreadable hdenied
  rw [← hload] at hreadable hdenied
  rw [← hsave] at hgone
  exact ⟨store, hfound, hreadable, hdenied, hgone⟩

/--
A save by names that do not go up succeeds exactly where nothing is in its way.  One that
succeeds, by whatever names, leaves the record where they lead to then, where it is loaded, every
character of it, and no draft; only where a draft was left behind that its owner may not read, the
record that was saved cannot be loaded.  After a save that fails the same is loaded as if only the
directories had been made.  Where the names do not go up, or the directory of the file was there
before, that is the same as before the save, and a save that stops short leaves what was loaded
before or, all of its steps taken, what the whole save leaves.
-/
theorem save_all_or_nothing (file : TokenFile) (record : Record) {disk : Disk}
    (hroot : disk.Rooted) :
    (".." ∉ file.names →
      ((file.save record disk).2 = .ok () ↔ Store.Writable ⟨file.names⟩ disk)) ∧
    ((file.save record disk).2 = .ok () →
      ∃ store, file.store? (file.save record disk).1 = .ok store ∧
        (store.DraftReadable disk → file.load (file.save record disk).1 = .ok (some record)) ∧
        (¬ store.DraftReadable disk →
          file.load (file.save record disk).1 = .error (Store.failure .denied)) ∧
        Disk.entry? (file.save record disk).1 store.draft = none) ∧
    (∀ mishap, (file.saveAmid record disk mishap).2 ≠ .ok () →
      file.load (file.saveAmid record disk mishap).1 = file.load (file.makeParent disk).1) ∧
    (file.Settled disk →
      file.load (file.makeParent disk).1 = file.load disk ∧
      ∀ left, file.CutShort record disk left →
        file.load left = file.load disk ∨ file.save record disk = (left, .ok ())) := by
  refine ⟨fun hplain => ?_, load_save hroot, fun _ => load_saveAmid_of_ne hroot, ?_⟩
  · rw [save_of_plain hroot hplain]
    exact Store.save_ok_iff_writable hroot
  · exact fun hsettled =>
      ⟨hsettled.load_makeParent hroot, fun left hcut => hcut.load hroot hsettled⟩

/--
A record of awkward characters takes the place of the stored one, and of the draft.  If the draft
cannot be written, the stored one is still loaded.
-/
theorem save_all_or_nothing_over_draft :
    let file : TokenFile := ⟨["data", "..", "data", "tokens.json"]⟩
    let record : Record := ⟨"\"\n\u0001\\é", "", "\t", 0xFFFFFFFFFFFFFFFF⟩
    Store.leftBehind.Rooted ∧ file.Settled Store.leftBehind ∧
      file.load (file.save record Store.leftBehind).1 = .ok (some record) ∧
      file.load (file.saveAmid record Store.leftBehind (some ⟨.writeDraft, "no space left"⟩)).1 =
        file.load Store.leftBehind := by
  intro file record
  have hsettled : file.Settled Store.leftBehind := .inr ⟨["data"], by decide⟩
  obtain ⟨-, hsaved, hfailed, hsame⟩ :=
    save_all_or_nothing file record Store.leftBehind_rooted
  obtain ⟨store, hstore, hload, -⟩ := hsaved (by decide +kernel)
  have hpath : store = ⟨["data", "tokens.json"]⟩ := by
    have hfound : file.store? (file.save record Store.leftBehind).1 =
        .ok ⟨["data", "tokens.json"]⟩ := by decide +kernel
    exact Except.ok.inj (hstore.symm.trans hfound)
  have hreadable : store.DraftReadable Store.leftBehind := by
    rw [hpath]
    intro mode content hdraft
    cases hdraft
    decide
  exact ⟨Store.leftBehind_rooted, hsettled, hload hreadable,
    (hfailed _ (by decide +kernel)).trans (hsame hsettled).1⟩

/-- An older record that can be reached only once a directory is there, which is not. -/
def outOfReach : Disk :=
  (Disk.empty.put ["tokens.json"] (.file 0o600 (Text.bytes (Record.render
    ⟨"old", "refresh", "Bearer", 7⟩)))).put ["tokens.json.tmp"] (.directory 0o755)

/--
A save that succeeds through a draft that may only be written to leaves a record that cannot be
loaded.  One that fails, by names that go up from a directory that it makes, brings an older record
to light.
-/
theorem save_neither_all_nor_nothing :
    (let file : TokenFile := ⟨["tokens.json"]⟩
      let disk : Disk := Disk.empty.put ["tokens.json.tmp"] (.file 0o200 [])
      let record : Record := ⟨"a", "r", "Bearer", 1⟩
      disk.Rooted ∧ file.load disk = .ok none ∧ (file.save record disk).2 = .ok () ∧
        file.load (file.save record disk).1 =
          .error (.storage "Permission denied (os error 13)")) ∧
    (let file := ofText "new/../tokens.json"
      let record : Record := ⟨"a", "r", "Bearer", 1⟩
      outOfReach.Rooted ∧ file.load outOfReach = .ok none ∧
        (file.save record outOfReach).2 = .error (.storage "Is a directory (os error 21)") ∧
        file.load (file.save record outOfReach).1 =
          .ok (some ⟨"old", "refresh", "Bearer", 7⟩)) := by
  have hstored : (Disk.empty.put ["tokens.json"] (.file 0o600 (Text.bytes (Record.render
      ⟨"old", "refresh", "Bearer", 7⟩)))).Rooted :=
    Disk.empty_rooted.put ⟨_, rfl⟩ (.inr nofun)
  exact ⟨⟨Disk.empty_rooted.put ⟨_, rfl⟩ (.inr nofun), by decide +kernel, by decide +kernel,
    by decide +kernel⟩, hstored.put ⟨_, rfl⟩ (.inl ⟨_, rfl⟩), by decide +kernel,
    by decide +kernel, by decide +kernel⟩

end TokenFile

end Credential

end ChatGateway
