import ChatGateway.Credential.Traffic
import Mathlib.Data.List.Induction

/-!
# The stored file

What the store's operations do to the file that the record is kept in.  On a disk that is a
tree, a removal that succeeds leaves no file, and a save that fails does not make one.
-/

namespace ChatGateway

namespace Disk

variable {disk after : Disk} {path other above : Path} {entry : Entry} {name : String} {mode : Nat}
  {names : List String}

theorem bind_ok {α β : Type} {first : Except Fault α} {second : α → Except Fault β} {result : β} :
    (first >>= second) = .ok result ↔ ∃ found, first = .ok found ∧ second found = .ok result := by
  cases first <;> simp [bind, Except.bind]

/-! ## Entries -/

theorem lookup_filter_of_ne (entries : List (Path × Entry)) (h : other ≠ path) :
    (entries.filter fun held => held.1 ≠ path).lookup other = entries.lookup other := by
  induction entries with
  | nil => rfl
  | cons held rest ih =>
      by_cases hpath : held.1 = path
      · have hne : (other == held.1) = false := by simpa [hpath] using h
        rw [List.filter_cons_of_neg (by simpa using hpath), ih, List.lookup_cons, hne]
      · rw [List.filter_cons_of_pos (by simpa using hpath), List.lookup_cons, List.lookup_cons, ih]

theorem lookup_filter_self (entries : List (Path × Entry)) (path : Path) :
    (entries.filter fun held => held.1 ≠ path).lookup path = none := by
  induction entries with
  | nil => rfl
  | cons held rest ih =>
      by_cases hpath : held.1 = path
      · rw [List.filter_cons_of_neg (by simpa using hpath), ih]
      · have hne : (path == held.1) = false := by simpa using Ne.symm hpath
        rw [List.filter_cons_of_pos (by simpa using hpath), List.lookup_cons, hne, ih]

theorem entry?_of_ne_nil (disk : Disk) (h : path ≠ []) :
    disk.entry? path = disk.entries.lookup path := by
  cases path with
  | nil => exact (h rfl).elim
  | cons name rest => rfl

theorem entry?_put_self (disk : Disk) (entry : Entry) (h : path ≠ []) :
    Disk.entry? (disk.put path entry) path = some entry := by
  rw [entry?_of_ne_nil _ h, put, List.lookup_cons, beq_self_eq_true]

theorem entry?_put_of_ne (disk : Disk) (entry : Entry) (h : other ≠ path) :
    Disk.entry? (disk.put path entry) other = disk.entry? other := by
  cases other with
  | nil => rfl
  | cons name rest =>
      have hne : (name :: rest == path) = false := by simpa using h
      rw [entry?_of_ne_nil _ (List.cons_ne_nil _ _), entry?_of_ne_nil _ (List.cons_ne_nil _ _), put,
        List.lookup_cons, hne]
      exact lookup_filter_of_ne disk.entries h

theorem entry?_erase_self (disk : Disk) (h : path ≠ []) :
    Disk.entry? (disk.erase path) path = none := by
  rw [entry?_of_ne_nil _ h]
  exact lookup_filter_self disk.entries path

theorem entry?_erase_of_ne (disk : Disk) (h : other ≠ path) :
    Disk.entry? (disk.erase path) other = disk.entry? other := by
  cases other with
  | nil => rfl
  | cons name rest => exact lookup_filter_of_ne disk.entries h

/-! ## Trees -/

/-- Whatever is on the disk is in a directory. -/
def Rooted (disk : Disk) : Prop :=
  ∀ path name entry, disk.entry? (path ++ [name]) = some entry →
    ∃ mode, disk.entry? path = some (.directory mode)

theorem empty_rooted : empty.Rooted := by
  intro path name entry h
  rw [entry?_of_ne_nil _ (by simp)] at h
  cases h

theorem reach_append (disk : Disk) (above : Path) (first second : List String) :
    disk.reach above (first ++ second) =
      disk.reach above first >>= fun _ => disk.reach (above ++ first) second := by
  induction first generalizing above with
  | nil =>
      rw [List.nil_append, List.append_nil]
      cases second <;> unfold reach <;> cases disk.entry? above with
        | none => rfl
        | some entry => cases entry <;> rfl
  | cons name rest ih =>
      rw [List.cons_append, reach, reach]
      cases disk.entry? above with
      | none => rfl
      | some entry =>
          cases entry with
          | file => rfl
          | directory =>
              rw [ih, List.append_assoc]
              rfl

theorem reach_nil_iff : disk.reach above [] = .ok () ↔
    ∃ mode, disk.entry? above = some (.directory mode) := by
  rw [reach]
  cases disk.entry? above with
  | none => simp
  | some entry => cases entry <;> simp

/-- Going down to a path ends at a directory. -/
theorem directory_of_reach (h : disk.reach [] path = .ok ()) :
    ∃ mode, disk.entry? path = some (.directory mode) := by
  have hend : disk.reach [] (path ++ []) = .ok () := by rwa [List.append_nil]
  rw [reach_append, bind_ok] at hend
  obtain ⟨-, -, hend⟩ := hend
  exact reach_nil_iff.1 hend

/-- In a tree every directory is reached. -/
theorem Rooted.reach (h : disk.Rooted) (hpath : disk.entry? path = some (.directory mode)) :
    disk.reach [] path = .ok () := by
  induction path using List.reverseRecOn generalizing mode with
  | nil => rfl
  | append_singleton path name ih =>
      obtain ⟨mode', hparent⟩ := h path name _ hpath
      rw [reach_append, ih hparent]
      show disk.reach ([] ++ path) [name] = .ok ()
      rw [List.nil_append, Disk.reach, hparent]
      exact reach_nil_iff.2 ⟨mode, hpath⟩

theorem Rooted.reachParent (h : disk.Rooted) (hpath : disk.entry? path = some entry) :
    disk.reachParent path = .ok () := by
  rcases List.eq_nil_or_concat path with rfl | ⟨parent, name, rfl⟩
  · rfl
  · obtain ⟨mode, hparent⟩ := h parent name _ (List.concat_eq_append ▸ hpath)
    unfold Disk.reachParent
    rw [List.concat_eq_append, List.dropLast_concat]
    exact h.reach hparent

theorem find_ok (h : disk.find path = .ok entry) :
    disk.reachParent path = .ok () ∧ disk.entry? path = some entry := by
  obtain ⟨_, hreach, hentry⟩ := bind_ok.1 h
  refine ⟨hreach, ?_⟩
  cases hfound : disk.entry? path with
  | none => simp [hfound] at hentry
  | some found => simpa [hfound] using hentry

/-- In a tree nothing is there that is not found. -/
theorem Rooted.entry?_of_find_error {fault : Fault} (h : disk.Rooted)
    (hfind : disk.find path = .error fault) : disk.entry? path = none := by
  cases hentry : disk.entry? path with
  | none => rfl
  | some entry =>
      unfold find at hfind
      rw [h.reachParent hentry] at hfind
      simp [hentry, bind, Except.bind] at hfind

theorem parent_of_reachParent (h : disk.reachParent path = .ok ()) :
    ∃ mode, disk.entry? path.dropLast = some (.directory mode) :=
  directory_of_reach h

theorem Rooted.put (h : disk.Rooted)
    (hparent : ∃ mode, disk.entry? path.dropLast = some (.directory mode))
    (hkeeps : (∃ mode, entry = .directory mode) ∨
      ∀ mode, disk.entry? path ≠ some (.directory mode)) : (disk.put path entry).Rooted := by
  intro parent name found hfound
  have hdirectory : ∃ mode, disk.entry? parent = some (.directory mode) := by
    by_cases hpath : parent ++ [name] = path
    · rwa [← hpath, List.dropLast_concat] at hparent
    · rw [entry?_put_of_ne _ _ hpath] at hfound
      exact h parent name found hfound
  by_cases hsame : parent = path
  · subst hsame
    rcases hkeeps with ⟨mode, rfl⟩ | hnot
    · cases parent with
      | nil => exact ⟨_, rfl⟩
      | cons first rest => exact ⟨mode, entry?_put_self _ _ (List.cons_ne_nil _ _)⟩
    · obtain ⟨mode, hmode⟩ := hdirectory
      exact (hnot mode hmode).elim
  · rwa [entry?_put_of_ne _ _ hsame]

theorem Rooted.erase (h : disk.Rooted)
    (hnot : ∀ mode, disk.entry? path ≠ some (.directory mode)) : (disk.erase path).Rooted := by
  intro parent name found hfound
  have hpath : parent ++ [name] ≠ path := by
    rintro rfl
    rw [entry?_erase_self _ (by simp)] at hfound
    cases hfound
  rw [entry?_erase_of_ne _ hpath] at hfound
  obtain ⟨mode, hmode⟩ := h parent name found hfound
  have hsame : parent ≠ path := fun heq => hnot mode (heq ▸ hmode)
  exact ⟨mode, by rw [entry?_erase_of_ne _ hsame, hmode]⟩

/-! ## Operations -/

/-- The permissions of the file at a path, or those given if there is none. -/
def fileModeOr (disk : Disk) (path : Path) (mode : Nat) : Nat :=
  match disk.entry? path with
  | some (.file held _) => held
  | _ => mode

/-- What is opened for writing keeps its permissions, which let its owner write. -/
theorem openEmpty_ok (h : disk.openEmpty mode path = .ok after) :
    disk.reachParent path = .ok () ∧ (∀ mode, disk.entry? path ≠ some (.directory mode)) ∧
      (∀ held content, disk.entry? path = some (.file held content) → ownerWrites held = true) ∧
      after = disk.put path (.file (disk.fileModeOr path mode) []) := by
  obtain ⟨_, hreach, hput⟩ := bind_ok.1 h
  refine ⟨hreach, ?_⟩
  unfold fileModeOr
  cases hentry : disk.entry? path with
  | none =>
      simp only [hentry] at hput
      cases hput
      simp
  | some entry =>
      cases entry with
      | directory => simp [hentry] at hput
      | file held content =>
          simp only [hentry] at hput
          split at hput
          · rename_i hwrites
            cases hput
            simp [hwrites]
          · cases hput

/-- Writing to a file changes its content alone. -/
theorem write_ok {content : List UInt8} (h : disk.write path content = .ok after) :
    disk.reachParent path = .ok () ∧ ∃ mode held, disk.entry? path = some (.file mode held) ∧
      after = disk.put path (.file mode content) := by
  obtain ⟨entry, hfind, hput⟩ := bind_ok.1 h
  obtain ⟨hreach, hentry⟩ := find_ok hfind
  cases entry with
  | directory => cases hput
  | file mode held =>
      cases hput
      exact ⟨hreach, mode, held, hentry, rfl⟩

theorem renameFile_ok (h : disk.renameFile path other = .ok after) :
    disk.reachParent other = .ok () ∧ (∀ mode, disk.entry? other ≠ some (.directory mode)) ∧
      ∃ mode content, disk.entry? path = some (.file mode content) ∧
        after = (disk.erase path).put other (.file mode content) := by
  obtain ⟨entry, hfind, h⟩ := bind_ok.1 h
  obtain ⟨_, hreach, hput⟩ := bind_ok.1 h
  obtain ⟨-, hentry⟩ := find_ok hfind
  cases entry with
  | directory => cases hput
  | file mode content =>
      cases htarget : disk.entry? other with
      | none =>
          simp only [htarget] at hput
          cases hput
          exact ⟨hreach, by simp, mode, content, hentry, rfl⟩
      | some target =>
          cases target with
          | directory => simp [htarget] at hput
          | file =>
              simp only [htarget] at hput
              cases hput
              exact ⟨hreach, by simp, mode, content, hentry, rfl⟩

theorem removeFile_ok (h : disk.removeFile path = .ok after) :
    (∃ mode content, disk.entry? path = some (.file mode content)) ∧ after = disk.erase path := by
  obtain ⟨entry, hfind, herase⟩ := bind_ok.1 h
  obtain ⟨-, hentry⟩ := find_ok hfind
  cases entry with
  | directory => cases herase
  | file mode content =>
      cases herase
      exact ⟨⟨mode, content, hentry⟩, rfl⟩

theorem find_of_removeFile_missing (h : disk.removeFile path = .error .missing) :
    disk.find path = .error .missing := by
  unfold removeFile at h
  cases hfind : disk.find path with
  | error fault =>
      rw [hfind] at h
      cases h
      rfl
  | ok entry =>
      rw [hfind] at h
      cases entry <;> cases h

/-- Making directories makes nothing deeper than the last of them. -/
theorem makeBelow_ok (habove : ∃ mode, disk.entry? above = some (.directory mode))
    (hroot : disk.Rooted) (h : disk.makeBelow mode above names = .ok after) :
    after.Rooted ∧ ∀ other : Path, above.length + names.length < other.length →
      after.entry? other = disk.entry? other := by
  induction names generalizing disk above with
  | nil =>
      cases h
      exact ⟨hroot, fun _ _ => rfl⟩
  | cons name rest ih =>
      have hne : above ++ [name] ≠ [] := by simp
      cases hentry : disk.entry? (above ++ [name]) with
      | none =>
          simp only [makeBelow, hentry] at h
          have hput : (disk.put (above ++ [name]) (.directory mode)).Rooted :=
            hroot.put (by rwa [List.dropLast_concat]) (.inl ⟨_, rfl⟩)
          obtain ⟨hafter, hdeeper⟩ := ih ⟨_, entry?_put_self disk _ hne⟩ hput h
          refine ⟨hafter, fun other hlength => ?_⟩
          rw [List.length_cons] at hlength
          rw [hdeeper other (by rw [List.length_append, List.length_singleton]; omega)]
          apply entry?_put_of_ne
          rintro rfl
          rw [List.length_append, List.length_singleton] at hlength
          omega
      | some entry =>
          cases entry with
          | file => simp [makeBelow, hentry] at h
          | directory =>
              simp only [makeBelow, hentry] at h
              obtain ⟨hafter, hdeeper⟩ := ih ⟨_, hentry⟩ hroot h
              refine ⟨hafter, fun other hlength => hdeeper other ?_⟩
              rw [List.length_cons] at hlength
              rw [List.length_append, List.length_singleton]
              omega

end Disk

namespace Credential

namespace Store

variable {store : Store} {disk after : Disk} {record : Record}

/-- The draft stands beside the file, under another name. -/
theorem draft_ne (h : store.path ≠ []) : store.draft ≠ store.path := by
  obtain ⟨parent, name, hpath⟩ := (List.eq_nil_or_concat store.path).resolve_left h
  rw [List.concat_eq_append] at hpath
  unfold draft
  rw [hpath]
  simp only [List.getLast?_concat, List.dropLast_concat]
  intro heq
  have hname : String.ofList (stem name.toList ++ ".json.tmp".toList) = name := by
    simpa using heq
  -- The name would end in the extensions, and its stem in one of them once more.
  have hlist : stem name.toList ++ ".json.tmp".toList = name.toList := by
    rw [← String.toList_ofList (l := stem name.toList ++ ".json.tmp".toList), hname]
  have hstem : stem (stem name.toList ++ ".json.tmp".toList) =
      stem name.toList ++ ".json".toList := by
    generalize stem name.toList = front
    unfold stem
    simp
  rw [hlist] at hstem
  have hlength := congrArg List.length hstem
  simp at hlength

/-- Making the directory of the store makes nothing as deep as the file. -/
theorem makeParent_ok (hroot : disk.Rooted) (h : store.makeParent disk = .ok after) :
    after.Rooted ∧ (store.path ≠ [] → ∀ other : Path, other.length = store.path.length →
      after.entry? other = disk.entry? other) := by
  rw [makeParent] at h
  cases hfind : disk.find store.path.dropLast with
  | ok entry =>
      rw [hfind] at h
      cases h
      exact ⟨hroot, fun _ _ _ => rfl⟩
  | error fault =>
      rw [hfind] at h
      cases fault with
      | missing =>
          obtain ⟨hafter, hdeeper⟩ := Disk.makeBelow_ok ⟨_, rfl⟩ hroot h
          refine ⟨hafter, fun hpath other hlength => hdeeper other ?_⟩
          have hpos := List.length_pos_iff.2 hpath
          rw [List.length_nil, List.length_dropLast]
          omega
      | occupied | notDirectory | isDirectory | denied => cases h

/-- Nothing of what a step of saving makes is the file, but for the last step. -/
theorem saveStep_ok {step : SaveStep} (hroot : disk.Rooted)
    (h : store.saveStep record disk step = .ok after) :
    after.Rooted ∧ (store.path ≠ [] → step ≠ .replace →
      after.entry? store.path = disk.entry? store.path) := by
  cases step with
  | makeParent =>
      obtain ⟨hafter, hsame⟩ := makeParent_ok hroot h
      exact ⟨hafter, fun hpath _ => hsame hpath store.path rfl⟩
  | openDraft =>
      obtain ⟨hreach, hnot, -, rfl⟩ := Disk.openEmpty_ok h
      exact ⟨hroot.put (Disk.parent_of_reachParent hreach) (.inr hnot),
        fun hpath _ => Disk.entry?_put_of_ne disk _ (draft_ne hpath).symm⟩
  | writeDraft =>
      obtain ⟨hreach, mode, held, hheld, rfl⟩ := Disk.write_ok h
      exact ⟨hroot.put (Disk.parent_of_reachParent hreach) (.inr (by simp [hheld])),
        fun hpath _ => Disk.entry?_put_of_ne disk _ (draft_ne hpath).symm⟩
  | replace =>
      obtain ⟨hreach, hnot, mode, content, hheld, rfl⟩ := Disk.renameFile_ok h
      refine ⟨?_, fun _ hne => (hne rfl).elim⟩
      obtain ⟨mode', hparent⟩ := Disk.parent_of_reachParent hreach
      have herased : (disk.erase store.draft).Rooted := hroot.erase (by simp [hheld])
      refine herased.put ⟨mode', ?_⟩ (.inr ?_)
      · rw [Disk.entry?_erase_of_ne, hparent]
        intro heq
        rw [heq, hheld] at hparent
        cases hparent
      · intro mode
        by_cases hdraft : store.path = store.draft
        · have hne : store.draft ≠ [] := by
            intro hnil
            rw [hnil] at hheld
            cases hheld
          rw [hdraft, Disk.entry?_erase_self _ hne]
          simp
        · rw [Disk.entry?_erase_of_ne _ hdraft]
          exact hnot mode

theorem abandon_rooted (store : Store) (hroot : disk.Rooted) (step : SaveStep) :
    (store.abandon disk step).Rooted ∧ (store.path ≠ [] →
      Disk.entry? (store.abandon disk step) store.path = disk.entry? store.path) := by
  cases step with
  | replace =>
      unfold abandon
      cases hremove : disk.removeFile store.draft with
      | error fault => exact ⟨hroot, fun _ => rfl⟩
      | ok after =>
          obtain ⟨⟨mode, content, hheld⟩, rfl⟩ := Disk.removeFile_ok hremove
          exact ⟨hroot.erase (by simp [hheld]),
            fun hpath => Disk.entry?_erase_of_ne disk (draft_ne hpath).symm⟩
  | makeParent | openDraft | writeDraft => exact ⟨hroot, fun _ => rfl⟩

/-- Saving keeps the disk a tree, and it makes the file only by its last step. -/
theorem saveSteps_rooted (store : Store) (record : Record) (hroot : disk.Rooted)
    (steps : List SaveStep) :
    (store.saveSteps record disk steps).1.Rooted ∧
      (store.path ≠ [] → .replace ∉ steps.dropLast →
        .replace ∉ steps ∨ (store.saveSteps record disk steps).2 ≠ .ok () →
        Disk.entry? (store.saveSteps record disk steps).1 store.path = disk.entry? store.path) := by
  induction steps generalizing disk with
  | nil => exact ⟨hroot, fun _ _ _ => rfl⟩
  | cons step rest ih =>
      rw [saveSteps]
      cases hstep : store.saveStep record disk step with
      | error fault =>
          obtain ⟨hrooted, hsame⟩ := abandon_rooted store hroot step
          exact ⟨hrooted, fun hpath _ _ => hsame hpath⟩
      | ok after =>
          obtain ⟨hrooted, hsame⟩ := saveStep_ok hroot hstep
          obtain ⟨hrest, hkeeps⟩ := ih hrooted
          refine ⟨hrest, fun hpath hfront hlast => ?_⟩
          cases rest with
          | nil =>
              apply hsame hpath
              rintro rfl
              rcases hlast with hno | hfails
              · exact hno List.mem_cons_self
              · exact hfails rfl
          | cons second rest =>
              rw [List.dropLast_cons_cons, List.mem_cons, not_or] at hfront
              refine (hkeeps hpath hfront.2 (hlast.imp_left fun hno hmem => ?_)).trans
                (hsame hpath (Ne.symm hfront.1))
              exact hno (List.mem_cons_of_mem _ hmem)

/-- A save that fails, by itself or through the machine, leaves the file as it was. -/
theorem saveAmid_rooted (store : Store) (record : Record) (hroot : disk.Rooted)
    (mishap : Option Mishap) :
    (store.saveAmid record disk mishap).1.Rooted ∧
      (store.path ≠ [] → (store.saveAmid record disk mishap).2 ≠ .ok () →
        Disk.entry? (store.saveAmid record disk mishap).1 store.path = disk.entry? store.path) := by
  cases mishap with
  | none =>
      obtain ⟨hrooted, hkeeps⟩ := saveSteps_rooted store record hroot
        SaveStep.all
      refine ⟨hrooted, fun hpath hfails => hkeeps hpath (by decide) (.inr fun hok => hfails ?_)⟩
      show (store.saveSteps record disk SaveStep.all).2.mapError failure = .ok ()
      rw [hok]
      rfl
  | some mishap =>
      obtain ⟨hrooted, hkeeps⟩ := saveSteps_rooted store record hroot
        (SaveStep.all.takeWhile (· ≠ mishap.step))
      have hno : SaveStep.replace ∉ SaveStep.all.takeWhile (· ≠ mishap.step) := by
        cases mishap.step <;> decide
      have hsame := fun hpath => hkeeps hpath (fun hmem => hno (List.dropLast_subset _ hmem))
        (.inl hno)
      rcases houtcome : store.saveSteps record disk (SaveStep.all.takeWhile (· ≠ mishap.step)) with
        ⟨after, fault | done⟩
      · have hamid :
            store.saveAmid record disk (some mishap) = (after, .error (failure fault)) := by
          simp only [saveAmid, houtcome]
        rw [houtcome] at hrooted hsame
        rw [hamid]
        exact ⟨hrooted, fun hpath _ => hsame hpath⟩
      · have hamid : store.saveAmid record disk (some mishap) =
            (store.abandon after mishap.step, .error (.storage mishap.message)) := by
          simp only [saveAmid, houtcome]
        rw [houtcome] at hrooted hsame
        rw [hamid]
        obtain ⟨habandoned, habsent⟩ := abandon_rooted store hrooted mishap.step
        exact ⟨habandoned, fun hpath _ => (habsent hpath).trans (hsame hpath)⟩

/-- Removing the record leaves no file, if it succeeds, and it never makes one. -/
theorem clearAmid_rooted (store : Store) (hroot : disk.Rooted) (mishap : Option Mishap) :
    (store.clearAmid disk mishap).1.Rooted ∧
      ((store.clearAmid disk mishap).2 = .ok () →
        store.path ≠ [] ∧ Disk.entry? (store.clearAmid disk mishap).1 store.path = none) ∧
      (disk.entry? store.path = none →
        Disk.entry? (store.clearAmid disk mishap).1 store.path = none) := by
  have hfound : ∀ {after}, disk.removeFile store.path = .ok after → store.path ≠ [] ∧
      after.Rooted ∧ after.entry? store.path = none := by
    intro after hremove
    obtain ⟨⟨mode, content, hheld⟩, rfl⟩ := Disk.removeFile_ok hremove
    have hpath : store.path ≠ [] := by
      intro hnil
      rw [hnil] at hheld
      cases hheld
    exact ⟨hpath, hroot.erase (by simp [hheld]), Disk.entry?_erase_self disk hpath⟩
  cases mishap with
  | some mishap =>
      refine ⟨hroot, fun hok => ?_, id⟩
      cases hok
  | none =>
      cases hremove : disk.removeFile store.path with
      | ok after =>
          obtain ⟨hpath, hrooted, habsent⟩ := hfound hremove
          simp only [clearAmid, clear, hremove]
          exact ⟨hrooted, fun _ => ⟨hpath, habsent⟩, fun _ => habsent⟩
      | error fault =>
          cases fault with
          | missing =>
              have habsent := hroot.entry?_of_find_error (Disk.find_of_removeFile_missing hremove)
              simp only [clearAmid, clear, hremove]
              refine ⟨hroot, fun _ => ⟨?_, habsent⟩, id⟩
              intro hnil
              rw [hnil] at habsent
              cases habsent
          | occupied | notDirectory | isDirectory | denied =>
              simp only [clearAmid, clear, hremove]
              refine ⟨hroot, fun hok => ?_, id⟩
              cases hok

end Store

end Credential

end ChatGateway
