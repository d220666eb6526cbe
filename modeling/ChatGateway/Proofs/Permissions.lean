import ChatGateway.Proofs.AtomicSave
import Mathlib.Data.Nat.Bitwise

/-!
# The permissions of the stored file

The permissions that a save asks for count only for what it makes.  Every directory that it makes
is the owner's alone, and so is the file, whatever stood in its place.  A draft that was left
behind is not made anew, though: it keeps its permissions and brings them to the file.
-/

namespace ChatGateway

namespace Disk

variable {disk after : Disk} {path above : Path} {entry : Entry} {mode : Nat}
  {names : List String}

/-- In a tree something is on the way to whatever is there. -/
theorem Rooted.entry?_ne_none (h : disk.Rooted) (hway : path <+: above)
    (habove : disk.entry? above = some entry) : disk.entry? path ≠ none := by
  intro hnone
  obtain ⟨below, rfl⟩ := hway
  rw [h.entry?_below hnone] at habove
  cases habove

/-- Directories are made where nothing is on the way down, and all else stays as it is. -/
theorem entry?_makeBelow (hroot : disk.Rooted)
    (habove : ∃ mode, disk.entry? above = some (.directory mode))
    (h : disk.makeBelow mode above names = .ok after) (path : Path) :
    after.entry? path =
      if disk.entry? path = none ∧ path <+: above ++ names then some (.directory mode)
      else disk.entry? path := by
  induction names generalizing disk above with
  | nil =>
      cases h
      obtain ⟨mode', hmode⟩ := habove
      rw [List.append_nil, if_neg]
      rintro ⟨hnone, hway⟩
      exact hroot.entry?_ne_none hway hmode hnone
  | cons name rest ih =>
      have hne : above ++ [name] ≠ [] := by simp
      have hnames : above ++ name :: rest = above ++ [name] ++ rest := by simp
      rw [hnames]
      cases hentry : disk.entry? (above ++ [name]) with
      | none =>
          simp only [makeBelow, hentry] at h
          have hput : (disk.put (above ++ [name]) (.directory mode)).Rooted :=
            hroot.put (by rwa [List.dropLast_concat]) (.inl ⟨_, rfl⟩)
          rw [ih hput ⟨_, entry?_put_self _ _ hne⟩ h]
          by_cases hpath : path = above ++ [name]
          · subst hpath
            rw [entry?_put_self _ _ hne, if_neg (by simp),
              if_pos ⟨hentry, List.prefix_append _ _⟩]
          · rw [entry?_put_of_ne _ _ hpath]
      | some entry =>
          cases entry with
          | file => simp [makeBelow, hentry] at h
          | directory mode' =>
              simp only [makeBelow, hentry] at h
              exact ih hroot ⟨mode', hentry⟩ h

end Disk

namespace Credential

namespace Store

variable {store : Store} {disk after : Disk} {record : Record} {path : Path}

/-- Making the store's directory makes the directories that are missing above the file. -/
theorem entry?_makeParent (hroot : disk.Rooted) (h : store.makeParent disk = .ok after)
    (path : Path) :
    after.entry? path =
      if disk.entry? path = none ∧ path <+: store.path.dropLast
      then some (.directory directoryMode) else disk.entry? path := by
  rw [makeParent] at h
  cases hfind : disk.find store.path.dropLast with
  | ok entry =>
      rw [hfind] at h
      cases h
      rw [if_neg]
      rintro ⟨hnone, hway⟩
      exact hroot.entry?_ne_none hway (Disk.find_ok hfind).2 hnone
  | error fault =>
      rw [hfind] at h
      cases fault with
      | missing => exact Disk.entry?_makeBelow hroot ⟨_, rfl⟩ h path
      | occupied | notDirectory | isDirectory | denied => cases h

/-- All that a save that succeeds leaves on the disk. -/
theorem entry?_saved (hroot : disk.Rooted) (hok : (store.save record disk).2 = .ok ()) :
    Disk.entry? (store.save record disk).1 store.path =
        some (.file (disk.fileModeOr store.draft fileMode) (Text.bytes record.render)) ∧
      Disk.entry? (store.save record disk).1 store.draft = none ∧
      ∀ path, path ≠ store.path → path ≠ store.draft →
        Disk.entry? (store.save record disk).1 path =
          if disk.entry? path = none ∧ path <+: store.path.dropLast
          then some (.directory directoryMode) else disk.entry? path := by
  have hpath := ((save_ok_iff_writable hroot).1 hok).path
  obtain ⟨hfile, hdraft⟩ := entry?_save hroot hpath hok
  refine ⟨hfile, hdraft, fun path hfile hother => ?_⟩
  obtain ⟨made, opened, hmake, hsaved⟩ := save_eq_put hroot hpath hok
  rw [hsaved, Disk.entry?_put_of_ne _ _ hfile, Disk.entry?_erase_of_ne _ hother,
    Disk.entry?_put_of_ne _ _ hother, Disk.entry?_put_of_ne _ _ hother,
    entry?_makeParent hroot hmake]

/-- The bits of the owner. -/
def ownerBits : Nat := 0o700

/-- A mask that leaves the owner's bits alone takes nothing from permissions of the owner alone. -/
theorem ldiff_of_owner {mode umask : Nat} (hmode : mode &&& ownerBits = mode)
    (h : umask &&& ownerBits = 0) : mode.ldiff umask = mode := by
  apply Nat.eq_of_testBit_eq
  intro i
  have howner := congrArg (Nat.testBit · i) hmode
  have hmask := congrArg (Nat.testBit · i) h
  simp only [Nat.testBit_and, Nat.zero_testBit] at howner hmask
  rw [Nat.testBit_ldiff]
  cases hbit : mode.testBit i with
  | false => rfl
  | true =>
      rw [hbit, Bool.true_and] at howner
      rw [howner, Bool.and_true] at hmask
      rw [hmask]
      rfl

/--
After a save that succeeds the file has the permissions of a draft that was left behind, and the
owner's alone if there was none: it is the owner's alone exactly if any such draft was.  Whatever
stood in the file's place does not matter.  The directories that were missing above the file
are made the owner's alone, and nothing else on the disk changes; no mask that leaves the owner's
bits alone changes these permissions.
-/
theorem save_permissions (store : Store) (record : Record) {disk : Disk} (hroot : disk.Rooted)
    (hok : (store.save record disk).2 = .ok ()) :
    let after := (store.save record disk).1
    after.mode? store.path = some (disk.fileModeOr store.draft fileMode) ∧
    (after.mode? store.path = some fileMode ↔
      ∀ mode content, disk.entry? store.draft = some (.file mode content) → mode = fileMode) ∧
    (∀ path, path ≠ store.path → path ≠ store.draft →
      after.entry? path =
        if disk.entry? path = none ∧ path <+: store.path.dropLast
        then some (.directory directoryMode) else disk.entry? path) ∧
    ∀ umask, umask &&& ownerBits = 0 →
      fileMode.ldiff umask = fileMode ∧ directoryMode.ldiff umask = directoryMode := by
  intro after
  obtain ⟨hfile, -, hother⟩ := entry?_saved hroot hok
  have hrooted : after.Rooted := (saveSteps_rooted store record hroot SaveStep.all).1
  have hmode : after.mode? store.path = some (disk.fileModeOr store.draft fileMode) := by
    rw [Disk.mode?, hrooted.find_of_entry? hfile]
  refine ⟨hmode, ?_, hother, fun umask h =>
    ⟨ldiff_of_owner (by decide) h, ldiff_of_owner (by decide) h⟩⟩
  rw [hmode, Option.some.injEq, Disk.fileModeOr]
  cases hdraft : disk.entry? store.draft with
  | none => simp
  | some entry =>
      cases entry with
      | directory => simp
      | file mode content => simp

/-- A directory is missing, another one is not, and the mask takes all but the owner's bits. -/
theorem save_permissions_below_missing :
    let store : Store := ⟨["home", "me", "tokens.json"]⟩
    let disk : Disk := Disk.empty.put ["home"] (.directory 0o755)
    let record : Record := ⟨"a", "r", "Bearer", 1⟩
    let after := (store.save record disk).1
    disk.Rooted ∧ (store.save record disk).2 = .ok () ∧ 0o077 &&& ownerBits = 0 ∧
    after.mode? store.path = some 0o600 ∧
    after.entry? ["home", "me"] = some (.directory 0o700) ∧
    after.entry? ["home"] = some (.directory 0o755) ∧ fileMode.ldiff 0o077 = fileMode := by
  intro store disk record after
  have hroot : disk.Rooted := Disk.empty_rooted.put ⟨_, rfl⟩ (.inl ⟨_, rfl⟩)
  have hok : (store.save record disk).2 = .ok () := by decide +kernel
  obtain ⟨hmode, -, hother, hmask⟩ := save_permissions store record hroot hok
  refine ⟨hroot, hok, by decide, hmode, ?_, ?_, (hmask 0o077 (by decide)).1⟩
  · rw [hother _ (by decide) (by decide), if_pos (by decide)]
    rfl
  · rw [hother _ (by decide) (by decide), if_neg (by decide)]
    rfl

/-- A draft was left behind that anyone may read: so is the file that takes its place. -/
theorem readable_draft_readable_file :
    let store : Store := ⟨["tokens.json"]⟩
    let disk : Disk := Disk.empty.put ["tokens.json.tmp"] (.file 0o644 [])
    let record : Record := ⟨"a", "r", "Bearer", 1⟩
    disk.Rooted ∧ (store.save record disk).2 = .ok () ∧
      (store.save record disk).1.mode? store.path = some 0o644 ∧ 0o644 ≠ fileMode := by
  intro store disk record
  exact ⟨Disk.empty_rooted.put ⟨_, rfl⟩ (.inr nofun), by decide +kernel, by decide +kernel,
    by decide⟩

end Store

end Credential

end ChatGateway
