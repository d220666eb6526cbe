import ChatGateway.Proofs.Results
import ChatGateway.Settings

/-!
# The table of model names

The operator writes aliases as a list with commas.  An entry that is neither blank nor a pair is
refused; otherwise each pair gives its name a model, in place if the name is listed and at the end
of the table if it is not, and the last one for a name counts.
-/

namespace ChatGateway

namespace Model

namespace Alias

/-! ## Entries -/

/-- The entries of a list, blank ones left out. -/
def entriesOf (text : String) : List (List Char) :=
  (text.toList.splitOn ',').filter fun entry => ¬ Text.AllBlank entry

/-- The entry has an equals sign, and more than blanks before the first one and after it. -/
def IsPair (entry : List Char) : Prop :=
  ∃ name model, entry = name ++ '=' :: model ∧ '=' ∉ name ∧
    ¬ Text.AllBlank name ∧ ¬ Text.AllBlank model

/-- The names of the alias stand before and after the first equals sign, with blanks or without. -/
def WrittenIn (held : Alias) (entry : List Char) : Prop :=
  ∃ name model, entry = name ++ '=' :: model ∧ '=' ∉ name ∧
    Text.Trims name held.name.toList ∧ Text.Trims model held.model.toList

theorem isPair_iff {entry : List Char} :
    IsPair entry ↔ ∃ held : Alias, held.WrittenIn entry := by
  constructor
  · rintro ⟨name, model, hentry, hfree, hname, hmodel⟩
    refine ⟨⟨.ofList (Text.trimList name), .ofList (Text.trimList model)⟩, name, model, hentry,
      hfree, ?_, ?_⟩
    · exact Text.trims_iff.2 ⟨hname, String.toList_ofList.symm⟩
    · exact Text.trims_iff.2 ⟨hmodel, String.toList_ofList.symm⟩
  · rintro ⟨held, name, model, hentry, hfree, hname, hmodel⟩
    exact ⟨name, model, hentry, hfree, (Text.trims_iff.1 hname).1, (Text.trims_iff.1 hmodel).1⟩

theorem ofEntry?_eq_some {entry : List Char} {held : Alias} :
    ofEntry? entry = some held ↔ held.WrittenIn entry := by
  constructor
  · intro h
    unfold ofEntry? at h
    split at h
    · cases h
    next name model hcut =>
      obtain ⟨hentry, hfree⟩ := Text.cut_eq_some.1 hcut
      simp only [Bool.or_eq_true, List.isEmpty_iff, Text.trimList_eq_nil] at h
      split at h
      · cases h
      next hparts =>
        obtain ⟨hname, hmodel⟩ := not_or.1 hparts
        cases h
        refine ⟨name, model, hentry, hfree, ?_, ?_⟩
        · exact Text.trims_iff.2 ⟨hname, String.toList_ofList.symm⟩
        · exact Text.trims_iff.2 ⟨hmodel, String.toList_ofList.symm⟩
  · rintro ⟨name, model, hentry, hfree, hname, hmodel⟩
    unfold ofEntry?
    rw [Text.cut_eq_some.2 ⟨hentry, hfree⟩]
    simp only [(Text.trims_iff.1 hname).2, (Text.trims_iff.1 hmodel).2, Bool.or_eq_true,
      List.isEmpty_iff, hname.1.ne_nil, hmodel.1.ne_nil, or_self, if_false, String.ofList_toList]

theorem isPair_iff_ne_none {entry : List Char} : IsPair entry ↔ ofEntry? entry ≠ none := by
  rw [isPair_iff, Option.ne_none_iff_exists']
  simp only [ofEntry?_eq_some]

instance (entry : List Char) : Decidable (IsPair entry) :=
  decidable_of_iff' _ isPair_iff_ne_none

theorem equals_not_mem {text : List Char} (h : Text.AllBlank text) : '=' ∉ text := by
  intro hmem
  have hblank := h _ hmem
  revert hblank
  decide

/-- Blanks around an entry do not change the alias that is written in it. -/
theorem writtenIn_around {lead entry tail : List Char} {held : Alias} (hlead : Text.AllBlank lead)
    (htail : Text.AllBlank tail) :
    held.WrittenIn (lead ++ entry ++ tail) ↔ held.WrittenIn entry := by
  have hnone : Text.AllBlank [] := nofun
  have hnames (name model : List Char) :
      (Text.Trims (lead ++ name) held.name.toList ↔ Text.Trims name held.name.toList) ∧
      (Text.Trims (model ++ tail) held.model.toList ↔ Text.Trims model held.model.toList) := by
    have hfront : Text.Trims (lead ++ name ++ []) held.name.toList ↔
        Text.Trims name held.name.toList := Text.trims_around hlead hnone
    rw [List.append_nil] at hfront
    exact ⟨hfront, Text.trims_around hnone htail⟩
  constructor
  · rintro ⟨name, model, hentry, hfree, hname, hmodel⟩
    have hcut := Text.cut_eq_some.2 ⟨hentry, hfree⟩
    have hsign : '=' ∈ entry := by
      have hmem : '=' ∈ lead ++ entry ++ tail := by simp [hentry]
      simpa [equals_not_mem hlead, equals_not_mem htail] using hmem
    obtain ⟨first, second, rfl, hfirst⟩ := List.eq_append_cons_of_mem hsign
    have hwhole : Text.cut '=' (lead ++ (first ++ '=' :: second) ++ tail) =
        some (lead ++ first, second ++ tail) :=
      Text.cut_eq_some.2 ⟨by simp, by simp [equals_not_mem hlead, hfirst]⟩
    rw [hwhole] at hcut
    cases hcut
    exact ⟨first, second, rfl, hfirst, (hnames first second).1.1 hname,
      (hnames first second).2.1 hmodel⟩
  · rintro ⟨name, model, rfl, hfree, hname, hmodel⟩
    refine ⟨lead ++ name, model ++ tail, by simp, by simp [equals_not_mem hlead, hfree], ?_, ?_⟩
    · exact (hnames name model).1.2 hname
    · exact (hnames name model).2.2 hmodel

theorem ofEntry?_trimList (entry : List Char) :
    ofEntry? (Text.trimList entry) = ofEntry? entry := by
  obtain ⟨lead, tail, hlead, htail, hentry⟩ := Text.exists_around_trimList entry
  ext held
  rw [ofEntry?_eq_some, ofEntry?_eq_some]
  conv => rhs; rw [hentry]
  exact (writtenIn_around hlead htail).symm

/-! ## Lists of entries -/

/-- The alias of an entry, or the failure that names the entry. -/
def readEntry (entry : List Char) : Except Failure Alias :=
  match ofEntry? entry with
  | some held => .ok held
  | none => .error (malformed (Text.trimList entry))

theorem readEntry_eq_ok {entry : List Char} {held : Alias} :
    readEntry entry = .ok held ↔ held.WrittenIn entry := by
  rw [readEntry, ← ofEntry?_eq_some]
  cases ofEntry? entry <;> simp

theorem readEntry_eq_error {entry : List Char} {failure : Failure} :
    readEntry entry = .error failure ↔
      ¬ IsPair entry ∧ failure = malformed (Text.trimList entry) := by
  rw [isPair_iff, not_exists]
  simp only [← ofEntry?_eq_some]
  rw [readEntry]
  cases ofEntry? entry <;> simp [eq_comm]

theorem ofList_eq (text : String) : ofList text = (entriesOf text).mapM readEntry := by
  have hblank : ((fun entry : List Char => !entry.isEmpty) ∘ Text.trimList) =
      fun entry => decide (¬ Text.AllBlank entry) := by
    funext entry
    by_cases hall : Text.AllBlank entry
    · simp [hall, Text.trimList_eq_nil.2 hall]
    · simp [hall, mt Text.trimList_eq_nil.1 hall]
  rw [ofList, Text.splitAll_eq_splitOn, List.filter_map, hblank, List.mapM_map, entriesOf]
  congr 1
  funext entry
  rw [Function.comp_apply, ofEntry?_trimList]
  rfl

/-- A list is read if every entry is a pair, and gives the aliases written in them, in order. -/
theorem ofList_eq_ok {text : String} {aliases : List Alias} :
    ofList text = .ok aliases ↔
      List.Forall₂ (fun entry held => held.WrittenIn entry) (entriesOf text) aliases := by
  rw [ofList_eq, mapM_eq_ok]
  simp only [readEntry_eq_ok]

/-- A list is refused for its first entry that is no pair, and the failure names that entry. -/
theorem ofList_eq_error {text : String} {failure : Failure} :
    ofList text = .error failure ↔
      ∃ before entry after, entriesOf text = before ++ entry :: after ∧
        (¬ IsPair entry ∧ failure = malformed (Text.trimList entry)) ∧
        ∀ other ∈ before, IsPair other := by
  rw [ofList_eq, mapM_eq_error]
  simp only [readEntry_eq_ok, readEntry_eq_error, isPair_iff]

theorem ofList_error_configuration {text : String} {failure : Failure}
    (h : ofList text = .error failure) : ∃ reason, failure = .configuration reason := by
  obtain ⟨-, entry, -, -, ⟨-, rfl⟩, -⟩ := ofList_eq_error.1 h
  exact ⟨_, rfl⟩

theorem mem_entriesOf {text : String} {entry : List Char} :
    entry ∈ entriesOf text ↔ entry ∈ text.toList.splitOn ',' ∧ ¬ Text.AllBlank entry := by
  simp [entriesOf]

/-- A list is refused if an entry is neither blank nor a pair. -/
theorem ofList_refused_iff {text : String} :
    (∃ reason, ofList text = .error (.configuration reason)) ↔
      ∃ entry ∈ text.toList.splitOn ',', ¬ Text.AllBlank entry ∧ ¬ IsPair entry := by
  constructor
  · rintro ⟨reason, hrefused⟩
    obtain ⟨before, entry, after, hentries, ⟨hpair, -⟩, -⟩ := ofList_eq_error.1 hrefused
    have hmem : entry ∈ entriesOf text := by simp [hentries]
    obtain ⟨hentry, hblank⟩ := mem_entriesOf.1 hmem
    exact ⟨entry, hentry, hblank, hpair⟩
  · rintro ⟨entry, hentry, hblank, hpair⟩
    cases hread : ofList text with
    | error failure =>
        obtain ⟨reason, rfl⟩ := ofList_error_configuration hread
        exact ⟨reason, rfl⟩
    | ok aliases =>
        have hwritten : List.Forall₂ WrittenIn aliases (entriesOf text) :=
          (ofList_eq_ok.1 hread).flip
        obtain ⟨held, -, hheld⟩ :=
          exists_of_mem_right hwritten (mem_entriesOf.2 ⟨hentry, hblank⟩)
        exact absurd (isPair_iff.2 ⟨held, hheld⟩) hpair

theorem ofList_of_blank {text : String} (h : Text.isAllBlank text = true) :
    ofList text = .ok [] := by
  have hall : Text.AllBlank text.toList := List.all_eq_true.1 h
  have hone : ',' ∉ text.toList := by
    intro hmem
    have hblank := hall _ hmem
    revert hblank
    decide
  rw [ofList_eq_ok, entriesOf, List.splitOn_eq_singleton hone]
  simp [hall]

/-! ## Writing a list -/

/-- An alias as an entry without blanks around its names. -/
def toEntry (held : Alias) : List Char :=
  held.name.toList ++ '=' :: held.model.toList

/-- Aliases as a list with commas between the entries. -/
def listed (aliases : List Alias) : String :=
  .ofList ([','].intercalate (aliases.map toEntry))

/-- Names that can stand in an entry: they are something, and no mark or outer blank is in them. -/
structure Writable (held : Alias) : Prop where
  name : Text.Bare held.name.toList
  model : Text.Bare held.model.toList
  nameFree : ',' ∉ held.name.toList ∧ '=' ∉ held.name.toList
  modelFree : ',' ∉ held.model.toList

instance (held : Alias) : Decidable held.Writable :=
  decidable_of_iff (Text.Bare held.name.toList ∧ Text.Bare held.model.toList ∧
      (',' ∉ held.name.toList ∧ '=' ∉ held.name.toList) ∧ ',' ∉ held.model.toList)
    ⟨fun ⟨name, model, nameFree, modelFree⟩ => ⟨name, model, nameFree, modelFree⟩,
      fun h => ⟨h.name, h.model, h.nameFree, h.modelFree⟩⟩

theorem Writable.writtenIn {held : Alias} (h : held.Writable) : held.WrittenIn held.toEntry :=
  have hnone : Text.AllBlank [] := nofun
  ⟨_, _, rfl, h.nameFree.2, ⟨h.name, [], [], hnone, hnone, by simp⟩,
    ⟨h.model, [], [], hnone, hnone, by simp⟩⟩

theorem Writable.not_allBlank {held : Alias} (h : held.Writable) :
    ¬ Text.AllBlank held.toEntry :=
  fun hall => h.name.not_allBlank (Text.allBlank_append.1 hall).1

theorem entriesOf_listed {aliases : List Alias} (h : ∀ held ∈ aliases, held.Writable) :
    entriesOf (listed aliases) = aliases.map toEntry := by
  rw [entriesOf, listed, String.toList_ofList]
  by_cases hnone : aliases = []
  · subst hnone
    decide
  · rw [List.splitOn_intercalate]
    · rw [List.filter_eq_self]
      intro entry hentry
      obtain ⟨held, hheld, rfl⟩ := List.mem_map.1 hentry
      simpa using (h held hheld).not_allBlank
    · intro entry hentry
      obtain ⟨held, hheld, rfl⟩ := List.mem_map.1 hentry
      simp [toEntry, (h held hheld).nameFree.1, (h held hheld).modelFree]
    · simpa using hnone

/-- What is written is read back. -/
theorem ofList_listed {aliases : List Alias} (h : ∀ held ∈ aliases, held.Writable) :
    ofList (listed aliases) = .ok aliases := by
  rw [ofList_eq_ok, entriesOf_listed h, List.forall₂_map_left_iff, List.forall₂_same]
  exact fun held hheld => (h held hheld).writtenIn

end Alias

/-! ## The registry -/

namespace Registry

variable {registry : Registry} {overrides : List Alias} {entry : Alias} {name : String}

theorem find?_set : (registry.set entry).find? (fun held => held.name = name) =
    if entry.name = name then some entry else registry.find? fun held => held.name = name := by
  induction registry with
  | nil => by_cases hname : entry.name = name <;> simp [set, hname]
  | cons held rest ih =>
      rw [set]
      by_cases hheld : held.name = entry.name
      · by_cases hname : entry.name = name <;> simp [hheld, hname]
      · rw [if_neg hheld, List.find?_cons, List.find?_cons, ih]
        by_cases hname : held.name = name
        · have hother : ¬ entry.name = name := fun heq => hheld (hname.trans heq.symm)
          simp [hname, hother]
        · simp [hname]

theorem names_set : (registry.set entry).map Alias.name =
    if entry.name ∈ registry.map Alias.name then registry.map Alias.name
    else registry.map Alias.name ++ [entry.name] := by
  induction registry with
  | nil => rfl
  | cons held rest ih =>
      rw [set]
      by_cases hheld : held.name = entry.name
      · simp [hheld]
      · have hother : ¬ entry.name = held.name := fun heq => hheld heq.symm
        rw [if_neg hheld, List.map_cons, ih, List.map_cons]
        simp only [List.mem_cons, hother, false_or]
        split <;> rfl

/-- The last of the entries for a name. -/
def lastFor? (entries : List Alias) (name : String) : Option Alias :=
  (entries.filter fun entry => entry.name = name).getLast?

/-- Of several overrides for a name the last one counts, and one counts before the table. -/
theorem find?_overridden (registry : Registry) (overrides : List Alias) (name : String) :
    (overrides.foldl (fun registry entry => registry.set entry) registry).find?
        (fun held => held.name = name) =
      (lastFor? overrides name).or (registry.find? fun held => held.name = name) := by
  induction overrides generalizing registry with
  | nil => rfl
  | cons entry rest ih =>
      rw [List.foldl_cons, ih, find?_set, lastFor?, lastFor?]
      by_cases hname : entry.name = name
      · rw [List.filter_cons_of_pos (by simpa using hname), List.getLast?_cons, if_pos hname]
        cases (rest.filter fun entry => entry.name = name).getLast? <;> rfl
      · rw [List.filter_cons_of_neg (by simpa using hname), if_neg hname]

/-- The table keeps its names in their places; new names follow as they first came. -/
theorem names_overridden (registry : Registry) (overrides : List Alias) :
    (overrides.foldl (fun registry entry => registry.set entry) registry).map Alias.name =
      registry.map Alias.name ++
        ((overrides.map Alias.name).removeAll (registry.map Alias.name)).eraseDups := by
  induction overrides generalizing registry with
  | nil => simp
  | cons entry rest ih =>
      rw [List.foldl_cons, ih, names_set, List.map_cons, List.cons_removeAll]
      by_cases hlisted : entry.name ∈ registry.map Alias.name
      · simp [hlisted]
      · have hrest : (rest.map Alias.name).removeAll (registry.map Alias.name ++ [entry.name]) =
            ((rest.map Alias.name).removeAll (registry.map Alias.name)).filter
              fun name => !name == entry.name := by
          rw [List.removeAll, List.removeAll, List.filter_filter]
          congr 1
          funext name
          by_cases hname : name = entry.name <;> simp [hname]
        simp only [hlisted, List.contains_eq_mem, decide_false, if_true, if_false,
          List.eraseDups_cons, hrest, List.append_assoc, List.singleton_append]

theorem nodup_set (h : (registry.map Alias.name).Nodup) :
    ((registry.set entry).map Alias.name).Nodup := by
  rw [names_set]
  split
  · exact h
  next hnew =>
    rw [List.nodup_append]
    refine ⟨h, by simp, fun name hname other hother => ?_⟩
    rw [List.mem_singleton.1 hother]
    exact fun heq => hnew (heq ▸ hname)

theorem nodup_overridden (overrides : List Alias) (h : (registry.map Alias.name).Nodup) :
    ((overrides.foldl (fun registry entry => registry.set entry) registry).map Alias.name).Nodup := by
  induction overrides generalizing registry with
  | nil => exact h
  | cons entry rest ih => exact ih (nodup_set h)

theorem nodup_builtin : (builtin.map Alias.name).Nodup := by
  decide

theorem find?_of_mem (h : (registry.map Alias.name).Nodup) (hmem : entry ∈ registry) :
    registry.find? (fun held => held.name = entry.name) = some entry := by
  induction registry with
  | nil => cases hmem
  | cons held rest ih =>
      rw [List.map_cons, List.nodup_cons] at h
      rcases List.mem_cons.1 hmem with rfl | hrest
      · exact List.find?_cons_of_pos (by simp)
      · have hne : held.name ≠ entry.name := fun heq =>
          h.1 (heq ▸ List.mem_map_of_mem hrest)
        rw [List.find?_cons_of_neg (by simpa using hne), ih h.2 hrest]

/-- A table that lists each name once gives just what it lists. -/
theorem resolve_eq_ok {model : String} (h : (registry.map Alias.name).Nodup) :
    registry.resolve name = .ok model ↔ ⟨name, model⟩ ∈ registry := by
  constructor
  · intro hresolve
    rw [resolve] at hresolve
    split at hresolve
    next held hfind =>
      cases hresolve
      have hname : held.name = name := by simpa using List.find?_some hfind
      rw [← hname]
      exact List.mem_of_find?_eq_some hfind
    next => cases hresolve
  · intro hmem
    rw [resolve, find?_of_mem h hmem]

/-- A table of the built-in names with overrides: what it lists, in which order, and what it gives. -/
structure Overridden (registry : Registry) (overrides : List Alias) : Prop where
  distinct : (registry.map Alias.name).Nodup
  names : registry.map Alias.name =
    builtin.map Alias.name ++
      ((overrides.map Alias.name).removeAll (builtin.map Alias.name)).eraseDups
  resolve : ∀ name, registry.resolve name =
    ((lastFor? overrides name).or (builtin.find? fun held => held.name = name)).elim
      (.error (.unknownModel name)) fun held => .ok held.model
  listed : ∀ name model, registry.resolve name = .ok model ↔ ⟨name, model⟩ ∈ registry

theorem ofOverrides_overridden (overrides : List Alias) :
    (ofOverrides overrides).Overridden overrides where
  distinct := nodup_overridden overrides nodup_builtin
  names := names_overridden builtin overrides
  resolve name := by
    rw [Registry.resolve, ofOverrides, find?_overridden]
    cases (lastFor? overrides name).or (builtin.find? fun held => held.name = name) <;> rfl
  listed name model := resolve_eq_ok (nodup_overridden overrides nodup_builtin)

end Registry

end Model

namespace Settings

open Model

/-- Settings with a list of aliases are those without it, but for the aliases. -/
theorem ofVariables_aliases {directory text : String} {lookup : String -> Option String}
    {settings : Settings} (htext : lookup "MODEL_ALIASES" = some text)
    (hothers : ofVariables directory
      (fun name => if name = "MODEL_ALIASES" then none else lookup name) = .ok settings) :
    ofVariables directory lookup =
      (Alias.ofList text).map fun aliases => { settings with aliases } := by
  unfold ofVariables at hothers ⊢
  simp only [htext, String.reduceEq, if_true, if_false] at hothers ⊢
  obtain ⟨tcpPort, htcpPort, hothers⟩ := bind_eq_ok.1 hothers
  obtain ⟨requestTimeout, hrequestTimeout, hothers⟩ := bind_eq_ok.1 hothers
  obtain ⟨idleTimeout, hidleTimeout, hothers⟩ := bind_eq_ok.1 hothers
  cases hothers
  rw [htcpPort, hrequestTimeout, hidleTimeout, Option.filter_some]
  cases hblank : Text.isAllBlank text with
  | true =>
      -- A list of blanks counts as missing, and it has no entries.
      rw [Alias.ofList_of_blank hblank]
      rfl
  | false =>
      rw [if_pos (by rfl)]
      dsimp only
      cases Alias.ofList text <;> rfl

/--
The table from the variable to the names.  Settings that read without the variable read with it
just as far as its text does.  The text is refused if one of its entries is neither blank nor a
pair; otherwise it gives the aliases written in its entries, and the table has them over the
built-in ones.  Aliases that can be written are read back from the list of them.
-/
theorem registry_of_variable (text : String) :
    (∀ directory lookup settings, lookup "MODEL_ALIASES" = some text →
      ofVariables directory
        (fun name => if name = "MODEL_ALIASES" then none else lookup name) = .ok settings →
      ofVariables directory lookup =
        (Alias.ofList text).map fun aliases => { settings with aliases }) ∧
    ((∃ reason, Alias.ofList text = .error (.configuration reason)) ↔
      ∃ entry ∈ text.toList.splitOn ',', ¬ Text.AllBlank entry ∧ ¬ Alias.IsPair entry) ∧
    ((∀ entry ∈ text.toList.splitOn ',', Text.AllBlank entry ∨ Alias.IsPair entry) →
      ∃ aliases, Alias.ofList text = .ok aliases ∧
        List.Forall₂ (fun entry held => held.WrittenIn entry) (Alias.entriesOf text) aliases ∧
        (Registry.ofOverrides aliases).Overridden aliases) ∧
    ∀ aliases, (∀ held ∈ aliases, held.Writable) →
      Alias.ofList (Alias.listed aliases) = .ok aliases := by
  refine ⟨fun _ _ _ => ofVariables_aliases, Alias.ofList_refused_iff, fun hpairs => ?_,
    fun _ => Alias.ofList_listed⟩
  cases hread : Alias.ofList text with
  | error failure =>
      obtain ⟨reason, rfl⟩ := Alias.ofList_error_configuration hread
      obtain ⟨entry, hentry, hblank, hpair⟩ := Alias.ofList_refused_iff.1 ⟨reason, hread⟩
      exact absurd (hpairs entry hentry) (not_or.2 ⟨hblank, hpair⟩)
  | ok aliases =>
      exact ⟨aliases, rfl, Alias.ofList_eq_ok.1 hread, Registry.ofOverrides_overridden aliases⟩

theorem registry_of_variable_replaced :
    ∃ settings,
      ofVariables "/home/operator" (fun name =>
        if name = "MODEL_ALIASES" then some " fast = a=b ,, claude-opus=c,fast=d" else none) =
          .ok settings ∧
      settings.aliases = [⟨"fast", "a=b"⟩, ⟨"claude-opus", "c"⟩, ⟨"fast", "d"⟩] ∧
      (Registry.ofOverrides settings.aliases).Overridden settings.aliases ∧
      Alias.ofList (Alias.listed settings.aliases) = .ok settings.aliases := by
  obtain ⟨hvariable, -, htable, hlisted⟩ :=
    registry_of_variable " fast = a=b ,, claude-opus=c,fast=d"
  obtain ⟨aliases, hread, -, hoverridden⟩ := htable (by decide +kernel)
  have haliases : aliases = [⟨"fast", "a=b"⟩, ⟨"claude-opus", "c"⟩, ⟨"fast", "d"⟩] := by
    have hrun : Alias.ofList " fast = a=b ,, claude-opus=c,fast=d" =
        .ok [⟨"fast", "a=b"⟩, ⟨"claude-opus", "c"⟩, ⟨"fast", "d"⟩] := by
      decide +kernel
    exact Except.ok.inj (hread.symm.trans hrun)
  obtain ⟨settings, hothers⟩ : ∃ settings, ofVariables "/home/operator" (fun name =>
      if name = "MODEL_ALIASES" then none else
        if name = "MODEL_ALIASES" then some " fast = a=b ,, claude-opus=c,fast=d" else none) =
      .ok settings := ⟨_, rfl⟩
  refine ⟨{ settings with aliases }, ?_, haliases, hoverridden, hlisted aliases ?_⟩
  · rw [hvariable _ _ _ (if_pos rfl) hothers, hread]
    rfl
  · rw [haliases]
    decide +kernel

end Settings

end ChatGateway
