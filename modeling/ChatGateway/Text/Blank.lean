/-!
# Blank characters

The characters with the Unicode property `White_Space`, and trimming by them.
-/

namespace ChatGateway

namespace Text

/-- The property `White_Space`. -/
def isBlank (c : Char) : Bool :=
  let v := c.toNat
  (0x09 ≤ v && v ≤ 0x0D) || v = 0x20 || v = 0x85 || v = 0xA0 || v = 0x1680 ||
    (0x2000 ≤ v && v ≤ 0x200A) || v = 0x2028 || v = 0x2029 || v = 0x202F ||
    v = 0x205F || v = 0x3000

/-- The list without the elements at its end that satisfy `p`. -/
def dropEndWhile (p : Char -> Bool) (text : List Char) : List Char :=
  (text.reverse.dropWhile p).reverse

/-- The list without the blank characters at both ends. -/
def trimList (text : List Char) : List Char :=
  dropEndWhile isBlank (text.dropWhile isBlank)

/-- Nothing is left of the text after trimming. -/
def isAllBlank (text : String) : Bool :=
  text.toList.all isBlank

/-! ## What trimming leaves -/

/-- No character of the text is other than blank. -/
def AllBlank (text : List Char) : Prop :=
  ∀ c ∈ text, isBlank c = true

instance (text : List Char) : Decidable (AllBlank text) :=
  decidable_of_iff (text.all isBlank = true) List.all_eq_true

/-- The text is something, with no blank character at either end. -/
structure Bare (text : List Char) : Prop where
  ne_nil : text ≠ []
  first : ∀ c ∈ text.head?, isBlank c = false
  last : ∀ c ∈ text.getLast?, isBlank c = false

instance (text : List Char) : Decidable (Bare text) :=
  decidable_of_iff (text ≠ [] ∧ text.head?.any isBlank = false ∧ text.getLast?.any isBlank = false)
    ⟨fun ⟨ne_nil, first, last⟩ =>
        ⟨ne_nil, (Option.any_eq_false _ _).1 first, (Option.any_eq_false _ _).1 last⟩,
      fun h => ⟨h.ne_nil, (Option.any_eq_false _ _).2 h.first, (Option.any_eq_false _ _).2 h.last⟩⟩

theorem allBlank_append {first second : List Char} :
    AllBlank (first ++ second) ↔ AllBlank first ∧ AllBlank second := by
  simp [AllBlank, or_imp, forall_and]

theorem allBlank_takeWhile (text : List Char) : AllBlank (text.takeWhile isBlank) :=
  List.all_eq_true.1 List.all_takeWhile

theorem Bare.not_allBlank {text : List Char} (h : Bare text) : ¬ AllBlank text := by
  obtain ⟨c, rest, rfl⟩ := List.exists_cons_of_ne_nil h.ne_nil
  intro hall
  have hblank := hall c List.mem_cons_self
  rw [h.first c rfl] at hblank
  cases hblank

/-- Only blank characters are taken off. -/
theorem exists_around_trimList (text : List Char) :
    ∃ lead tail, AllBlank lead ∧ AllBlank tail ∧ text = lead ++ trimList text ++ tail := by
  have hfront := List.takeWhile_append_dropWhile (p := isBlank) (l := text)
  have hback := List.takeWhile_append_dropWhile (p := isBlank)
    (l := (text.dropWhile isBlank).reverse)
  refine ⟨text.takeWhile isBlank, ((text.dropWhile isBlank).reverse.takeWhile isBlank).reverse,
    allBlank_takeWhile text, fun c hc => ?_, ?_⟩
  · exact allBlank_takeWhile _ c (List.mem_reverse.1 hc)
  · rw [trimList, dropEndWhile, List.append_assoc, ← List.reverse_append, hback,
      List.reverse_reverse, hfront]

theorem trimList_append_left {lead : List Char} (h : AllBlank lead) (text : List Char) :
    trimList (lead ++ text) = trimList text := by
  rw [trimList, trimList, List.dropWhile_append_of_pos h]

theorem dropWhile_of_bare {text : List Char} (h : Bare text) (rest : List Char) :
    (text ++ rest).dropWhile isBlank = text ++ rest := by
  obtain ⟨c, more, rfl⟩ := List.exists_cons_of_ne_nil h.ne_nil
  exact List.dropWhile_cons_of_neg (by simp [h.first c rfl])

theorem Bare.reverse {text : List Char} (h : Bare text) : Bare text.reverse where
  ne_nil := by simpa using h.ne_nil
  first := by simpa using h.last
  last := by simpa using h.first

/-- What has blanks around it is what trimming leaves. -/
theorem trimList_around {lead core tail : List Char} (hlead : AllBlank lead) (hcore : Bare core)
    (htail : AllBlank tail) : trimList (lead ++ core ++ tail) = core := by
  have hback : AllBlank tail.reverse := fun c hc => htail c (List.mem_reverse.1 hc)
  have hreverse := dropWhile_of_bare hcore.reverse []
  rw [List.append_nil] at hreverse
  rw [List.append_assoc, trimList_append_left hlead, trimList, dropWhile_of_bare hcore,
    dropEndWhile, List.reverse_append, List.dropWhile_append_of_pos hback, hreverse,
    List.reverse_reverse]

theorem trimList_eq_nil {text : List Char} : trimList text = [] ↔ AllBlank text := by
  constructor
  · intro h
    obtain ⟨lead, tail, hlead, htail, htext⟩ := exists_around_trimList text
    rw [h, List.append_nil] at htext
    rw [htext]
    exact allBlank_append.2 ⟨hlead, htail⟩
  · intro h
    rw [← List.append_nil text, trimList_append_left h]
    rfl

theorem not_blank_of_head? {text : List Char} {c : Char}
    (h : c ∈ (text.dropWhile isBlank).head?) : isBlank c = false := by
  have hfirst := List.head?_dropWhile_not isBlank text
  rw [Option.mem_def.1 h] at hfirst
  exact hfirst

/-- What trimming leaves has no blank at either end, unless nothing is left. -/
theorem bare_trimList {text : List Char} (h : ¬ AllBlank text) : Bare (trimList text) := by
  have hne : trimList text ≠ [] := fun hnil => h (trimList_eq_nil.1 hnil)
  refine ⟨hne, fun c hc => ?_, fun c hc => ?_⟩
  · -- The characters taken off the end do not change which one is the first.
    have hback := List.takeWhile_append_dropWhile (p := isBlank)
      (l := (text.dropWhile isBlank).reverse)
    have hwhole := congrArg (fun found => found.reverse.head?) hback
    rw [List.reverse_append, List.reverse_reverse, List.head?_append] at hwhole
    refine @not_blank_of_head? text c ?_
    rw [← hwhole]
    exact Option.mem_def.2 (by rw [← dropEndWhile, ← trimList, Option.mem_def.1 hc]; rfl)
  · rw [trimList, dropEndWhile, List.getLast?_reverse] at hc
    exact not_blank_of_head? hc

/-- The name is what the text holds between blanks, if it holds anything. -/
def Trims (text name : List Char) : Prop :=
  Bare name ∧ ∃ lead tail, AllBlank lead ∧ AllBlank tail ∧ text = lead ++ name ++ tail

theorem trims_iff {text name : List Char} :
    Trims text name ↔ ¬ AllBlank text ∧ trimList text = name := by
  constructor
  · rintro ⟨hname, lead, tail, hlead, htail, rfl⟩
    refine ⟨fun hall => hname.not_allBlank ?_, trimList_around hlead hname htail⟩
    exact (allBlank_append.1 (allBlank_append.1 hall).1).2
  · rintro ⟨htext, rfl⟩
    exact ⟨bare_trimList htext, exists_around_trimList text⟩

/-- Blanks around a text change nothing of what it holds between blanks. -/
theorem trims_around {lead text tail name : List Char} (hlead : AllBlank lead)
    (htail : AllBlank tail) : Trims (lead ++ text ++ tail) name ↔ Trims text name := by
  have hwider {found : List Char} (h : Trims text found) : Trims (lead ++ text ++ tail) found := by
    obtain ⟨hfound, front, back, hfront, hback, rfl⟩ := h
    refine ⟨hfound, lead ++ front, back ++ tail, allBlank_append.2 ⟨hlead, hfront⟩,
      allBlank_append.2 ⟨hback, htail⟩, ?_⟩
    simp only [List.append_assoc]
  refine ⟨fun h => ?_, hwider⟩
  have htext : ¬ AllBlank text := fun hall =>
    (trims_iff.1 h).1 (allBlank_append.2 ⟨allBlank_append.2 ⟨hlead, hall⟩, htail⟩)
  have hsame := (trims_iff.1 (hwider (trims_iff.2 ⟨htext, rfl⟩))).2
  exact trims_iff.2 ⟨htext, hsame.symm.trans (trims_iff.1 h).2⟩

end Text

end ChatGateway
