/-!
# Splitting texts

Cutting a text at a separator, and taking known beginnings and endings off it.
-/

namespace ChatGateway

namespace Text

/-- The parts before and after the first `mark`, if it occurs. -/
def cut (mark : Char) (text : List Char) : Option (List Char × List Char) :=
  match text.dropWhile (· ≠ mark) with
  | [] => none
  | _ :: right => some (text.takeWhile (· ≠ mark), right)

theorem forall_ne_of_not_mem {mark : Char} {text : List Char} (h : mark ∉ text) :
    ∀ c ∈ text, decide (c ≠ mark) = true := by
  intro c hc
  have hne : c ≠ mark := fun heq => h (heq ▸ hc)
  simpa using hne

theorem cut_append {mark : Char} {left : List Char} (right : List Char) (h : mark ∉ left) :
    cut mark (left ++ mark :: right) = some (left, right) := by
  have hfree := forall_ne_of_not_mem h
  unfold cut
  rw [List.dropWhile_append_of_pos hfree, List.takeWhile_append_of_pos hfree]
  simp

theorem cut_eq_none {mark : Char} {text : List Char} : cut mark text = none ↔ mark ∉ text := by
  constructor
  · intro h hmem
    obtain ⟨left, right, rfl, hfree⟩ := List.eq_append_cons_of_mem hmem
    rw [cut_append right hfree] at h
    cases h
  · intro h
    have hback : (text ++ []).dropWhile (· ≠ mark) = List.dropWhile (· ≠ mark) [] :=
      List.dropWhile_append_of_pos (forall_ne_of_not_mem h)
    rw [List.append_nil, List.dropWhile_nil] at hback
    rw [cut, hback]

theorem cut_eq_some {mark : Char} {text left right : List Char} :
    cut mark text = some (left, right) ↔ text = left ++ mark :: right ∧ mark ∉ left := by
  refine ⟨fun h => ?_, fun ⟨htext, hfree⟩ => htext ▸ cut_append right hfree⟩
  by_cases hmem : mark ∈ text
  · obtain ⟨before, after, rfl, hfree⟩ := List.eq_append_cons_of_mem hmem
    rw [cut_append after hfree] at h
    cases h
    exact ⟨rfl, hfree⟩
  · rw [cut_eq_none.2 hmem] at h
    cases h

/-- The parts between the marks; `part` and `parts` hold what came before, reversed. -/
def splitFrom (mark : Char) (part : List Char) (parts : List (List Char)) :
    List Char -> List (List Char)
  | [] => (part.reverse :: parts).reverse
  | c :: rest =>
      if c = mark then splitFrom mark [] (part.reverse :: parts) rest
      else splitFrom mark (c :: part) parts rest

/-- The parts between the occurrences of `mark`; one more than it has occurrences. -/
def splitAll (mark : Char) (text : List Char) : List (List Char) :=
  splitFrom mark [] [] text

theorem splitFrom_eq (mark : Char) (part : List Char) (parts : List (List Char))
    (text : List Char) :
    splitFrom mark part parts text =
      parts.reverse ++ (text.splitOn mark).modifyHead (part.reverse ++ ·) := by
  induction text generalizing part parts with
  | nil => simp [splitFrom]
  | cons c rest ih =>
      rw [splitFrom, List.splitOn_cons_eq_if_modifyHead]
      by_cases hmark : c = mark
      · have hsame := congrFun List.modifyHead_id (rest.splitOn mark)
        simp only [hmark, if_true, beq_self_eq_true, ih, List.modifyHead_cons, List.reverse_cons,
          List.append_assoc, List.singleton_append, List.append_nil]
        exact congrArg (parts.reverse ++ part.reverse :: ·) hsame
      · rw [if_neg hmark, if_neg (by simpa using hmark), ih, List.modifyHead_modifyHead]
        simp [Function.comp_def]

theorem splitAll_eq_splitOn (mark : Char) (text : List Char) :
    splitAll mark text = text.splitOn mark := by
  rw [splitAll, splitFrom_eq]
  exact congrFun List.modifyHead_id (text.splitOn mark)

/-- The part after a known beginning. -/
def dropStart? [DecidableEq α] : List α -> List α -> Option (List α)
  | [], text => some text
  | _ :: _, [] => none
  | a :: start, b :: text => if a = b then dropStart? start text else none

@[simp] theorem dropStart?_append [DecidableEq α] (start text : List α) :
    dropStart? start (start ++ text) = some text := by
  induction start with
  | nil => rfl
  | cons a start ih => simp [dropStart?, ih]

theorem dropStart?_eq_some [DecidableEq α] {start text rest : List α} :
    dropStart? start text = some rest ↔ text = start ++ rest := by
  constructor
  · intro h
    induction start generalizing text with
    | nil =>
        simpa [dropStart?] using h
    | cons a start ih =>
        cases text with
        | nil =>
            simp [dropStart?] at h
        | cons b text =>
            by_cases hab : a = b
            · simp only [dropStart?, hab, if_true] at h
              rw [hab, ih h, List.cons_append]
            · simp [dropStart?, hab] at h
  · rintro rfl
    exact dropStart?_append start rest

theorem eq_append_ofList {text start : String} {rest : List Char}
    (h : text.toList = start.toList ++ rest) : text = start ++ String.ofList rest := by
  rw [← String.toList_inj, h, String.toList_append, String.toList_ofList]

/-- The part before a known ending. -/
def dropEnd? [DecidableEq α] (ending text : List α) : Option (List α) :=
  (dropStart? ending.reverse text.reverse).map List.reverse

theorem dropEnd?_eq_some [DecidableEq α] {ending text rest : List α} :
    dropEnd? ending text = some rest ↔ text = rest ++ ending := by
  rw [dropEnd?, Option.map_eq_some_iff]
  constructor
  · rintro ⟨start, hstart, rfl⟩
    rw [← List.reverse_inj, dropStart?_eq_some.1 hstart]
    simp
  · rintro rfl
    exact ⟨rest.reverse, by simp, by simp⟩

/-- The text after a known beginning. -/
def after? (start text : String) : Option String :=
  (dropStart? start.toList text.toList).map String.ofList

def firstChars (count : Nat) (text : String) : String :=
  String.ofList (text.toList.take count)

/-- The texts with `glue` between neighbours. -/
def join (glue : String) : List String -> String
  | [] => ""
  | [text] => text
  | text :: rest => text ++ glue ++ join glue rest

/-- The characters of an ASCII text as bytes. -/
def ascii (text : String) : List UInt8 :=
  text.toList.map fun c => UInt8.ofNat c.toNat

end Text

end ChatGateway
