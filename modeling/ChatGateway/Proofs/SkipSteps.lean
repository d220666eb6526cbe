import ChatGateway.Proofs.JsonPrefix
import ChatGateway.Proofs.JsonRecords

/-!
# The steps of a skip

A skip holds the closing brackets of what it is inside and takes its fuel from the length of the
input.  The fuel never runs out on a value: besides the step into a bracket, which takes no byte,
each step takes one at least.
-/

namespace ChatGateway

namespace Json

namespace Reader

variable {α β σ : Type} {reader : Reader α} {next : α -> Reader β}

/-! ## Lengths -/

theorem peek_eq_ok {input rest : List UInt8} {byte : UInt8} (h : peek input = .ok (byte, rest)) :
    ∃ tail, rest = byte :: tail ∧ tail.length < input.length ∧ peek rest = .ok (byte, rest) := by
  unfold peek at h
  split at h
  · cases h
  next first tail hblanks =>
    cases h
    have hlength := (List.dropWhile_suffix isBlank (l := input)).length_le
    rw [hblanks] at hlength
    have hfirst := List.head?_dropWhile_not isBlank input
    rw [hblanks] at hfirst
    exact ⟨tail, rfl, hlength, peek_cons tail hfirst⟩

/-- What the reader finds takes up that many bytes at least. -/
def Spans (least : Nat) (reader : Reader α) : Prop :=
  ∀ input found rest, reader input = .ok (found, rest) → rest.length + least ≤ input.length

section Spans

variable {least : Nat}

theorem Spans.bind (h : Spans least reader) (hnext : ∀ found, Spans 0 (next found)) :
    Spans least (reader >>= next) := by
  intro input found rest hread
  obtain ⟨first, middle, hfirst, hrest⟩ := bind_eq_ok hread
  have hlength := h input first middle hfirst
  have hmore := hnext first middle found rest hrest
  omega

theorem Spans.after (h : Spans 0 reader) (hnext : ∀ found, Spans least (next found)) :
    Spans least (reader >>= next) := by
  intro input found rest hread
  obtain ⟨first, middle, hfirst, hrest⟩ := bind_eq_ok hread
  have hlength := h input first middle hfirst
  have hmore := hnext first middle found rest hrest
  omega

theorem Spans.weak (h : Spans least reader) : Spans 0 reader := by
  intro input found rest hread
  have hlength := h input found rest hread
  omega

theorem Spans.ite {test : Prop} [Decidable test] {other : Reader α} (h : Spans least reader)
    (hother : Spans least other) : Spans least (if test then reader else other) := by
  split
  · exact h
  · exact hother

theorem spans_pure (found : α) : Spans 0 (pure found) := by
  intro input other rest hread
  cases hread
  exact Nat.le_refl _

theorem spans_malformed (least : Nat) : Spans least (malformed : Reader α) :=
  fun _ _ _ h => nomatch h

theorem Spans.map {f : α -> β} (h : Spans least reader) : Spans least (f <$> reader) := by
  rw [map_eq_pure_bind]
  exact h.bind fun found => spans_pure (f found)

theorem spans_peek : Spans 0 peek := by
  intro input byte rest hread
  obtain ⟨tail, rfl, hlength, -⟩ := peek_eq_ok hread
  exact hlength

theorem spans_drop : Spans 0 drop := by
  intro input found rest hread
  cases hread
  exact (List.drop_suffix 1 input).length_le

theorem spans_expect (wanted : UInt8) : Spans 0 (expect wanted) :=
  spans_peek.bind fun _ => spans_drop.ite (spans_malformed 0)

theorem spans_word {letters : String} (hletters : Text.ascii letters ≠ []) :
    Spans 1 (word letters) := by
  intro input found rest hread
  have hpos := List.length_pos_iff.2 hletters
  unfold word at hread
  split at hread
  next tail hstart =>
    cases hread
    rw [Text.dropStart?_eq_some.1 hstart, List.length_append]
    omega
  · cases hread

theorem scanText_length {paired : Bool} {state : Inside} {held input found rest : List UInt8}
    (h : scanText paired state held input = .ok (found, rest)) : rest.length < input.length := by
  induction input generalizing state held with
  | nil => cases h
  | cons byte tail ih =>
      rw [scanText] at h
      rw [List.length_cons]
      split at h
      · cases h
        exact Nat.lt_succ_self _
      · split at h
        · exact Nat.lt_succ_of_lt (ih h)
        · cases h

theorem spans_skipQuoted : Spans 1 skipQuoted := by
  intro input found rest hread
  unfold skipQuoted at hread
  split at hread
  · cases hread
  next held left hscan =>
    cases hread
    exact scanText_length hscan

theorem spans_someDigits : Spans 1 someDigits := by
  intro input found rest hread
  obtain ⟨held, middle, hdigits, hrest⟩ := bind_eq_ok hread
  split at hrest
  · cases hrest
  next hsome =>
    cases hrest
    cases hdigits
    have hparts : input.takeWhile isDigit ++ input.dropWhile isDigit = input :=
      List.takeWhile_append_dropWhile
    have hlength := congrArg List.length hparts
    have hpos : 0 < (input.takeWhile isDigit).length := by
      rw [List.length_pos_iff]
      intro hnil
      simp [hnil] at hsome
    rw [List.length_append] at hlength
    omega

theorem spans_takeIf (test : UInt8 -> Bool) : Spans 0 (takeIf test) := by
  intro input found rest hread
  cases input with
  | nil =>
      cases hread
      exact Nat.le_refl _
  | cons byte tail =>
      rw [takeIf] at hread
      split at hread <;> cases hread
      · exact Nat.le_succ _
      · exact Nat.le_refl _

theorem spans_numeral : Spans 1 numeral := by
  refine (spans_takeIf _).after fun sign => spans_someDigits.bind fun whole => ?_
  refine (spans_malformed 0).ite ((spans_takeIf _).after fun point => ?_)
  refine Spans.ite (spans_someDigits.map.weak.after ?_) ((spans_pure _).after ?_)
  all_goals
    refine fun fraction => (spans_takeIf _).after fun mark => Spans.ite ?_ ?_
    · refine (spans_takeIf _).after fun signed => spans_someDigits.weak.after fun power => ?_
      exact (spans_pure _).after fun _ => spans_pure _
    · exact (spans_pure _).after fun _ => spans_pure _

theorem spans_skipName : Spans 0 skipName :=
  (spans_expect _).bind fun _ => spans_skipQuoted.weak.bind fun _ => spans_expect _

end Spans

/-! ## Steps of a skip -/

/-- The step in front of the items of a bracket takes no byte. -/
def slack : Skip -> Nat
  | .opened => 1
  | .value | .ended => 0

/--
A skip that comes to an end after these bytes, inside the brackets `outer`, comes to the same end
from `place` in front of them, inside `brackets`, with two more steps a byte at most.
-/
def GoesOver (outer : List UInt8) (place : Skip) (brackets input rest : List UInt8) : Prop :=
  rest.length ≤ input.length ∧ ∀ fuel found, skipFrom fuel .ended outer rest = .ok found →
    skipFrom (fuel + 2 * (input.length - rest.length) + slack place) place brackets input =
      .ok found

section Skipping

variable {close byte : UInt8} {outer brackets input middle rest tail : List UInt8}
  {place : Skip}

theorem goesOver_refl (outer rest : List UInt8) : GoesOver outer .ended outer rest rest :=
  ⟨Nat.le_refl _, fun fuel found hended => by simpa [slack] using hended⟩

/-- One step more in front. -/
theorem GoesOver.after {place' : Skip} {brackets' : List UInt8}
    (h : GoesOver outer place' brackets' tail rest) (hle : tail.length ≤ input.length)
    (hcost : 2 * tail.length + slack place' < 2 * input.length + slack place)
    (hstep : ∀ fuel, skipFrom (fuel + 1) place brackets input =
      skipFrom fuel place' brackets' tail) : GoesOver outer place brackets input rest := by
  obtain ⟨hrest, hgo⟩ := h
  refine ⟨by omega, fun fuel found hended => ?_⟩
  have hfuel : fuel + 2 * (tail.length - rest.length) + slack place' + 1 ≤
      fuel + 2 * (input.length - rest.length) + slack place := by omega
  apply skipFrom_within hfuel
  rw [hstep]
  exact hgo fuel found hended

theorem GoesOver.trans (h : GoesOver brackets place brackets input middle)
    (hnext : GoesOver outer .ended brackets middle rest) :
    GoesOver outer place brackets input rest := by
  obtain ⟨hmiddle, hgo⟩ := h
  obtain ⟨hrest, hmore⟩ := hnext
  refine ⟨by omega, fun fuel found hended => ?_⟩
  have hfuel : fuel + 2 * (middle.length - rest.length) + slack .ended +
      2 * (input.length - middle.length) + slack place ≤
        fuel + 2 * (input.length - rest.length) + slack place := by
    simp only [slack]
    omega
  apply skipFrom_within hfuel
  exact hgo _ found (hmore fuel found hended)

/-! ### Values without brackets -/

theorem goesOver_scalar {scalar : Reader β} {value : β}
    (hpeek : peek input = .ok (byte, byte :: tail))
    (hscalar : scalar (byte :: tail) = .ok (value, rest)) (hlength : rest.length ≤ tail.length)
    (hskip : ∀ fuel, skipFrom (fuel + 1) .value outer input =
      (scalar >>= fun _ => skipFrom fuel .ended outer) (byte :: tail)) :
    GoesOver outer .value outer input rest := by
  obtain ⟨tail', htail, hinput, -⟩ := peek_eq_ok hpeek
  cases htail
  refine (goesOver_refl outer rest).after (by omega) (by simp only [slack]; omega) fun fuel => ?_
  rw [hskip, bind_ok hscalar]

theorem goesOver_word {letters : String} (hpeek : peek input = .ok (byte, byte :: tail))
    (hletters : letters = "null" ∧ byte = 0x6E ∨ letters = "true" ∧ byte = 0x74 ∨
      letters = "false" ∧ byte = 0x66)
    (h : word letters (byte :: tail) = .ok ((), rest)) :
    GoesOver outer .value outer input rest := by
  rcases hletters with ⟨rfl, rfl⟩ | ⟨rfl, rfl⟩ | ⟨rfl, rfl⟩
  all_goals
    have hlength := spans_word (by decide) _ _ _ h
    refine goesOver_scalar hpeek h (Nat.le_of_succ_le_succ hlength) fun fuel => ?_
    rw [skipFrom, bind_ok hpeek]
    rfl

theorem goesOver_quoted (hpeek : peek input = .ok (quoteMark, quoteMark :: tail))
    (h : skipQuoted tail = .ok ((), rest)) : GoesOver outer .value outer input rest := by
  have hlength := spans_skipQuoted _ _ _ h
  have hscalar : (drop >>= fun _ => skipQuoted) (quoteMark :: tail) = .ok ((), rest) := by
    rw [bind_ok (drop_cons _ _), h]
  refine goesOver_scalar hpeek hscalar (Nat.le_of_succ_le hlength) fun fuel => ?_
  rw [skipFrom, bind_ok hpeek]
  rfl

theorem goesOver_numeral {written : Numeral} (hpeek : peek input = .ok (byte, byte :: tail))
    (hbyte : byte = 0x2D ∨ isDigit byte = true)
    (h : numeral (byte :: tail) = .ok (written, rest)) :
    GoesOver outer .value outer input rest := by
  have hlength := spans_numeral _ _ _ h
  refine goesOver_scalar hpeek h (Nat.le_of_succ_le_succ hlength) fun fuel => ?_
  obtain ⟨-, -, hnull, htrue, hfalse, hmark, harray, hobject⟩ := of_starts_number hbyte
  rw [skipFrom, bind_ok hpeek, if_neg harray, if_neg hobject]
  exact congrFun ((if_neg hnull).trans ((if_neg htrue).trans ((if_neg hfalse).trans
    ((if_neg hmark).trans (if_pos (by simpa using hbyte)))))) _

theorem numeral_of_number {found : Number} (h : number input = .ok (found, rest)) :
    ∃ written, numeral input = .ok (written, rest) := by
  obtain ⟨written, middle, hnumeral, h⟩ := bind_eq_ok h
  cases hvalue : written.value? with
  | none =>
      simp only [hvalue] at h
      cases h
  | some value =>
      simp only [hvalue] at h
      cases h
      exact ⟨written, hnumeral⟩

/-! ### Brackets -/

/-- What a skip does with an item inside the brackets that `close` ends. -/
def enter (close : UInt8) (fuel : Nat) (outer : List UInt8) : Reader Unit :=
  if close = 0x7D then skipName >>= fun _ => skipFrom fuel .value (close :: outer)
  else skipFrom fuel .value (close :: outer)

/-- The value of an item comes after its name, which only members of objects have. -/
def Enters (close : UInt8) (input middle : List UInt8) : Prop :=
  middle.length ≤ input.length ∧ ∀ fuel outer,
    enter close fuel outer input = skipFrom fuel .value (close :: outer) middle

theorem enters_item (input : List UInt8) : Enters 0x5D input input :=
  ⟨Nat.le_refl _, fun _ _ => rfl⟩

theorem enters_member (hname : skipName input = .ok ((), middle)) : Enters 0x7D input middle :=
  ⟨spans_skipName _ _ _ hname, fun _ _ => bind_ok hname⟩

theorem enters_of_enter {fuel : Nat} {found : Unit × List UInt8}
    (h : enter close fuel outer input = .ok found) :
    ∃ middle, Enters close input middle ∧
      skipFrom fuel .value (close :: outer) middle = .ok found := by
  unfold enter at h
  split at h
  next hclose =>
    subst hclose
    obtain ⟨⟨⟩, middle, hname, h⟩ := bind_eq_ok h
    exact ⟨middle, enters_member hname, h⟩
  next hclose =>
    exact ⟨input, ⟨Nat.le_refl _, fun _ _ => congrFun (if_neg hclose) _⟩, h⟩

/-- At the closing bracket a skip leaves the brackets, after an item or without any. -/
theorem goesOver_close (hplace : place = .opened ∨ place = .ended)
    (hpeek : peek input = .ok (byte, byte :: tail)) (hclose : byte = close)
    (h : GoesOver outer .ended brackets tail rest) :
    GoesOver outer place (close :: brackets) input rest := by
  obtain ⟨tail', htail, hinput, -⟩ := peek_eq_ok hpeek
  cases htail
  rcases hplace with rfl | rfl
  all_goals
    refine h.after (by omega) (by simp only [slack]; omega) fun fuel => ?_
    rw [skipFrom, bind_ok hpeek, if_pos hclose, bind_ok (drop_cons _ _)]

theorem goesOver_comma {mark : UInt8} (hpeek : peek input = .ok (mark, mark :: tail))
    (hmark : mark ≠ close) (hcomma : mark = 0x2C) (hvalue : Enters close tail middle)
    (h : GoesOver outer .value (close :: brackets) middle rest) :
    GoesOver outer .ended (close :: brackets) input rest := by
  obtain ⟨tail', htail, hinput, -⟩ := peek_eq_ok hpeek
  cases htail
  obtain ⟨hle, henter⟩ := hvalue
  refine h.after (by omega) (by simp only [slack]; omega) fun fuel => ?_
  rw [skipFrom, bind_ok hpeek, if_neg hmark, if_pos hcomma, bind_ok (drop_cons _ _)]
  exact henter fuel brackets

theorem goesOver_first {mark : UInt8} (hpeek : peek input = .ok (mark, mark :: tail))
    (hmark : mark ≠ close) (hvalue : Enters close (mark :: tail) middle)
    (h : GoesOver outer .value (close :: brackets) middle rest) :
    GoesOver outer .opened (close :: brackets) input rest := by
  obtain ⟨tail', htail, hinput, -⟩ := peek_eq_ok hpeek
  cases htail
  obtain ⟨hle, henter⟩ := hvalue
  rw [List.length_cons] at hle
  refine h.after (by omega) (by simp only [slack]; omega) fun fuel => ?_
  rw [skipFrom, bind_ok hpeek, if_neg hmark]
  exact henter fuel brackets

theorem goesOver_bracket (hpeek : peek input = .ok (byte, byte :: tail))
    (hbyte : byte = 0x5B ∧ close = 0x5D ∨ byte = 0x7B ∧ close = 0x7D)
    (h : GoesOver outer .opened (close :: brackets) tail rest) :
    GoesOver outer .value brackets input rest := by
  obtain ⟨tail', htail, hinput, -⟩ := peek_eq_ok hpeek
  cases htail
  rcases hbyte with ⟨rfl, rfl⟩ | ⟨rfl, rfl⟩
  all_goals
    refine h.after (by omega) (by simp only [slack]; omega) fun fuel => ?_
    rw [skipFrom, bind_ok hpeek]
    rfl

end Skipping

end Reader

end Json

end ChatGateway
