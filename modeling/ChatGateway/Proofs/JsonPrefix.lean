import ChatGateway.Proofs.JsonBounds

/-!
# No reader looks ahead

What a reader finds in a byte string it finds just so if more bytes follow, unless it stopped for
want of bytes, as after the digits of a number.  An object ends with its bracket, whatever
follows.  So of two byte strings that both read as an object, one goes on after the other with
blanks at most.
-/

namespace ChatGateway

namespace Json

namespace Reader

variable {α β σ : Type} {reader : Reader α} {next : α -> Reader β} {ends : Prop}

/-! ## Readers that are settled -/

/--
What the reader finds does not change with more bytes at the end of the input, if the reader
left some of it or `ends` where it does whatever follows; and it finds nothing in no bytes.
-/
def Settled (ends : Prop) (reader : Reader α) : Prop :=
  ∀ input found rest, reader input = .ok (found, rest) → rest ≠ [] ∨ ends →
    input ≠ [] ∧ ∀ more, reader (input ++ more) = .ok (found, rest ++ more)

/-- The same of a reader that is given some bytes. -/
def SettledAfter (ends : Prop) (reader : Reader α) : Prop :=
  ∀ input found rest, input ≠ [] → reader input = .ok (found, rest) → rest ≠ [] ∨ ends →
    ∀ more, reader (input ++ more) = .ok (found, rest ++ more)

/-- The reader takes nothing off the input and does not depend on it. -/
def Idle (reader : Reader α) : Prop :=
  ∀ input found rest, reader input = .ok (found, rest) →
    rest = input ∧ ∀ other, reader other = .ok (found, other)

theorem Settled.after (h : Settled ends reader) : SettledAfter ends reader :=
  fun input found rest _ hread hends => (h input found rest hread hends).2

theorem Settled.mono {ends' : Prop} (h : Settled ends reader) (himp : ends' → ends) :
    Settled ends' reader :=
  fun input found rest hread hends => h input found rest hread (hends.imp_right himp)

theorem Settled.weak (h : Settled True reader) : Settled ends reader :=
  h.mono fun _ => trivial

theorem Settled.bind (h : Settled False reader) (hnext : ∀ found, Settled ends (next found)) :
    Settled ends (reader >>= next) := by
  intro input found rest hread hends
  obtain ⟨first, middle, hfirst, hrest⟩ := bind_eq_ok hread
  obtain ⟨hmiddle, hmore⟩ := hnext first middle found rest hrest hends
  obtain ⟨hinput, hsame⟩ := h input first middle hfirst (.inl hmiddle)
  refine ⟨hinput, fun more => ?_⟩
  rw [bind_ok (hsame more), hmore]

theorem Settled.bind_idle (h : Settled ends reader) (hnext : ∀ found, Idle (next found)) :
    Settled ends (reader >>= next) := by
  intro input found rest hread hends
  obtain ⟨first, middle, hfirst, hrest⟩ := bind_eq_ok hread
  obtain ⟨rfl, hother⟩ := hnext first middle found rest hrest
  obtain ⟨hinput, hsame⟩ := h input first rest hfirst hends
  refine ⟨hinput, fun more => ?_⟩
  rw [bind_ok (hsame more), hother]

theorem SettledAfter.bind_idle (h : SettledAfter ends reader) (hnext : ∀ found, Idle (next found)) :
    SettledAfter ends (reader >>= next) := by
  intro input found rest hinput hread hends more
  obtain ⟨first, middle, hfirst, hrest⟩ := bind_eq_ok hread
  obtain ⟨rfl, hother⟩ := hnext first middle found rest hrest
  rw [bind_ok (h input first rest hinput hfirst hends more), hother]

theorem Settled.ite {test : Prop} [Decidable test] {other : Reader α} (h : Settled ends reader)
    (hother : Settled ends other) : Settled ends (if test then reader else other) := by
  split
  · exact h
  · exact hother

/-- The ways part and come together again. -/
theorem Settled.branch {test : Prop} [Decidable test] {other : Reader α}
    (h : Settled False reader) (hother : Settled False other)
    (hnext : ∀ found, Settled ends (next found)) :
    Settled ends (if test then reader >>= next else other >>= next) :=
  (h.bind hnext).ite (hother.bind hnext)

theorem SettledAfter.ite {test : Prop} [Decidable test] {other : Reader α}
    (h : SettledAfter ends reader) (hother : SettledAfter ends other) :
    SettledAfter ends (if test then reader else other) := by
  split
  · exact h
  · exact hother

theorem idle_pure (found : α) : Idle (pure found) := by
  intro input other rest hread
  cases hread
  exact ⟨rfl, fun _ => rfl⟩

theorem idle_malformed : Idle (malformed : Reader α) := fun _ _ _ h => nomatch h

theorem idle_mistyped : Idle (mistyped : Reader α) := fun _ _ _ h => nomatch h

theorem Idle.ite {test : Prop} [Decidable test] {other : Reader α} (h : Idle reader)
    (hother : Idle other) : Idle (if test then reader else other) := by
  split
  · exact h
  · exact hother

theorem Idle.bind (h : Idle reader) (hnext : ∀ found, Idle (next found)) :
    Idle (reader >>= next) := by
  intro input found rest hread
  obtain ⟨first, middle, hfirst, hrest⟩ := bind_eq_ok hread
  obtain ⟨rfl, hother⟩ := h input first middle hfirst
  obtain ⟨rfl, hlast⟩ := hnext first middle found rest hrest
  exact ⟨rfl, fun other => by rw [bind_ok (hother other), hlast]⟩

/-- What takes nothing off the input leaves all of it. -/
theorem Idle.settled (h : Idle reader) : Settled False reader := by
  intro input found rest hread hends
  obtain ⟨rfl, hother⟩ := h input found rest hread
  exact ⟨hends.resolve_right id, fun more => hother _⟩

theorem Idle.settledAfter (h : Idle reader) : SettledAfter ends reader := by
  intro input found rest _ hread _ more
  obtain ⟨rfl, hother⟩ := h input found rest hread
  exact hother _

theorem settled_malformed : Settled ends (malformed : Reader α) := fun _ _ _ h => nomatch h

theorem settled_mistyped : Settled ends (mistyped : Reader α) := fun _ _ _ h => nomatch h

theorem settled_wrongType : Settled ends (wrongType : Reader α) :=
  fun input found rest h => (yields_wrongType (P := fun _ => False) input found rest h).elim

theorem Settled.map {f : α -> β} (h : Settled ends reader) : Settled ends (f <$> reader) := by
  rw [map_eq_pure_bind]
  exact h.bind_idle fun _ => idle_pure _

/-! ## Single bytes -/

theorem settled_peek : Settled True peek := by
  intro input found rest hread _
  unfold peek at hread
  split at hread
  · cases hread
  next byte tail hblanks =>
    cases hread
    refine ⟨fun hnil => by simp [hnil] at hblanks, fun more => ?_⟩
    rw [peek, List.dropWhile_append, hblanks]
    rfl

/-- What follows a look at the next byte is given that byte. -/
theorem settled_peek_bind {next : UInt8 -> Reader α}
    (h : ∀ byte, SettledAfter ends (next byte)) : Settled ends (peek >>= next) := by
  intro input found rest hread hends
  obtain ⟨byte, middle, hfirst, hrest⟩ := bind_eq_ok hread
  obtain ⟨hinput, hsame⟩ := settled_peek input byte middle hfirst (.inr trivial)
  refine ⟨hinput, fun more => ?_⟩
  have hmiddle : middle ≠ [] := by
    unfold peek at hfirst
    split at hfirst <;> cases hfirst
    exact List.cons_ne_nil _ _
  rw [bind_ok (hsame more), h byte middle found rest hmiddle hrest hends more]

theorem settledAfter_drop : SettledAfter True drop := by
  intro input found rest hinput hread _ more
  cases hread
  obtain ⟨byte, tail, rfl⟩ := List.exists_cons_of_ne_nil hinput
  rfl

theorem settled_drop : Settled False drop := by
  intro input found rest hread hends
  have hinput : input ≠ [] := by
    rintro rfl
    cases hread
    exact hends.elim (fun hne => hne rfl) id
  exact ⟨hinput, settledAfter_drop input found rest hinput hread (.inr trivial)⟩

theorem settled_expect (wanted : UInt8) : Settled True (expect wanted) :=
  settled_peek_bind fun _ => settledAfter_drop.ite settled_malformed.after

theorem settled_word (letters : String) : Settled False (word letters) := by
  intro input found rest hread hends
  unfold word at hread
  split at hread
  next tail hstart =>
    cases hread
    have hinput := Text.dropStart?_eq_some.1 hstart
    have hrest : rest ≠ [] := hends.resolve_right id
    refine ⟨by simp [hinput, hrest], fun more => ?_⟩
    rw [word, hinput, List.append_assoc, Text.dropStart?_append]
  · cases hread

/-! ## Texts -/

theorem scanText_append {paired : Bool} {input : List UInt8} :
    ∀ {state : Inside} {held found rest : List UInt8} (more : List UInt8),
      scanText paired state held input = .ok (found, rest) →
        scanText paired state held (input ++ more) = .ok (found, rest ++ more) := by
  induction input with
  | nil => exact fun _ h => nomatch h
  | cons byte tail ih =>
      intro state held found rest more h
      simp only [scanText, List.cons_append] at h ⊢
      split at h
      next hends =>
        cases h
        rw [if_pos hends]
      next hgoes =>
        rw [if_neg hgoes]
        split at h
        · exact ih more h
        · cases h

theorem scanText_ne_nil {paired : Bool} {state : Inside} {held input : List UInt8}
    {found : List UInt8 × List UInt8} (h : scanText paired state held input = .ok found) :
    input ≠ [] := by
  rintro rfl
  cases h

theorem settled_quoted : Settled True quoted := by
  intro input found rest hread _
  unfold quoted at hread
  split at hread
  · cases hread
  next held left hscan =>
    split at hread
    next value htext =>
      cases hread
      refine ⟨scanText_ne_nil hscan, fun more => ?_⟩
      simp only [quoted, scanText_append more hscan, htext]
    · cases hread

theorem settled_skipQuoted : Settled True skipQuoted := by
  intro input found rest hread _
  unfold skipQuoted at hread
  split at hread
  · cases hread
  next held left hscan =>
    cases hread
    refine ⟨scanText_ne_nil hscan, fun more => ?_⟩
    simp only [skipQuoted, scanText_append more hscan]

/-! ## Numbers -/

theorem settled_digits : Settled False digits := by
  intro input found rest hread hends
  cases hread
  have hrest := hends.resolve_right id
  refine ⟨fun hnil => hrest (by rw [hnil]; rfl), fun more => ?_⟩
  have hshort : (input.takeWhile isDigit).length ≠ input.length := by
    intro hall
    have hparts : input.takeWhile isDigit ++ input.dropWhile isDigit = input :=
      List.takeWhile_append_dropWhile
    have hsum := congrArg List.length hparts
    rw [List.length_append, hall] at hsum
    exact hrest (List.length_eq_zero_iff.1 (by omega))
  rw [digits, List.takeWhile_append, if_neg hshort, List.dropWhile_append,
    if_neg (by simpa using hrest)]

theorem settled_takeIf (test : UInt8 -> Bool) : Settled False (takeIf test) := by
  intro input found rest hread hends
  cases input with
  | nil =>
      cases hread
      exact absurd rfl (hends.resolve_right id)
  | cons byte tail =>
      refine ⟨List.cons_ne_nil _ _, fun more => ?_⟩
      simp only [takeIf, List.cons_append] at hread ⊢
      split at hread <;> cases hread <;> simp_all

theorem settled_someDigits : Settled False someDigits :=
  settled_digits.bind_idle fun _ => idle_malformed.ite (idle_pure _)

theorem settled_numeral : Settled False numeral := by
  refine (settled_takeIf _).bind fun sign => settled_someDigits.bind fun whole => ?_
  refine settled_malformed.ite ((settled_takeIf _).bind fun point => ?_)
  refine settled_someDigits.map.branch (idle_pure _).settled fun fraction => ?_
  refine (settled_takeIf _).bind fun mark => Settled.ite ?_ ?_
  · refine (settled_takeIf _).bind fun signed => settled_someDigits.bind_idle fun power => ?_
    exact (idle_pure _).bind fun _ => idle_pure _
  · exact ((idle_pure _).bind fun _ => idle_pure _).settled

theorem settled_number : Settled False number := by
  refine settled_numeral.bind_idle fun written => ?_
  cases written.value? with
  | none => exact idle_malformed
  | some value => exact idle_pure _

/-! ## Brackets

The fuel of a reader grows with its input, so that with more bytes it is another reader, one that
finds all that the first does.
-/

/-- What the reader finds the other one finds, too. -/
def Within (reader other : Reader α) : Prop :=
  ∀ input found, reader input = .ok found → other input = .ok found

theorem within_refl (reader : Reader α) : Within reader reader := fun _ _ h => h

theorem within_malformed (other : Reader α) : Within malformed other := fun _ _ h => nomatch h

theorem within_bind {other : α -> Reader β} (h : ∀ found, Within (next found) (other found)) :
    Within (reader >>= next) (reader >>= other) := by
  rintro input ⟨found, rest⟩ hread
  obtain ⟨first, middle, hfirst, hrest⟩ := bind_eq_ok hread
  rw [bind_ok hfirst, h first middle _ hrest]

theorem Within.ite {test : Prop} [Decidable test] {first first' second second' : Reader α}
    (h : Within first first') (hother : Within second second') :
    Within (if test then first else second) (if test then first' else second') := by
  split
  · exact h
  · exact hother

theorem foldItems_within (close : UInt8) (step : σ -> Reader σ) {fuel fuel' : Nat}
    (hfuel : fuel ≤ fuel') (state : σ) :
    Within (foldItems close step fuel state) (foldItems close step fuel' state) := by
  induction fuel generalizing fuel' state with
  | zero => exact within_malformed _
  | succ fuel ih =>
      obtain ⟨fuel', rfl⟩ : ∃ less, fuel' = less + 1 := ⟨fuel' - 1, by omega⟩
      refine within_bind fun next => within_bind fun byte => (within_refl _).ite ?_
      exact (within_bind fun _ => ih (by omega) next).ite (within_refl _)

theorem settled_foldItems {close : UInt8} {step : σ -> Reader σ}
    (hstep : ∀ state, Settled False (step state)) (fuel : Nat) (state : σ) :
    Settled True (foldItems close step fuel state) := by
  induction fuel generalizing state with
  | zero => exact settled_malformed
  | succ fuel ih =>
      refine (hstep state).bind fun next => settled_peek_bind fun byte => ?_
      refine (settledAfter_drop.bind_idle fun _ => idle_pure _).ite (.ite ?_ ?_)
      · exact (settled_drop.bind fun _ => ih next).after
      · exact settled_malformed.after

theorem settled_items {close : UInt8} {step : σ -> Reader σ}
    (hstep : ∀ state, Settled False (step state)) (state : σ) :
    Settled True (items close step state) := by
  refine settled_peek_bind fun byte => (settledAfter_drop.bind_idle fun _ => idle_pure _).ite ?_
  intro input found rest hinput hread hends more
  have hsame := (settled_foldItems hstep _ state input found rest hread hends).2 more
  have hfuel : input.length ≤ (input ++ more).length := (List.prefix_append _ _).length_le
  exact foldItems_within close step hfuel state _ _ hsame

/-! ## Skipped values -/

theorem settled_skipName : Settled False skipName :=
  (settled_expect _).weak.bind fun _ => settled_skipQuoted.weak.bind fun _ =>
    (settled_expect _).weak

theorem skipFrom_within {fuel fuel' : Nat} (hfuel : fuel ≤ fuel') (place : Skip)
    (outer : List UInt8) : Within (skipFrom fuel place outer) (skipFrom fuel' place outer) := by
  induction fuel generalizing fuel' place outer with
  | zero => exact within_malformed _
  | succ fuel ih =>
      obtain ⟨fuel', rfl⟩ : ∃ less, fuel' = less + 1 := ⟨fuel' - 1, by omega⟩
      have hgo (place : Skip) (outer : List UInt8) :
          Within (skipFrom fuel place outer) (skipFrom fuel' place outer) :=
        ih (by omega) place outer
      have hthen (place : Skip) (outer : List UInt8) (first : Reader Unit) :
          Within (first >>= fun _ => skipFrom fuel place outer)
            (first >>= fun _ => skipFrom fuel' place outer) := within_bind fun _ => hgo place outer
      match place, outer with
      | .ended, [] => exact within_refl _
      | .ended, close :: outer =>
          refine within_bind fun byte => (hthen .ended outer drop).ite ?_
          refine Within.ite (within_bind fun _ => ?_) (within_refl _)
          exact (hthen .value (close :: outer) skipName).ite (hgo _ _)
      | .opened, [] => exact within_refl _
      | .opened, close :: outer =>
          refine within_bind fun byte => (hthen .ended outer drop).ite ?_
          exact (hthen .value (close :: outer) skipName).ite (hgo _ _)
      | .value, outer =>
          refine within_bind fun byte => (hthen .opened _ drop).ite ((hthen .opened _ drop).ite ?_)
          refine (hthen .ended outer _).ite ((hthen .ended outer _).ite ?_)
          refine (hthen .ended outer _).ite (Within.ite (within_bind fun _ => ?_) ?_)
          · exact hthen .ended outer skipQuoted
          · exact Within.ite (within_bind fun _ => hgo _ _) (hthen .ended outer malformed)

theorem settled_skipFrom (fuel : Nat) (place : Skip) (outer : List UInt8) :
    Settled False (skipFrom fuel place outer) := by
  induction fuel generalizing place outer with
  | zero => exact settled_malformed
  | succ fuel ih =>
      have hdrop (place : Skip) (outer : List UInt8) :
          SettledAfter False (drop >>= fun _ => skipFrom fuel place outer) :=
        (settled_drop.bind fun _ => ih place outer).after
      match place, outer with
      | .ended, [] => exact (idle_pure _).settled
      | .ended, close :: outer =>
          refine settled_peek_bind fun byte => (hdrop .ended outer).ite (.ite ?_ ?_)
          · exact (settled_drop.bind fun _ => (settled_skipName.bind fun _ => ih _ _).ite
              (ih .value (close :: outer))).after
          · exact settled_malformed.after
      | .opened, [] => exact settled_malformed
      | .opened, close :: outer =>
          refine settled_peek_bind fun byte => (hdrop .ended outer).ite (Settled.after ?_)
          exact (settled_skipName.bind fun _ => ih _ _).ite (ih .value (close :: outer))
      | .value, outer =>
          refine settled_peek_bind fun byte => (hdrop .opened _).ite ((hdrop .opened _).ite ?_)
          refine Settled.after (.ite ((settled_word _).bind fun _ => ih .ended outer) ?_)
          refine Settled.ite ((settled_word _).bind fun _ => ih .ended outer) ?_
          refine Settled.ite ((settled_word _).bind fun _ => ih .ended outer) (.ite ?_ (.ite ?_ ?_))
          · exact settled_drop.bind fun _ => settled_skipQuoted.weak.bind fun _ => ih .ended outer
          · exact settled_numeral.bind fun _ => ih .ended outer
          · exact settled_malformed.bind fun _ => ih .ended outer

theorem settled_skip : Settled False skip := by
  intro input found rest hread hends
  obtain ⟨hinput, hmore⟩ := settled_skipFrom _ _ _ input found rest hread hends
  refine ⟨hinput, fun more => skipFrom_within ?_ _ _ _ _ (hmore more)⟩
  rw [List.length_append]
  omega

/-! ## Typed readers -/

theorem settled_text (depth : Nat) : Settled True (text depth) :=
  settled_peek_bind fun _ => (settled_drop.bind fun _ => settled_quoted).after.ite
    settled_wrongType.after

theorem settled_numberAs (convert : Number -> Option α) (depth : Nat) :
    Settled False (numberAs convert depth) := by
  refine settled_peek_bind fun byte => (Settled.after ?_).ite settled_wrongType.after
  refine settled_number.bind_idle fun found => ?_
  cases convert found with
  | none => exact idle_mistyped
  | some value => exact idle_pure _

/-! ## Records -/

section Records

variable {fields : List (TextField σ)} {depth : Nat}

theorem settled_member (hfields : ∀ field ∈ fields, Settled False (field.take depth))
    (state : List String × σ) : Settled False (member fields depth state) := by
  refine (settled_expect _).weak.bind fun _ => settled_quoted.weak.bind fun name => ?_
  cases hfind : fields.find? fun field => field.name = name with
  | none =>
      exact (settled_expect _).weak.bind fun _ => settled_skip.bind_idle fun _ => idle_pure _
  | some field =>
      have hfield := hfields field (List.mem_of_find?_eq_some hfind)
      refine settled_mistyped.ite ?_
      exact (settled_expect _).weak.bind fun _ => hfield.bind_idle fun _ => idle_pure _

theorem settled_hasItem (first : Bool) : Settled True (hasItem first) := by
  refine settled_peek_bind fun byte => (idle_pure _).settledAfter.ite ?_
  refine (idle_pure _).settledAfter.ite (.ite (Settled.after ?_) settled_malformed.after)
  exact settled_drop.bind fun _ => settled_peek.bind_idle fun _ => idle_malformed.ite (idle_pure _)

theorem settled_positional (hfields : ∀ field ∈ fields, Settled False (field.take depth))
    (first : Bool) (state : σ) : Settled True (positional depth first fields state) := by
  induction fields generalizing first state with
  | nil => exact (settled_expect _).bind_idle fun _ => idle_pure _
  | cons field rest ih =>
      have hrest := ih fun other hother => hfields other (List.mem_cons_of_mem field hother)
      refine (settled_hasItem first).weak.bind fun there => Settled.ite ?_ (.ite (hrest _ _) ?_)
      · exact (hfields field List.mem_cons_self).bind fun store => hrest _ _
      · exact settled_mistyped

theorem settled_record (hfields : ∀ field ∈ fields, ∀ depth, Settled False (field.take depth))
    (blank : σ) : Settled True (record fields blank depth) := by
  refine settled_peek_bind fun byte => Settled.after (.ite ?_ ?_)
  · cases depth with
    | zero => exact settled_malformed
    | succ depth =>
        have hmember := settled_member fun field hfield => hfields field hfield depth
        have hitems : Settled True (items 0x7D (member fields depth) ([], blank)) :=
          settled_items hmember _
        exact settled_drop.bind fun _ => hitems.bind_idle fun found =>
          (idle_pure _).ite idle_mistyped
  · refine Settled.ite ?_ settled_wrongType
    cases depth with
    | zero => exact settled_malformed
    | succ depth =>
        exact settled_drop.bind fun _ =>
          settled_positional (fun field hfield => hfields field hfield depth) true blank

end Records

/-! ## Whole byte strings -/

/--
Where all of a text and a front part of it are read, there are only blanks after the part, and the
two are read as the same.
-/
theorem run_append {reader : Nat -> Reader α} {part rest : List UInt8} {found other : α}
    (h : Settled True (reader nesting)) (hpart : run reader part = .ok found)
    (hwhole : run reader (part ++ rest) = .ok other) :
    rest.all isBlank = true ∧ other = found := by
  obtain ⟨left, hread, hblank⟩ := run_eq_ok.1 hpart
  obtain ⟨left', hread', hblank'⟩ := run_eq_ok.1 hwhole
  rw [(h part found left hread (.inr trivial)).2 rest] at hread'
  cases hread'
  rw [List.all_append, hblank] at hblank'
  exact ⟨by simpa using hblank', rfl⟩

end Reader

end Json

end ChatGateway
