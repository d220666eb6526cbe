import ChatGateway.Proofs.JsonText

/-!
# JSON text on one line

The compact text of a value holds no control character, whatever characters its texts and
member names are made of and however deep these lie.  No line feed and no carriage return
of a value can therefore end a line of a stream.
-/

namespace ChatGateway

/-- No character is a control character. -/
def OnOneLine (text : List Char) : Prop :=
  ∀ c ∈ text, 0x20 ≤ c.toNat

instance (text : List Char) : Decidable (OnOneLine text) :=
  List.decidableBAll (p := fun c : Char => 0x20 ≤ c.toNat) text

namespace OnOneLine

theorem nil : OnOneLine [] := by
  intro c hc
  cases hc

theorem cons {c : Char} {text : List Char} (hc : 0x20 ≤ c.toNat) (htext : OnOneLine text) :
    OnOneLine (c :: text) := by
  intro other hother
  rcases List.mem_cons.1 hother with rfl | hrest
  · exact hc
  · exact htext other hrest

theorem append {left right : List Char} (hleft : OnOneLine left) (hright : OnOneLine right) :
    OnOneLine (left ++ right) := by
  intro c hc
  rcases List.mem_append.1 hc with hmem | hmem
  · exact hleft c hmem
  · exact hright c hmem

theorem mono {text more : List Char} (h : OnOneLine more) (hsubset : text ⊆ more) :
    OnOneLine text :=
  fun c hc => h c (hsubset hc)

theorem not_mem {text : List Char} {c : Char} (h : OnOneLine text) (hc : c.toNat < 0x20) :
    c ∉ text := by
  intro hmem
  have hvisible := h c hmem
  omega

theorem of_isDigit {text : List Char} (h : ∀ c ∈ text, c.isDigit = true) : OnOneLine text := by
  intro c hc
  have hrange : 0x30 ≤ c.toNat ∧ c.toNat ≤ 0x39 := by
    simpa [Char.isDigit, UInt32.le_iff_toNat_le] using h c hc
  omega

theorem toDigits (n : Nat) : OnOneLine (Nat.toDigits 10 n) :=
  of_isDigit fun _ hc => Nat.isDigit_of_mem_toDigits (by omega) (by omega) hc

end OnOneLine

/-! ## Numbers -/

namespace Decimal

theorem Digits.onOneLine_ofGridPoint (point : Nat) (grid : Int) :
    OnOneLine (Digits.ofGridPoint point grid).digits := by
  unfold Digits.ofGridPoint
  simp only
  split
  · decide
  · apply OnOneLine.mono (OnOneLine.toDigits point)
    intro c hc
    exact List.mem_reverse.1 ((List.dropWhile_sublist _).subset (List.mem_reverse.1 hc))

theorem Magnitude.onOneLine_shortest (format : Format) (x : Magnitude) :
    OnOneLine (x.shortest format).digits := by
  have hzero : OnOneLine ['0'] := by decide
  unfold Magnitude.shortest
  split
  · exact hzero
  · simp only
    generalize hfound : List.findSome? _ (List.range 17) = found
    cases found with
    | none => exact hzero
    | some digits =>
        obtain ⟨count, _, hcount⟩ := List.exists_of_findSome?_eq_some hfound
        obtain ⟨point, _, rfl⟩ := Option.map_eq_some_iff.1 hcount
        exact Digits.onOneLine_ofGridPoint point _

namespace Layout

theorem onOneLine_plain {number : Digits} (h : OnOneLine number.digits) :
    OnOneLine (plain number) := by
  have hzeros (count : Nat) : OnOneLine (List.replicate count '0') := by
    intro c hc
    rw [List.eq_of_mem_replicate hc]
    decide
  unfold plain
  split
  · exact .cons (by decide) (.cons (by decide) ((hzeros _).append h))
  · have hwhole : OnOneLine (number.digits.take (number.exponent.toNat + 1)) :=
      h.mono (List.take_subset _ _)
    refine (hwhole.append (hzeros _)).append (.cons (by decide) ?_)
    split
    · decide
    · exact h.mono (List.drop_subset _ _)

theorem onOneLine_scientific {number : Digits} (h : OnOneLine number.digits) :
    OnOneLine (scientific number) := by
  have hfirst : OnOneLine (number.digits.take 1) := h.mono (List.take_subset _ _)
  have hfraction : OnOneLine (number.digits.drop 1) := h.mono (List.drop_subset _ _)
  unfold scientific
  refine (hfirst.append ?_).append (.cons (by decide) (.cons ?_ (.toDigits _)))
  · split
    · exact .nil
    · exact .cons (by decide) hfraction
  · split <;> decide

theorem onOneLine_write (layout : Layout) (negative : Bool) {number : Digits}
    (h : OnOneLine number.digits) : OnOneLine (layout.write negative number) := by
  have hsize : OnOneLine (if layout.plainFrom ≤ number.exponent ∧
      number.exponent ≤ layout.plainTo then plain number else scientific number) := by
    split
    · exact onOneLine_plain h
    · exact onOneLine_scientific h
  unfold write
  cases negative with
  | false => exact hsize
  | true => exact .cons (by decide) hsize

end Layout

end Decimal

namespace Json

theorem onOneLine_writeNumber (number : Number) : OnOneLine (writeNumber number) := by
  cases number with
  | int value =>
      cases value with
      | ofNat n =>
          rw [writeNumber, Reader.toList_ofNat]
          exact .toDigits n
      | negSucc n =>
          rw [writeNumber, Reader.toList_negSucc]
          exact .cons (by decide) (.toDigits (n + 1))
  | double value =>
      exact Decimal.Layout.onOneLine_write _ _ (Decimal.Magnitude.onOneLine_shortest _ _)
  | single value =>
      exact Decimal.Layout.onOneLine_write _ _ (Decimal.Magnitude.onOneLine_shortest _ _)

/-! ## Texts -/

theorem onOneLine_escape (c : Char) : OnOneLine (escape c) := by
  have hdigit : ∀ n, n < 16 → 0x20 ≤ (hexDigit n).toNat := by decide
  unfold escape
  split
  · decide
  split
  · decide
  split
  · decide
  split
  · decide
  split
  · decide
  split
  · decide
  split
  · decide
  split
  · next hcontrol =>
      have hmark : OnOneLine ['\\', 'u', '0', '0'] := by decide
      have hhigh := hdigit (c.toNat / 0x10) (by omega)
      have hlow := hdigit (c.toNat % 0x10) (by omega)
      exact hmark.append (.cons hhigh (.cons hlow .nil))
  · next hvisible => exact .cons (by omega) .nil

theorem onOneLine_quote (text : String) : OnOneLine (quote text) := by
  have hescapes : OnOneLine (text.toList.flatMap escape) := by
    intro c hc
    obtain ⟨source, _, hmem⟩ := List.mem_flatMap.1 hc
    exact onOneLine_escape source c hmem
  exact .cons (by decide) (hescapes.append (.cons (by decide) .nil))

/-! ## Values -/

mutual

theorem onOneLine_write : ∀ value : Json, OnOneLine value.write
  | .null => by decide
  | .bool true => by decide
  | .bool false => by decide
  | .number value => onOneLine_writeNumber value
  | .text value => onOneLine_quote value
  | .array items =>
      .cons (by decide) ((onOneLine_writeItems items).append (.cons (by decide) .nil))
  | .object members =>
      .cons (by decide) ((onOneLine_writeMembers members).append (.cons (by decide) .nil))

theorem onOneLine_writeItems : ∀ items : List Json, OnOneLine (writeItems items)
  | [] => .nil
  | [item] => onOneLine_write item
  | item :: next :: rest =>
      (onOneLine_write item).append (.cons (by decide) (onOneLine_writeItems (next :: rest)))

theorem onOneLine_writeMembers : ∀ members : List (String × Json),
    OnOneLine (writeMembers members)
  | [] => .nil
  | [(name, value)] =>
      (onOneLine_quote name).append (.cons (by decide) (onOneLine_write value))
  | (name, value) :: next :: rest =>
      (onOneLine_quote name).append (.cons (by decide)
        ((onOneLine_write value).append
          (.cons (by decide) (onOneLine_writeMembers (next :: rest)))))

end

end Json

end ChatGateway
