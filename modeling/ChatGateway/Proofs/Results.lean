import Mathlib.Data.List.Forall2

/-!
# Results step by step

What is made of items one after the other: a result for each, or the failure of the first one that
has none.
-/

namespace ChatGateway

variable {α β ε : Type} {f : α → Except ε β} {items : List α} {results : List β} {result : β}

theorem bind_eq_ok {first : Except ε α} :
    (first >>= f) = .ok result ↔ ∃ found, first = .ok found ∧ f found = .ok result := by
  cases first <;> simp [bind, Except.bind]

/-- Each item gives its result, and none of them fails. -/
theorem mapM_eq_ok : items.mapM f = .ok results ↔
    List.Forall₂ (fun item result => f item = .ok result) items results := by
  induction items generalizing results with
  | nil => simp [pure, Except.pure, eq_comm]
  | cons item rest ih =>
      rw [List.mapM_cons, List.forall₂_cons_left_iff]
      cases hitem : f item with
      | error failure => simp [bind, Except.bind]
      | ok first =>
          cases hrest : rest.mapM f with
          | error failure => simp [bind, Except.bind, ← ih, hrest]
          | ok others => simp [bind, Except.bind, pure, Except.pure, ← ih, hrest, eq_comm]

theorem exists_of_mem_right {R : α → β → Prop} (h : List.Forall₂ R items results)
    (hmem : result ∈ results) : ∃ item ∈ items, R item result := by
  induction h with
  | nil => cases hmem
  | cons hitem _ ih =>
      rcases List.mem_cons.1 hmem with rfl | hmem
      · exact ⟨_, .head _, hitem⟩
      · obtain ⟨item, hin, hrel⟩ := ih hmem
        exact ⟨item, .tail _ hin, hrel⟩

/-- The failure is that of the first item that has no result. -/
theorem mapM_eq_error {failure : ε} : items.mapM f = .error failure ↔
    ∃ before item after, items = before ++ item :: after ∧ f item = .error failure ∧
      ∀ other ∈ before, ∃ result, f other = .ok result := by
  induction items with
  | nil => simp [pure, Except.pure]
  | cons first rest ih =>
      rw [List.mapM_cons]
      cases hfirst : f first with
      | error found =>
          constructor
          · intro h
            cases h
            exact ⟨[], first, rest, rfl, hfirst, nofun⟩
          · rintro ⟨before, item, after, heq, hitem, hbefore⟩
            rcases List.cons_eq_append_iff.1 heq with ⟨rfl, hcons⟩ | ⟨others, rfl, -⟩
            · cases hcons
              rw [hfirst] at hitem
              cases hitem
              rfl
            · obtain ⟨result, hresult⟩ := hbefore first List.mem_cons_self
              rw [hfirst] at hresult
              cases hresult
      | ok found =>
          have hrest : (do
              let last ← rest.mapM f
              pure (found :: last)) = .error failure ↔ rest.mapM f = .error failure := by
            cases rest.mapM f <;> simp [bind, Except.bind, pure, Except.pure]
          refine hrest.trans (ih.trans ⟨?_, ?_⟩)
          · rintro ⟨before, item, after, rfl, hitem, hbefore⟩
            exact ⟨first :: before, item, after, rfl, hitem,
              List.forall_mem_cons.2 ⟨⟨found, hfirst⟩, hbefore⟩⟩
          · rintro ⟨before, item, after, heq, hitem, hbefore⟩
            rcases List.cons_eq_append_iff.1 heq with ⟨rfl, hcons⟩ | ⟨others, rfl, hrest⟩
            · cases hcons
              rw [hfirst] at hitem
              cases hitem
            · exact ⟨others, item, after, hrest, hitem, (List.forall_mem_cons.1 hbefore).2⟩

end ChatGateway
