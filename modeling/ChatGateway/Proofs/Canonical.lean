import ChatGateway.Json.Value
import Mathlib.Data.List.Pairwise

/-!
# The canonical form of a JSON value

In canonical form the members of every object are sorted by name, so that there is nothing left
for `canonical` to do.
-/

namespace ChatGateway

namespace Json

variable {name : String} {value : Json} {members : List (String × Json)} {member : String × Json}

/-- The members are in the order of their names, each name once. -/
def Sorted (members : List (String × Json)) : Prop :=
  members.Pairwise fun first second => first.1 < second.1

theorem mem_insertMember (h : member ∈ insertMember name value members) :
    member = (name, value) ∨ member ∈ members := by
  induction members with
  | nil => exact .inl (List.mem_singleton.1 h)
  | cons held rest ih =>
      rw [insertMember] at h
      split at h
      next => exact .inr h
      next =>
        split at h
        next => exact List.mem_cons.1 h
        next =>
          rcases List.mem_cons.1 h with rfl | h
          · exact .inr List.mem_cons_self
          · exact (ih h).imp_right (List.mem_cons_of_mem _)

theorem Sorted.insertMember (h : Sorted members) : Sorted (insertMember name value members) := by
  induction members with
  | nil => exact List.pairwise_singleton _ _
  | cons held rest ih =>
      obtain ⟨hheld, hrest⟩ := List.pairwise_cons.1 h
      rw [Json.insertMember]
      split
      next => exact h
      next hne =>
        split
        next hlt =>
          refine List.pairwise_cons.2 ⟨fun other hother => ?_, h⟩
          rcases List.mem_cons.1 hother with rfl | hother
          · exact hlt
          · exact String.lt_trans hlt (hheld other hother)
        next hge =>
          refine List.pairwise_cons.2 ⟨fun other hother => ?_, ih hrest⟩
          rcases mem_insertMember hother with rfl | hother
          · by_contra hle
            exact hne (String.le_antisymm hle hge)
          · exact hheld other hother

theorem canonicalItems_eq_map (items : List Json) : canonicalItems items = items.map canonical := by
  induction items with
  | nil => rfl
  | cons item rest ih => rw [canonicalItems, ih, List.map_cons]

theorem mem_canonicalMembers (h : member ∈ canonicalMembers members) :
    ∃ held ∈ members, held.1 = member.1 ∧ canonical held.2 = member.2 := by
  induction members with
  | nil => cases h
  | cons held rest ih =>
      rw [canonicalMembers] at h
      rcases mem_insertMember h with rfl | h
      · exact ⟨held, List.mem_cons_self, rfl, rfl⟩
      · obtain ⟨other, hother, heq⟩ := ih h
        exact ⟨other, List.mem_cons_of_mem _ hother, heq⟩

theorem sorted_canonicalMembers (members : List (String × Json)) :
    Sorted (canonicalMembers members) := by
  induction members with
  | nil => exact List.Pairwise.nil
  | cons held rest ih => exact ih.insertMember

/-- Sorted members whose values are in canonical form stay as they are. -/
theorem Sorted.canonicalMembers_eq (h : Sorted members)
    (hvalues : ∀ member ∈ members, canonical member.2 = member.2) :
    canonicalMembers members = members := by
  induction members with
  | nil => rfl
  | cons held rest ih =>
      obtain ⟨hheld, hrest⟩ := List.pairwise_cons.1 h
      rw [canonicalMembers, ih hrest fun other hother => hvalues other (.tail _ hother),
        hvalues held (.head _)]
      cases rest with
      | nil => rfl
      | cons next rest =>
          have hlt := hheld next (.head _)
          rw [Json.insertMember, if_neg (fun heq => String.lt_irrefl _ (heq ▸ hlt)), if_pos hlt]

mutual

theorem canonical_canonical : ∀ value : Json, value.canonical.canonical = value.canonical
  | .null => rfl
  | .bool _ => rfl
  | .number _ => rfl
  | .text _ => rfl
  | .array items => by
      rw [canonical, canonical, canonicalItems_canonicalItems items]
  | .object members => by
      rw [canonical, canonical, (sorted_canonicalMembers members).canonicalMembers_eq]
      intro member hmember
      obtain ⟨held, hheld, -, hvalue⟩ := mem_canonicalMembers hmember
      rw [← hvalue]
      exact canonical_canonical_of_mem members held hheld

theorem canonicalItems_canonicalItems : ∀ items : List Json,
    canonicalItems (canonicalItems items) = canonicalItems items
  | [] => rfl
  | item :: rest => by
      rw [canonicalItems, canonicalItems, canonical_canonical item,
        canonicalItems_canonicalItems rest]

theorem canonical_canonical_of_mem : ∀ (members : List (String × Json)), ∀ member ∈ members,
    member.2.canonical.canonical = member.2.canonical
  | (_, value) :: rest, member, hmember => by
      rcases List.mem_cons.1 hmember with rfl | hmember
      · exact canonical_canonical value
      · exact canonical_canonical_of_mem rest member hmember

end

end Json

end ChatGateway
