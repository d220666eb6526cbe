import ChatGateway.Proofs.Events
import Mathlib.Data.Finset.Card
import Mathlib.Data.List.Nodup

/-!
# The numbers of tool calls

A tool use is numbered when it begins, by the count of block indices that began one so far,
and the pieces of its arguments come under that number.  The numbers are 0, 1, 2, … as long
as no index begins a second tool use before the last one, and a piece belongs to its own
call as long as its block began one; a piece of any other block is counted to call 0.
-/

namespace ChatGateway

namespace Stream

/-! ## The table of calls -/

namespace ToolCalls

def indices (calls : ToolCalls) : List UInt32 :=
  calls.map Prod.fst

theorem set_cons_self (index call held : UInt32) (rest : ToolCalls) :
    ToolCalls.set index call ((index, held) :: rest) = (index, call) :: rest := by
  rw [set, if_pos rfl]

theorem set_cons_of_ne {index other : UInt32} (call held : UInt32) (rest : ToolCalls)
    (h : other ≠ index) :
    ToolCalls.set index call ((other, held) :: rest) =
      (other, held) :: ToolCalls.set index call rest := by
  rw [set, if_neg h]

theorem indices_set_of_mem {calls : ToolCalls} {index : UInt32} (call : UInt32)
    (h : index ∈ calls.indices) : (calls.set index call).indices = calls.indices := by
  induction calls with
  | nil => cases h
  | cons entry rest ih =>
      obtain ⟨other, held⟩ := entry
      by_cases hother : other = index
      · subst hother
        rw [set_cons_self]
        rfl
      · have hrest : index ∈ ToolCalls.indices rest := by
          rcases List.mem_cons.1 h with heq | hrest
          · exact absurd heq.symm hother
          · exact hrest
        rw [set_cons_of_ne call held rest hother]
        exact congrArg (other :: ·) (ih hrest)

theorem set_of_new {calls : ToolCalls} {index call : UInt32}
    (h : ∀ entry ∈ calls, entry.1 ≠ index) : calls.set index call = calls ++ [(index, call)] := by
  induction calls with
  | nil =>
      rfl
  | cons entry rest ih =>
      obtain ⟨other, held⟩ := entry
      have hother : other ≠ index := h (other, held) List.mem_cons_self
      have hrest : ∀ entry ∈ rest, entry.1 ≠ index := fun entry hentry =>
        h entry (List.mem_cons_of_mem _ hentry)
      rw [set_cons_of_ne call held rest hother, ih hrest, List.cons_append]

theorem indices_set_of_not_mem {calls : ToolCalls} {index : UInt32} (call : UInt32)
    (h : index ∉ calls.indices) : (calls.set index call).indices = calls.indices ++ [index] := by
  have hnew : ∀ entry ∈ calls, entry.1 ≠ index := by
    rintro entry hentry rfl
    exact h (List.mem_map_of_mem hentry)
  rw [set_of_new hnew, indices, List.map_append]
  rfl

theorem nodup_indices_set {calls : ToolCalls} (index call : UInt32) (h : calls.indices.Nodup) :
    (calls.set index call).indices.Nodup := by
  by_cases hmem : index ∈ calls.indices
  · rw [indices_set_of_mem call hmem]
    exact h
  · rw [indices_set_of_not_mem call hmem, ← List.concat_eq_append]
    exact h.concat hmem

theorem toFinset_indices_set (calls : ToolCalls) (index call : UInt32) :
    (calls.set index call).indices.toFinset = insert index calls.indices.toFinset := by
  by_cases hmem : index ∈ calls.indices
  · rw [indices_set_of_mem call hmem, Finset.insert_eq_of_mem (List.mem_toFinset.2 hmem)]
  · rw [indices_set_of_not_mem call hmem]
    ext other
    simp

theorem lookup_cons_of_ne {key other : UInt32} (held : UInt32) (rest : ToolCalls)
    (h : other ≠ key) :
    List.lookup other ((key, held) :: rest) = List.lookup other rest := by
  have hbeq : (other == key) = false := beq_false_of_ne h
  simp only [List.lookup_cons, hbeq]

theorem lookup_set (calls : ToolCalls) (index call other : UInt32) :
    (calls.set index call).lookup other =
      if other = index then some call else calls.lookup other := by
  induction calls with
  | nil =>
      by_cases hother : other = index
      · rw [if_pos hother, hother]
        exact List.lookup_cons_self
      · rw [if_neg hother]
        exact lookup_cons_of_ne call [] hother
  | cons entry rest ih =>
      obtain ⟨key, held⟩ := entry
      by_cases hkey : key = index
      · subst hkey
        rw [set_cons_self]
        by_cases hother : other = key
        · rw [if_pos hother, hother]
          exact List.lookup_cons_self
        · rw [if_neg hother, lookup_cons_of_ne call rest hother,
            lookup_cons_of_ne held rest hother]
      · rw [set_cons_of_ne call held rest hkey]
        by_cases hother : other = key
        · rw [if_neg (by rw [hother]; exact hkey), hother]
          exact List.lookup_cons_self.trans List.lookup_cons_self.symm
        · rw [lookup_cons_of_ne held _ hother, lookup_cons_of_ne held rest hother]
          exact ih

theorem callOf_set (calls : ToolCalls) (index call : UInt32) :
    (calls.set index call).callOf index = call := by
  rw [callOf, lookup_set, if_pos rfl, Option.getD_some]

end ToolCalls

/-! ## One event -/

/-- The block index under which an event begins a tool use. -/
def Event.opened? : Event -> Option UInt32
  | .blockStart index block => if block.kind = "tool_use" then some index else none
  | _ => none

/-- The number of the tool call that a delta begins. -/
def Delta.callNumber? : Delta -> Option UInt32
  | .toolCall call _ _ => some call
  | _ => none

namespace Progress

/-- The number that a tool use that begins now has. -/
def nextCall (progress : Progress) : UInt32 :=
  .ofNat progress.toolCalls.length

theorem step_of_opened {event : Event} {index : UInt32} (progress : Progress)
    (h : event.opened? = some index) :
    (progress.step event).1.toolCalls = progress.toolCalls.set index progress.nextCall ∧
      (progress.step event).2.delta?.bind Delta.callNumber? = some progress.nextCall := by
  cases event with
  | blockStart other block =>
      by_cases hkind : block.kind = "tool_use"
      · simp only [Event.opened?, if_pos hkind, Option.some.injEq] at h
        subst h
        simp only [step, if_pos hkind]
        exact ⟨rfl, rfl⟩
      · simp only [Event.opened?, if_neg hkind] at h
        cases h
  | _ => cases h

theorem toolCalls_record (progress : Progress) (tokens : Option TokenReport) :
    (progress.record tokens).toolCalls = progress.toolCalls := by
  cases tokens <;> rfl

theorem step_of_not_opened {event : Event} (progress : Progress) (h : event.opened? = none) :
    (progress.step event).1.toolCalls = progress.toolCalls ∧
      (progress.step event).2.delta?.bind Delta.callNumber? = none := by
  cases event with
  | blockStart index block =>
      by_cases hkind : block.kind = "tool_use"
      · simp only [Event.opened?, if_pos hkind] at h
        cases h
      · simp only [step, if_neg hkind]
        exact ⟨trivial, rfl⟩
  | messageStart id tokens => exact ⟨progress.toolCalls_record tokens, rfl⟩
  | messageDelta stopReason tokens => exact ⟨progress.toolCalls_record tokens, rfl⟩
  | messageStop =>
      refine ⟨rfl, ?_⟩
      rcases progress.complete_cases with ⟨usage, hcomplete⟩ | hcomplete
      · rw [step, hcomplete]
        rfl
      · rw [step, hcomplete]
        rfl
  | _ => exact ⟨rfl, rfl⟩

end Progress

/-! ## The numbering -/

def openedIndices (events : List Event) : List UInt32 :=
  events.filterMap Event.opened?

def callNumbers (deltas : List Delta) : List UInt32 :=
  deltas.filterMap Delta.callNumber?

theorem openedIndices_cons_of_some {event : Event} {index : UInt32} (rest : List Event)
    (h : event.opened? = some index) :
    openedIndices (event :: rest) = index :: openedIndices rest :=
  List.filterMap_cons_some h

theorem openedIndices_cons_of_none {event : Event} (rest : List Event)
    (h : event.opened? = none) : openedIndices (event :: rest) = openedIndices rest :=
  List.filterMap_cons_none h

theorem callNumbers_toList_append (delta : Option Delta) (rest : List Delta) :
    callNumbers (delta.toList ++ rest) =
      (delta.bind Delta.callNumber?).toList ++ callNumbers rest := by
  cases delta with
  | none => rfl
  | some delta =>
      cases hnumber : delta.callNumber? <;> simp [callNumbers, hnumber]

/-- Every call is numbered by how many different indices began one before it. -/
theorem Progress.callNumbers_run (progress : Progress) (events : List Event)
    (hdifferent : progress.toolCalls.indices.Nodup) :
    callNumbers (progress.run events).2 =
      (List.range (openedIndices events).length).map fun k =>
        .ofNat (progress.toolCalls.indices.toFinset ∪
          ((openedIndices events).take k).toFinset).card := by
  -- The length of the table counts different indices only while no index is in it twice.
  induction events generalizing progress with
  | nil => rfl
  | cons event rest ih =>
      rw [run_cons, callNumbers_toList_append]
      cases hopened : event.opened? with
      | none =>
          obtain ⟨hcalls, hnumber⟩ := progress.step_of_not_opened hopened
          have hrest := ih (progress.step event).1 (by rw [hcalls]; exact hdifferent)
          rw [openedIndices_cons_of_none rest hopened, hnumber, hrest, hcalls]
          rfl
      | some index =>
          obtain ⟨hcalls, hnumber⟩ := progress.step_of_opened hopened
          have hkept := ToolCalls.nodup_indices_set index progress.nextCall hdifferent
          rw [← hcalls] at hkept
          have hfirst : progress.nextCall =
              .ofNat progress.toolCalls.indices.toFinset.card := by
            rw [List.toFinset_card_of_nodup hdifferent, nextCall, ToolCalls.indices,
              List.length_map]
          have hset (more : List UInt32) :
              (progress.step event).1.toolCalls.indices.toFinset ∪ more.toFinset =
                progress.toolCalls.indices.toFinset ∪ (index :: more).toFinset := by
            rw [hcalls, ToolCalls.toFinset_indices_set, List.toFinset_cons, Finset.insert_union,
              Finset.union_insert]
          rw [openedIndices_cons_of_some rest hopened, hnumber, ih _ hkept,
            List.length_cons, List.range_succ_eq_map, List.map_cons, List.map_map, hfirst]
          simp [hset, Function.comp_def]

section Different

variable {indices : List UInt32}

/-- How many different indices there are among the first `count` ones. -/
def differentAmong (indices : List UInt32) (count : Nat) : Nat :=
  (indices.take count).toFinset.card

theorem differentAmong_of_nodup {count : Nat} (hcount : count < indices.length)
    (h : indices.dropLast.Nodup) : differentAmong indices count = count := by
  have htake : indices.take count = indices.dropLast.take count := by
    rw [List.dropLast_eq_take, List.take_take, Nat.min_eq_left (by omega)]
  have hnodup : (indices.take count).Nodup := by
    rw [htake]
    exact h.sublist (List.take_sublist _ _)
  rw [differentAmong, List.toFinset_card_of_nodup hnodup, List.length_take]
  omega

theorem differentAmong_succ_of_mem {count : Nat} (hcount : count < indices.length)
    (h : indices[count] ∈ indices.take count) :
    differentAmong indices (count + 1) = differentAmong indices count := by
  have hsame : (indices.take (count + 1)).toFinset = (indices.take count).toFinset := by
    rw [List.take_succ_eq_append_getElem hcount, List.toFinset_append]
    have hsingle : [indices[count]].toFinset ⊆ (indices.take count).toFinset := by
      simpa using h
    exact Finset.union_eq_left.2 hsingle
  rw [differentAmong, hsame, differentAmong]

/-- The numbers by which calls under these indices are known. -/
def numbering (indices : List UInt32) : List UInt32 :=
  (List.range indices.length).map fun k => .ofNat (differentAmong indices k)

@[simp] theorem length_numbering : (numbering indices).length = indices.length := by
  rw [numbering, List.length_map, List.length_range]

theorem numbering_eq_range (h : indices.dropLast.Nodup) (hlength : indices.length ≤ UInt32.size) :
    (numbering indices).map UInt32.toNat = List.range indices.length := by
  have hself : ∀ k ∈ List.range indices.length,
      (UInt32.ofNat (differentAmong indices k)).toNat = k := by
    intro k hk
    have hlt : k < indices.length := List.mem_range.1 hk
    rw [differentAmong_of_nodup hlt h]
    exact UInt32.toNat_ofNat_of_lt' (by omega)
  rw [numbering, List.map_map]
  exact (List.map_congr_left hself).trans (List.map_id' _)

theorem nodup_of_range {numbers : List UInt32}
    (h : numbers.map UInt32.toNat = List.range numbers.length) : numbers.Nodup := by
  apply List.Nodup.of_map UInt32.toNat
  rw [h]
  exact List.nodup_range

/-- An index that is repeated before the last one gives its call's number to the next, too. -/
theorem dropLast_nodup_of_numbering (h : (numbering indices).Nodup) :
    indices.dropLast.Nodup := by
  -- By induction on how many indices are taken: the next one is new, for if it were not, the
  -- call after it would be numbered like its own.
  have htake : ∀ count, count < indices.length → (indices.take count).Nodup := by
    intro count
    induction count with
    | zero =>
        intro _
        simp
    | succ count ih =>
        intro hcount
        have hlt : count < indices.length := by omega
        have hnew : indices[count] ∉ indices.take count := by
          intro hmem
          have hsame := differentAmong_succ_of_mem hlt hmem
          have hnumbers : (numbering indices)[count + 1]? = (numbering indices)[count]? := by
            simp [numbering, hcount, hlt, hsame]
          have heq := (List.getElem?_inj (by simpa using hcount) h).1 hnumbers
          omega
        rw [List.take_succ_eq_append_getElem hlt, ← List.concat_eq_append]
        exact (ih hlt).concat hnew
  rw [List.dropLast_eq_take]
  cases indices with
  | nil => simp
  | cons index rest => exact htake _ (by simp)

theorem length_le_of_nodup {numbers : List UInt32} (h : numbers.Nodup) :
    numbers.length ≤ UInt32.size := by
  have hnodup : (numbers.map UInt32.toNat).Nodup :=
    h.map (fun _ _ heq => UInt32.toNat_inj.1 heq)
  have hsubset : (numbers.map UInt32.toNat).toFinset ⊆ Finset.range UInt32.size := by
    intro n hn
    obtain ⟨number, _, rfl⟩ := List.mem_map.1 (List.mem_toFinset.1 hn)
    exact Finset.mem_range.2 number.toNat_lt
  have hcard := Finset.card_le_card hsubset
  rw [List.toFinset_card_of_nodup hnodup, List.length_map, Finset.card_range] at hcard
  exact hcard

end Different

namespace Progress

/--
The numbers of a turn's calls, in the order in which the calls begin: each is the count of
different block indices that began a call before it.  They are 0, 1, 2, … exactly if no
index but the last repeats an earlier one (and there are numbers enough), and exactly then
no two calls share a number.
-/
theorem call_numbers_consecutive_iff (events : List Event) :
    let indices := openedIndices events
    let numbers := callNumbers (initial.run events).2
    numbers = numbering indices ∧
    (numbers.map UInt32.toNat = List.range numbers.length ↔
      indices.dropLast.Nodup ∧ indices.length ≤ UInt32.size) ∧
    (numbers.Nodup ↔ indices.dropLast.Nodup ∧ indices.length ≤ UInt32.size) := by
  intro indices numbers
  have hnumbers : numbers = numbering indices := by
    have hrun := initial.callNumbers_run events (by simp [initial, ToolCalls.indices])
    have hempty : initial.toolCalls.indices.toFinset = ∅ := rfl
    simp only [hempty, Finset.empty_union] at hrun
    exact hrun
  have hrange (h : indices.dropLast.Nodup ∧ indices.length ≤ UInt32.size) :
      (numbering indices).map UInt32.toNat = List.range (numbering indices).length := by
    rw [length_numbering]
    exact numbering_eq_range h.1 h.2
  have hindices (h : (numbering indices).Nodup) :
      indices.dropLast.Nodup ∧ indices.length ≤ UInt32.size := by
    have hlength := length_le_of_nodup h
    rw [length_numbering] at hlength
    exact ⟨dropLast_nodup_of_numbering h, hlength⟩
  rw [hnumbers]
  refine ⟨rfl, ⟨fun h => hindices (nodup_of_range h), hrange⟩, hindices, fun h => ?_⟩
  exact nodup_of_range (hrange h)

/-- Three tool uses under one index: the third gets the number of the second. -/
theorem call_numbers_collide :
    let opening : Event := .blockStart 0 ⟨"tool_use", some "t", some "f"⟩
    let numbers := callNumbers (initial.run [opening, opening, opening]).2
    numbers = [0, 1, 1] ∧ numbers.map UInt32.toNat ≠ List.range numbers.length ∧
      ¬ numbers.Nodup := by
  decide

end Progress

end Stream

end ChatGateway
