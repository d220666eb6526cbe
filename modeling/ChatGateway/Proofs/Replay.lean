import ChatGateway.Proofs.Calls
import ChatGateway.Proofs.Chunks
import ChatGateway.Proofs.Lines
import ChatGateway.Proofs.Reassembly

/-!
# Streamed and whole replies

A body that plays a reply back, block after block and each block in pieces, leads to the
same completion as the reply itself: what the caller puts together from the chunks is what
the caller would have got without streaming.
-/

namespace ChatGateway

namespace Stream

open Messages (Reply ReplyBlock)

/-! ## Bodies that play a reply back -/

namespace BlockDelta

def text? : BlockDelta -> Option String
  | .text piece => some piece
  | _ => none

def thinking? : BlockDelta -> Option String
  | .thinking piece => some piece
  | _ => none

def inputJson? : BlockDelta -> Option String
  | .inputJson piece => some piece
  | _ => none

end BlockDelta

/-- The beginning announces the block. -/
def Announces (start : BlockStart) : ReplyBlock -> Prop
  | .text _ => start.kind = "text"
  | .thinking _ => start.kind = "thinking"
  | .toolUse id name _ => start = ⟨"tool_use", some id, some name⟩
  | .other => start.kind ∉ ["text", "thinking", "tool_use"]

/--
The pieces make up the block: joined they are its text, its thinking or a JSON text of its
input.  Pieces of an unknown kind may stand anywhere.
-/
def Spells (deltas : List BlockDelta) : ReplyBlock -> Prop
  | .text text =>
      String.join (deltas.filterMap BlockDelta.text?) = text ∧
        ∀ delta ∈ deltas, delta.thinking? = none ∧ delta.inputJson? = none
  | .thinking thinking =>
      String.join (deltas.filterMap BlockDelta.thinking?) = thinking ∧
        ∀ delta ∈ deltas, delta.text? = none ∧ delta.inputJson? = none
  | .toolUse _ _ input =>
      (∃ value, Json.read
          (Text.bytes (String.join (deltas.filterMap BlockDelta.inputJson?))) = .ok value ∧
        value.canonical = input) ∧
        ∀ delta ∈ deltas, delta.text? = none ∧ delta.thinking? = none
  | .other => ∀ delta ∈ deltas, delta = .other

/-- The events of blocks whose numbers go on from `first`. -/
inductive PlaysBlocks : Nat -> List ReplyBlock -> List Event -> Prop
  | nil (first : Nat) : PlaysBlocks first [] []
  | cons {first : Nat} {index : UInt32} {start : BlockStart} {block : ReplyBlock}
      {deltas : List BlockDelta} {blocks : List ReplyBlock} {events : List Event}
      (hindex : index.toNat = first) (hstart : Announces start block)
      (hdeltas : Spells deltas block) (hrest : PlaysBlocks (first + 1) blocks events) :
      PlaysBlocks first (block :: blocks)
        ((.blockStart index start :: deltas.map (.blockDelta index) ++ [.blockStop]) ++ events)

/-- The event is a part of the reply, no noise between the parts. -/
def Event.isPart : Event -> Bool
  | .ping => false
  | .unknown => false
  | _ => true

/-- The events play the reply back, up to the one that completes it, with noise anywhere. -/
def Plays (reply : Reply) (events : List Event) : Prop :=
  ∃ (output input : Option UInt32) (blockEvents : List Event),
    PlaysBlocks 0 reply.content blockEvents ∧
    (input = none ∨ input = some reply.inputTokens) ∧
    events.filter Event.isPart =
      .messageStart reply.id (some ⟨some reply.inputTokens, output⟩) :: blockEvents ++
        [.messageDelta reply.stopReason (some ⟨input, some reply.outputTokens⟩)]

/-- The event that an item of a body is. -/
def Event.of? : Except Failure Frame -> Option Event
  | .ok frame => (Event.read frame.data).toOption
  | .error _ => none

/-- The items of a body are the events of the reply and the one that completes it. -/
def PlaysBack (reply : Reply) (items : List (Except Failure Frame)) : Prop :=
  ∃ (events : List Event) (more : List (Option Event)),
    items.map Event.of? = events.map some ++ some .messageStop :: more ∧ Plays reply events

/-! ## The events of a reply -/

/-- The event lets the stream go on and begins no message. -/
def Event.IsInside (event : Event) : Prop :=
  event.GoesOn ∧ ∀ id tokens, event ≠ .messageStart id tokens

theorem PlaysBlocks.isInside {first : Nat} {blocks : List ReplyBlock} {events : List Event}
    (h : PlaysBlocks first blocks events) : ∀ event ∈ events, event.IsInside := by
  induction h with
  | nil first =>
      simp
  | cons _ _ _ _ ih =>
      intro event hevent
      simp only [List.mem_append, List.mem_cons, List.mem_map, List.not_mem_nil, or_false]
        at hevent
      rcases hevent with ((rfl | ⟨_, _, rfl⟩) | rfl) | hrest
      · simp [Event.IsInside, Event.GoesOn]
      · simp [Event.IsInside, Event.GoesOn]
      · simp [Event.IsInside, Event.GoesOn]
      · exact ih event hrest

theorem Plays.goesOn {reply : Reply} {events : List Event} (h : Plays reply events) :
    ∀ event ∈ events, event.GoesOn := by
  obtain ⟨output, input, blockEvents, hblocks, _, hparts⟩ := h
  intro event hevent
  cases hpart : event.isPart with
  | false =>
      cases event with
      | ping => simp [Event.GoesOn]
      | unknown => simp [Event.GoesOn]
      | _ => cases hpart
  | true =>
      have hmem : event ∈ events.filter Event.isPart := List.mem_filter.2 ⟨hevent, hpart⟩
      rw [hparts] at hmem
      simp only [List.mem_append, List.mem_cons, List.not_mem_nil, or_false] at hmem
      rcases hmem with (rfl | hblock) | rfl
      · simp [Event.GoesOn]
      · exact (hblocks.isInside event hblock).1
      · simp [Event.GoesOn]

theorem Event.of?_eq_some {item : Except Failure Frame} {event : Event}
    (h : Event.of? item = some event) :
    ∃ frame, item = .ok frame ∧ Event.read frame.data = .ok event := by
  cases item with
  | error failure => cases h
  | ok frame =>
      refine ⟨frame, rfl, ?_⟩
      simp only [Event.of?] at h
      cases hread : Event.read frame.data with
      | error fault =>
          rw [hread] at h
          cases h
      | ok found =>
          rw [hread] at h
          cases h
          rfl

theorem meaning_of_goesOn {item : Except Failure Frame} {event : Event}
    (h : Event.of? item = some event) (hgoes : event.GoesOn) : meaning item = .ok event := by
  obtain ⟨frame, rfl, hread⟩ := Event.of?_eq_some h
  rcases meaning_of_read hread hgoes.2 with hcompleted | hok
  · obtain ⟨other, hsame, hother⟩ := meaning_eq_completed.1 hcompleted
    cases hsame
    rw [hread] at hother
    cases hother
    exact absurd rfl hgoes.1
  · exact hok

theorem opening_of_events {items : List (Except Failure Frame)} {events : List Event}
    {more : List (Option Event)}
    (hitems : items.map Event.of? = events.map some ++ some .messageStop :: more)
    (hgoes : ∀ event ∈ events, event.GoesOn) :
    opening items = events ∧ closing? items = some .completed := by
  induction events generalizing items with
  | nil =>
      obtain ⟨item, rest, rfl, hitem, _⟩ := List.map_eq_cons_iff.1 hitems
      have hmeaning := meaning_eq_completed.2 (Event.of?_eq_some hitem)
      simp [opening, closing?, hmeaning]
  | cons event events ih =>
      obtain ⟨item, rest, rfl, hitem, hrest⟩ := List.map_eq_cons_iff.1 hitems
      have hmeaning := meaning_of_goesOn hitem (hgoes event List.mem_cons_self)
      obtain ⟨hopening, hclosing⟩ := ih hrest fun other hother =>
        hgoes other (List.mem_cons_of_mem _ hother)
      simp [opening, closing?, hmeaning, hopening, hclosing]

/-- The events before the closing frame of a body that plays a reply back play it, too. -/
theorem PlaysBack.opening {reply : Reply} {items : List (Except Failure Frame)}
    (h : PlaysBack reply items) : Plays reply (opening items) ∧ CompletesFirst items := by
  obtain ⟨events, more, hitems, hplays⟩ := h
  obtain ⟨hopening, hclosing⟩ := opening_of_events hitems hplays.goesOn
  exact ⟨hopening ▸ hplays, completesFirst_iff.2 hclosing⟩

/-! ## The chunks of a block -/

namespace Progress

theorem run_filter_isPart (progress : Progress) (events : List Event) :
    progress.run (events.filter Event.isPart) = progress.run events := by
  induction events generalizing progress with
  | nil =>
      rfl
  | cons event rest ih =>
      cases hpart : event.isPart with
      | true => rw [List.filter_cons_of_pos hpart, run_cons, run_cons, ih]
      | false =>
          have hnoise : progress.step event = (progress, .nothing) := by
            cases event <;> first | rfl | cases hpart
          rw [List.filter_cons_of_neg (by simp [hpart]), ih, run_cons, hnoise]
          rfl

theorem run_blockDeltas (progress : Progress) (index : UInt32) (deltas : List BlockDelta) :
    progress.run (deltas.map (.blockDelta index)) =
      (progress, deltas.map fun delta => .content (progress.contentOf index delta)) := by
  induction deltas with
  | nil =>
      rfl
  | cons delta rest ih =>
      rw [List.map_cons, run_cons]
      simp [step, ih]

end Progress

/-- The changes that deltas make, up to the closing one. -/
def changesOf (deltas : List Delta) : List Change :=
  deltas.filterMap Delta.change?

@[simp] theorem changesOf_append (first second : List Delta) :
    changesOf (first ++ second) = changesOf first ++ changesOf second := by
  simp [changesOf]

theorem join_filterMap (f : α -> Option String) (items : List α) :
    String.join (items.filterMap f) = String.join (items.map fun item => (f item).getD "") := by
  induction items with
  | nil =>
      rfl
  | cons item rest ih =>
      cases hitem : f item <;> simp [hitem, ih]

theorem join_eq_empty {f : α -> Option String} {items : List α}
    (h : ∀ item ∈ items, f item = none) :
    String.join (items.map fun item => (f item).getD "") = "" := by
  rw [← join_filterMap, List.filterMap_eq_nil_iff.2 h, String.join_nil]

section Pieces

variable (progress : Progress) (index : UInt32) (deltas : List BlockDelta)

/-- The changes that the pieces of a block make. -/
def pieceChanges : List Change :=
  deltas.map fun delta => (progress.contentOf index delta).change

theorem changesOf_blockDeltas :
    changesOf (progress.run (deltas.map (.blockDelta index))).2 =
      pieceChanges progress index deltas := by
  rw [Progress.run_blockDeltas, changesOf, pieceChanges, List.filterMap_map]
  induction deltas with
  | nil => rfl
  | cons delta rest ih => simpa [Delta.change?] using ih

theorem joinedContent_pieces :
    joinedContent (pieceChanges progress index deltas) =
      String.join (deltas.map fun delta => delta.text?.getD "") := by
  rw [joinedContent, pieceChanges, List.map_map]
  congr 2
  funext delta
  cases delta <;> rfl

theorem joinedReasoning_pieces :
    joinedReasoning (pieceChanges progress index deltas) =
      String.join (deltas.map fun delta => delta.thinking?.getD "") := by
  rw [joinedReasoning, pieceChanges, List.map_map]
  congr 2
  funext delta
  cases delta <;> rfl

theorem finishes_pieces : finishes (pieceChanges progress index deltas) = [] := by
  rw [finishes, pieceChanges, List.filterMap_map, List.filterMap_eq_nil_iff]
  intro delta _
  cases delta <;> rfl

theorem callPieces_pieces :
    callPieces (pieceChanges progress index deltas) =
      (deltas.filterMap BlockDelta.inputJson?).map fun piece =>
        ⟨progress.toolCalls.callOf index, none, none, piece⟩ := by
  induction deltas with
  | nil => rfl
  | cons delta rest ih =>
      simp only [callPieces, pieceChanges, List.map_cons, List.flatMap_cons] at ih ⊢
      rw [ih]
      cases delta <;> rfl

end Pieces

/-- The changes bring a block of the reply, whose call is `call` if it is one. -/
structure Brings (call : UInt32) (changes : List Change) (block : ReplyBlock) : Prop where
  content : joinedContent changes = Chat.blockText block
  reasoning : joinedReasoning changes = Chat.blockThinking block
  finishes : finishes changes = []
  calls : ∀ gathered : List GatheredCall, (∀ other ∈ gathered, other.index ≠ call) →
    ∃ more, (callPieces changes).foldl GatheredCall.gather gathered = gathered ++ more ∧
      (∀ other ∈ more, other.index = call) ∧
      more.length = (Chat.blockCall block).toList.length ∧
      more.mapM GatheredCall.complete = some (Chat.blockCall block).toList

/-- A block that is no tool use leaves the progress as it is. -/
theorem brings_plain {start : BlockStart} {deltas : List BlockDelta} (block : ReplyBlock)
    (progress : Progress) (index call : UInt32) (hkind : start.kind ≠ "tool_use")
    (htext : String.join (deltas.map fun delta => delta.text?.getD "") = Chat.blockText block)
    (hthinking : String.join (deltas.map fun delta => delta.thinking?.getD "") =
      Chat.blockThinking block)
    (hjson : ∀ delta ∈ deltas, delta.inputJson? = none) (hcall : Chat.blockCall block = none) :
    ∃ deltas', progress.run
        (.blockStart index start :: deltas.map (.blockDelta index) ++ [.blockStop]) =
      (progress, deltas') ∧ Brings call (changesOf deltas') block := by
  have hstep : progress.step (.blockStart index start) = (progress, .nothing) := by
    simp only [Progress.step, if_neg hkind]
  have hrun : progress.run
      (.blockStart index start :: deltas.map (.blockDelta index) ++ [.blockStop]) =
        (progress, (progress.run (deltas.map (.blockDelta index))).2) := by
    rw [List.cons_append, Progress.run_cons, hstep, Progress.run_append,
      Progress.run_blockDeltas]
    simp [Progress.run, Progress.step]
  have hpieces : callPieces (pieceChanges progress index deltas) = [] := by
    rw [callPieces_pieces, List.filterMap_eq_nil_iff.2 hjson, List.map_nil]
  refine ⟨_, hrun, ?_⟩
  rw [changesOf_blockDeltas]
  refine ⟨?_, ?_, finishes_pieces progress index deltas, ?_⟩
  · rw [joinedContent_pieces, htext]
  · rw [joinedReasoning_pieces, hthinking]
  · intro gathered _
    exact ⟨[], by simp [hpieces], by simp, by simp [hcall], by simp [hcall]⟩

/-- A tool use takes the next number, and its arguments come under that number. -/
theorem brings_toolUse {id name : String} {input value : Json} {deltas : List BlockDelta}
    (progress : Progress) (index : UInt32)
    (hnew : ∀ entry ∈ progress.toolCalls, entry.1 ≠ index)
    (hvalue : Json.read (Text.bytes (String.join (deltas.filterMap BlockDelta.inputJson?))) =
      .ok value) (hinput : value.canonical = input)
    (hother : ∀ delta ∈ deltas, delta.text? = none ∧ delta.thinking? = none) :
    ∃ deltas', progress.run (.blockStart index ⟨"tool_use", some id, some name⟩ ::
        deltas.map (.blockDelta index) ++ [.blockStop]) =
      ({ progress with toolCalls := progress.toolCalls ++ [(index, progress.nextCall)] },
        deltas') ∧
      Brings progress.nextCall (changesOf deltas') (.toolUse id name input) := by
  let after : Progress :=
    { progress with toolCalls := progress.toolCalls ++ [(index, progress.nextCall)] }
  have hset : progress.toolCalls.set index progress.nextCall =
      progress.toolCalls ++ [(index, progress.nextCall)] := ToolCalls.set_of_new hnew
  have hstep : progress.step (.blockStart index ⟨"tool_use", some id, some name⟩) =
      (after, .one (.toolCall progress.nextCall id name)) := by
    rw [Progress.step, if_pos rfl]
    show ({ progress with toolCalls := progress.toolCalls.set index progress.nextCall }, _) = _
    rw [hset]
    rfl
  have hrun : progress.run (.blockStart index ⟨"tool_use", some id, some name⟩ ::
      deltas.map (.blockDelta index) ++ [.blockStop]) =
        (after, .toolCall progress.nextCall id name ::
          (after.run (deltas.map (.blockDelta index))).2) := by
    rw [List.cons_append, Progress.run_cons, hstep, Progress.run_append,
      Progress.run_blockDeltas]
    simp [Progress.run, Progress.step]
  have hcallOf : after.toolCalls.callOf index = progress.nextCall := by
    show (progress.toolCalls ++ [(index, progress.nextCall)] : ToolCalls).callOf index = _
    rw [← hset, ToolCalls.callOf_set]
  have hchanges : changesOf (.toolCall progress.nextCall id name ::
      (after.run (deltas.map (.blockDelta index))).2) =
        { calls := [⟨progress.nextCall, some id, some name, ""⟩] } ::
          pieceChanges after index deltas := by
    rw [← changesOf_blockDeltas]
    rfl
  refine ⟨_, hrun, ?_⟩
  rw [hchanges]
  refine ⟨?_, ?_, ?_, ?_⟩
  · have htext : joinedContent (pieceChanges after index deltas) = "" := by
      rw [joinedContent_pieces, join_eq_empty fun delta hdelta => (hother delta hdelta).1]
    simpa [joinedContent, Chat.blockText] using htext
  · have hthinking : joinedReasoning (pieceChanges after index deltas) = "" := by
      rw [joinedReasoning_pieces, join_eq_empty fun delta hdelta => (hother delta hdelta).2]
    simpa [joinedReasoning, Chat.blockThinking] using hthinking
  · have hfinishes := finishes_pieces after index deltas
    simpa [finishes] using hfinishes
  · intro gathered hgathered
    let header : CallPiece := ⟨progress.nextCall, some id, some name, ""⟩
    let pieces : List CallPiece := (deltas.filterMap BlockDelta.inputJson?).map fun piece =>
      ⟨progress.nextCall, none, none, piece⟩
    have hpieces : callPieces ({ calls := [header] } :: pieceChanges after index deltas) =
        header :: pieces := by
      have htail := callPieces_pieces after index deltas
      rw [hcallOf] at htail
      simpa [callPieces] using htail
    have harguments : String.join (pieces.map CallPiece.arguments) =
        String.join (deltas.filterMap BlockDelta.inputJson?) := by
      simp [pieces, Function.comp_def]
    have hindex : ∀ piece ∈ pieces, piece.index = (GatheredCall.begun header).index := by
      intro piece hpiece
      obtain ⟨_, _, rfl⟩ := List.mem_map.1 hpiece
      rfl
    have hcomplete : ((GatheredCall.begun header).extend
        (String.join (pieces.map CallPiece.arguments))).complete =
          some ⟨id, name, input.render⟩ := by
      rw [harguments, GatheredCall.complete, GatheredCall.compact?]
      simp [GatheredCall.extend, GatheredCall.begun, header, hvalue, Except.toOption, hinput]
    refine ⟨[(GatheredCall.begun header).extend (String.join (pieces.map CallPiece.arguments))],
      ?_, List.forall_mem_singleton.2 rfl, rfl, ?_⟩
    · rw [hpieces, List.foldl_cons, GatheredCall.gather_of_new hgathered,
        GatheredCall.gather_pieces hgathered hindex]
    · simp [hcomplete, Chat.blockCall]

theorem brings_block {start : BlockStart} {block : ReplyBlock} {deltas : List BlockDelta}
    (progress : Progress) (index : UInt32)
    (hnew : ∀ entry ∈ progress.toolCalls, entry.1 ≠ index) (hstart : Announces start block)
    (hdeltas : Spells deltas block) :
    ∃ deltas', progress.run
        (.blockStart index start :: deltas.map (.blockDelta index) ++ [.blockStop]) =
      ({ progress with
          toolCalls := progress.toolCalls ++
            (Chat.blockCall block).toList.map fun _ => (index, progress.nextCall) }, deltas') ∧
      Brings progress.nextCall (changesOf deltas') block := by
  cases block with
  | text text =>
      obtain ⟨htext, hother⟩ := hdeltas
      have hkind : start.kind ≠ "tool_use" := by
        rw [show start.kind = "text" from hstart]
        decide
      rw [join_filterMap] at htext
      obtain ⟨deltas', hrun, hbrings⟩ := brings_plain (.text text) progress index
        progress.nextCall hkind htext
        (join_eq_empty fun delta hdelta => (hother delta hdelta).1)
        (fun delta hdelta => (hother delta hdelta).2) rfl
      exact ⟨deltas', by simpa [Chat.blockCall] using hrun, hbrings⟩
  | thinking thinking =>
      obtain ⟨hthinking, hother⟩ := hdeltas
      have hkind : start.kind ≠ "tool_use" := by
        rw [show start.kind = "thinking" from hstart]
        decide
      rw [join_filterMap] at hthinking
      obtain ⟨deltas', hrun, hbrings⟩ := brings_plain (.thinking thinking) progress index
        progress.nextCall hkind
        (join_eq_empty fun delta hdelta => (hother delta hdelta).1) hthinking
        (fun delta hdelta => (hother delta hdelta).2) rfl
      exact ⟨deltas', by simpa [Chat.blockCall] using hrun, hbrings⟩
  | toolUse id name input =>
      obtain ⟨⟨value, hvalue, hinput⟩, hother⟩ := hdeltas
      obtain rfl : start = ⟨"tool_use", some id, some name⟩ := hstart
      exact brings_toolUse progress index hnew hvalue hinput hother
  | other =>
      have hkind : start.kind ≠ "tool_use" := by
        intro hkind
        exact hstart (by simp [hkind])
      have hnone : ∀ delta ∈ deltas, delta.text? = none ∧ delta.thinking? = none ∧
          delta.inputJson? = none := by
        intro delta hdelta
        rw [hdeltas delta hdelta]
        exact ⟨rfl, rfl, rfl⟩
      obtain ⟨deltas', hrun, hbrings⟩ := brings_plain .other progress index
        progress.nextCall hkind
        (join_eq_empty fun delta hdelta => (hnone delta hdelta).1)
        (join_eq_empty fun delta hdelta => (hnone delta hdelta).2.1)
        (fun delta hdelta => (hnone delta hdelta).2.2) rfl
      exact ⟨deltas', by simpa [Chat.blockCall] using hrun, hbrings⟩

theorem Progress.toNat_nextCall {progress : Progress} {index : UInt32}
    (h : progress.toolCalls.length ≤ index.toNat) :
    progress.nextCall.toNat = progress.toolCalls.length := by
  have hlt : index.toNat < UInt32.size := index.toNat_lt
  exact UInt32.toNat_ofNat_of_lt' (by omega)

/-- Blocks one after another, with the calls that the caller holds before them. -/
theorem brings_blocks {first : Nat} {blocks : List ReplyBlock} {events : List Event}
    (h : PlaysBlocks first blocks events) (progress : Progress) (gathered : List GatheredCall)
    (hlow : ∀ entry ∈ progress.toolCalls, entry.1.toNat < first)
    (hcount : progress.toolCalls.length ≤ first)
    (hgathered : ∀ call ∈ gathered, call.index.toNat < progress.toolCalls.length) :
    ∃ calls deltas more, progress.run events = ({ progress with toolCalls := calls }, deltas) ∧
      joinedContent (changesOf deltas) = String.join (blocks.map Chat.blockText) ∧
      joinedReasoning (changesOf deltas) = String.join (blocks.map Chat.blockThinking) ∧
      finishes (changesOf deltas) = [] ∧
      (callPieces (changesOf deltas)).foldl GatheredCall.gather gathered = gathered ++ more ∧
      more.mapM GatheredCall.complete = some (blocks.filterMap Chat.blockCall) := by
  induction h generalizing progress gathered with
  | nil first =>
      exact ⟨progress.toolCalls, [], [], rfl, rfl, rfl, rfl, by simp [changesOf, callPieces], rfl⟩
  | @cons first index start block deltas blocks events hindex hstart hdeltas _ ih =>
      have hnew : ∀ entry ∈ progress.toolCalls, entry.1 ≠ index := by
        rintro entry hentry rfl
        have hlt := hlow entry hentry
        omega
      have hnext : progress.nextCall.toNat = progress.toolCalls.length :=
        Progress.toNat_nextCall (hindex ▸ hcount)
      obtain ⟨deltas', hrun, hbrings⟩ := brings_block progress index hnew hstart hdeltas
      obtain ⟨begun, hfold, hbegun, hlength, hcomplete⟩ := hbrings.calls gathered (by
        rintro call hcall heq
        have hlt := hgathered call hcall
        rw [heq] at hlt
        omega)
      have hone : (Chat.blockCall block).toList.length ≤ 1 := by
        cases Chat.blockCall block <;> simp
      let next : Progress :=
        { progress with
          toolCalls := progress.toolCalls ++
            (Chat.blockCall block).toList.map fun _ => (index, progress.nextCall) }
      have hlow' : ∀ entry ∈ next.toolCalls, entry.1.toNat < first + 1 := by
        intro entry hentry
        rcases List.mem_append.1 hentry with hold | hfresh
        · exact Nat.lt_succ_of_lt (hlow entry hold)
        · obtain ⟨_, _, rfl⟩ := List.mem_map.1 hfresh
          simp only
          omega
      have hlength' : next.toolCalls.length =
          progress.toolCalls.length + (Chat.blockCall block).toList.length := by
        simp [next]
      -- a number below the count of calls stays below it, and a new call raises the count
      have hgathered' : ∀ call ∈ gathered ++ begun,
          call.index.toNat < next.toolCalls.length := by
        intro call hcall
        rcases List.mem_append.1 hcall with hold | hfresh
        · have hlt := hgathered call hold
          omega
        · have hpos := List.length_pos_of_mem hfresh
          rw [hbegun call hfresh, hnext]
          omega
      obtain ⟨calls, more, rest, hmore, htext, hthinking, hfinish, hrest, hcalls⟩ :=
        ih next (gathered ++ begun) hlow' (by omega) hgathered'
      refine ⟨calls, deltas' ++ more, begun ++ rest, ?_, ?_, ?_, ?_, ?_, ?_⟩
      · rw [Progress.run_append, hrun]
        simp only [next] at hmore
        simp only [hmore]
      · rw [changesOf_append, joinedContent_append, hbrings.content, htext, List.map_cons,
          String.join_cons]
      · rw [changesOf_append, joinedReasoning_append, hbrings.reasoning, hthinking,
          List.map_cons, String.join_cons]
      · rw [changesOf_append, finishes_append, hbrings.finishes, hfinish, List.nil_append]
      · rw [changesOf_append, callPieces_append, List.foldl_append, hfold, hrest,
          List.append_assoc]
      · rw [List.mapM_append, hcomplete, hcalls]
        cases hblock : Chat.blockCall block <;> simp [hblock]

/-! ## The chunks of a reply -/

/-- The delta adds a chunk under the head that the chunks have. -/
def Delta.Adds (delta : Delta) : Prop :=
  delta.change? ≠ none ∧ ∀ encoder : Encoder, (encoder.step delta).1 = encoder

theorem Progress.adds_of_step {event : Event} {delta : Delta} (progress : Progress)
    (h : event.IsInside) (hdelta : (progress.step event).2.delta? = some delta) : delta.Adds := by
  obtain ⟨⟨hstop, hreport⟩, hstart⟩ := h
  cases event with
  | messageStart id tokens => exact absurd rfl (hstart id tokens)
  | messageStop => exact absurd rfl hstop
  | error report => exact absurd rfl (hreport report)
  | blockStart index block =>
      simp only [step] at hdelta
      split at hdelta
      · cases hdelta
        exact ⟨by simp [Delta.change?], fun _ => rfl⟩
      · cases hdelta
  | _ =>
      cases hdelta <;> exact ⟨by simp [Delta.change?], fun _ => rfl⟩

theorem Progress.adds_of_run {events : List Event} (progress : Progress)
    (h : ∀ event ∈ events, event.IsInside) : ∀ delta ∈ (progress.run events).2, delta.Adds := by
  induction events generalizing progress with
  | nil =>
      simp
  | cons event rest ih =>
      intro delta hdelta
      rw [run_cons, List.mem_append, Option.mem_toList] at hdelta
      rcases hdelta with hfirst | hrest
      · exact progress.adds_of_step (h event List.mem_cons_self) hfirst
      · have hlater := fun other hother => h other (List.mem_cons_of_mem event hother)
        exact ih (progress.step event).1 hlater delta hrest

theorem Encoder.received_adds {deltas : List Delta} (encoder : Encoder) (rest : List Delta)
    (h : ∀ delta ∈ deltas, delta.Adds) :
    encoder.received (deltas ++ rest) =
      (changesOf deltas).map (fun change => .chunk (encoder.chunkWith change)) ++
        encoder.received rest := by
  induction deltas with
  | nil =>
      rfl
  | cons delta more ih =>
      obtain ⟨hchange, hsame⟩ := h delta List.mem_cons_self
      obtain ⟨change, hsome⟩ := Option.ne_none_iff_exists'.1 hchange
      have hmore := ih fun other hother => h other (List.mem_cons_of_mem _ hother)
      simp [received, changesOf, hsome, hsame, hmore]

/-- The deltas of a reply and the token counts after them. -/
theorem run_plays {reply : Reply} {events : List Event} (h : Plays reply events) :
    ∃ calls deltas more,
      Progress.initial.run events =
        (⟨calls, reply.inputTokens, reply.outputTokens⟩,
          .start reply.id :: (deltas ++ [.finish (.ofStopReason reply.stopReason)])) ∧
      (∀ delta ∈ deltas, delta.Adds) ∧
      joinedContent (changesOf deltas) = String.join (reply.content.map Chat.blockText) ∧
      joinedReasoning (changesOf deltas) = String.join (reply.content.map Chat.blockThinking) ∧
      finishes (changesOf deltas) = [] ∧
      (callPieces (changesOf deltas)).foldl GatheredCall.gather [] = more ∧
      more.mapM GatheredCall.complete = some (reply.content.filterMap Chat.blockCall) := by
  obtain ⟨output, input, blockEvents, hblocks, hinput, hparts⟩ := h
  let start : Progress := ⟨[], reply.inputTokens, output.getD 0⟩
  obtain ⟨calls, deltas, more, hrun, htext, hthinking, hfinish, hfold, hcomplete⟩ :=
    brings_blocks hblocks start [] (by simp [start]) (by simp [start]) (by simp)
  have hdeltas : ∀ delta ∈ deltas, delta.Adds := by
    have hadds := start.adds_of_run hblocks.isInside
    rw [hrun] at hadds
    exact hadds
  refine ⟨calls, deltas, more, ?_, hdeltas, htext, hthinking, hfinish, hfold, hcomplete⟩
  have hlast : input.getD reply.inputTokens = reply.inputTokens := by
    rcases hinput with rfl | rfl <;> rfl
  have hfirst : Progress.initial.step
      (.messageStart reply.id (some ⟨some reply.inputTokens, output⟩)) =
        (start, .one (.start reply.id)) := rfl
  rw [← Progress.run_filter_isPart, hparts, List.cons_append, Progress.run_cons, hfirst,
    Progress.run_append, hrun]
  simp [Progress.run, Progress.step, Progress.record, hlast, start]

open Intake (deltas)
open Json.Reader (Fits fits_nat fits_object isWhole_uint32)

/--
A body that plays a reply back, however its bytes were cut into reads and whatever noise
stands between the parts of the reply: the caller understands every frame that is no
comment, and the chunks with the usage make the very completion that the reply has without
streaming.  The stream is complete exactly if there is that completion; if the reply's counts
have no total, there is none and the stream breaks off.
-/
theorem reassemble_streamed {idle : Nat} {reads : List (Nat × Read)} {reply : Reply}
    (stop : Nat) (encoder : Encoder) (husage : encoder.includeUsage = true)
    (hplays : PlaysBack reply (framesOf (arrived idle reads))) :
    let completion := Chat.Completion.ofReply reply encoder.model encoder.created
    ∃ chunks : List Chunk,
      (Encoder.withoutComments (encoder.frames stop (deltas idle reads))).map
          (fun frame => Received.ofText frame.render) =
        (chunks.map Received.chunk ++ if completion.isSome then [Received.done] else []).map
          some ∧
      reassemble chunks = completion := by
  intro completion
  obtain ⟨hopening, hcomplete⟩ := hplays.opening
  obtain ⟨calls, blockDeltas, more, hrun, hadds, htext, hthinking, hfinish, hfold, hmore⟩ :=
    run_plays hopening
  let named : Encoder := { encoder with id := Chat.completionId reply.id }
  let reason := Chat.FinishReason.ofStopReason reply.stopReason
  let usage := Chat.Usage.ofCounts? reply.inputTokens reply.outputTokens
  let last : List Delta := .finish reason :: (usage.map Delta.done).toList
  let changes : List Change := { role := some "assistant", content := some "" } ::
    (changesOf blockDeltas ++ [{ finish := some reason.name }])
  refine ⟨wholeChunks named changes usage, ?_, ?_⟩
  · have hclose : (Progress.close ⟨calls, reply.inputTokens, reply.outputTokens⟩
        .completed).delta?.toList = (usage.map Delta.done).toList := by
      simp only [Progress.close, Progress.complete, usage]
      cases Chat.Usage.ofCounts? reply.inputTokens reply.outputTokens <;> rfl
    have hdeltas : (Progress.initial.run (opening (framesOf (arrived idle reads)))).2 ++
        ((Progress.initial.run (opening (framesOf (arrived idle reads)))).1.close
          .completed).delta?.toList = .start reply.id :: (blockDeltas ++ last) := by
      rw [hrun, hclose]
      simp [reason, last]
    have hstart : encoder.received (.start reply.id :: (blockDeltas ++ last)) =
        .chunk (named.chunkWith { role := some "assistant", content := some "" }) ::
          named.received (blockDeltas ++ last) := rfl
    have hlast : named.received last =
        .chunk (named.chunkWith { finish := some reason.name }) ::
          ((usage.map named.usageWith).toList.map Received.chunk ++
            if completion.isSome then [.done] else []) := by
      have hsome : completion.isSome = usage.isSome := Option.isSome_map
      rw [hsome]
      simp only [last]
      cases usage with
      | none => rfl
      | some usage =>
          simp [Encoder.received, Encoder.step, Delta.change?, Encoder.lastReceived, named, husage]
    rw [Encoder.withoutComments_frames, Encoder.ofText_written, Intake.deltas_eq_translation,
      Intake.translation_eq, Intake.closingOf_eq_completed.2 hcomplete, hdeltas, hstart,
      named.received_adds last hadds, hlast]
    simp [wholeChunks, changes]
  · have hcalls : ((callPieces changes).foldl GatheredCall.gather []).mapM
        GatheredCall.complete = some (reply.content.filterMap Chat.blockCall) := by
      have hpieces : callPieces changes = callPieces (changesOf blockDeltas) := by
        simp [changes, callPieces]
      rw [hpieces, hfold, hmore]
    have hreason : finishes changes = [reason.name] := by
      simpa [changes, finishes] using hfinish
    have hcontent : joinedContent changes = String.join (reply.content.map Chat.blockText) := by
      simpa [changes, joinedContent] using htext
    have hreasoning : joinedReasoning changes =
        String.join (reply.content.map Chat.blockThinking) := by
      simpa [changes, joinedReasoning] using hthinking
    rw [reassemble_wholeChunks named usage hcalls hreason, hcontent, hreasoning]
    rfl

/-- A call in two pieces, with a comment and a ping between the parts of the reply. -/
theorem reassemble_streamed_call_in_pieces :
    let event (json : String) := lineBlock ("data: ".toList ++ json.toList)
    let comment := lineBlock (':' :: "on".toList)
    let start := "\x7b\"type\":\"message_start\",\"message\":" ++
      "\x7b\"id\":\"m\",\"usage\":\x7b\"input_tokens\":3\x7d\x7d\x7d"
    let block := "\x7b\"type\":\"content_block_start\",\"index\":0,\"content_block\":" ++
      "\x7b\"type\":\"tool_use\",\"id\":\"t\",\"name\":\"f\"\x7d\x7d"
    let first := "\x7b\"type\":\"content_block_delta\",\"index\":0,\"delta\":" ++
      "\x7b\"type\":\"input_json_delta\",\"partial_json\":\"\x7b\\\"x\"\x7d\x7d"
    let second := "\x7b\"type\":\"content_block_delta\",\"index\":0,\"delta\":" ++
      "\x7b\"type\":\"input_json_delta\",\"partial_json\":\"\\\":1\x7d\"\x7d\x7d"
    let stop := "\x7b\"type\":\"content_block_stop\",\"index\":0\x7d"
    let finish := "\x7b\"type\":\"message_delta\",\"delta\":" ++
      "\x7b\"stop_reason\":\"tool_use\"\x7d,\"usage\":\x7b\"output_tokens\":5\x7d\x7d"
    let reads : List (Nat × Read) := [
      (4, .chunk (event start ++ comment ++ event block ++ event first)),
      (2, .chunk (event "\x7b\"type\":\"ping\"\x7d" ++ event second ++ event stop)),
      (0, .chunk (event finish ++ event "\x7b\"type\":\"message_stop\"\x7d")), (0, .closed)]
    let reply : Reply := ⟨"m", [.toolUse "t" "f" (.object [("x", .int 1)])], some "tool_use", 3, 5⟩
    let encoder : Encoder := ⟨"chatcmpl-1", 7, "alias", true⟩
    PlaysBack reply (framesOf (arrived 9 reads)) ∧
    ∃ chunks : List Chunk,
      (Encoder.withoutComments (encoder.frames 0 (deltas 9 reads))).map
          (fun frame => Received.ofText frame.render) =
        (chunks.map Received.chunk ++ [Received.done]).map some ∧
      reassemble chunks = some {
        id := "chatcmpl-m", created := 7, model := "alias", content := none, reasoning := none
        toolCalls := [⟨"t", "f", "\x7b\"x\":1\x7d"⟩], finish := .toolCalls
        usage := ⟨3, 5, by decide⟩ } := by
  intro event comment start block first second stop finish reads reply encoder
  let pieces : List BlockDelta := [.inputJson "\x7b\"x", .inputJson "\":1\x7d"]
  let blockEvents : List Event :=
    .blockStart 0 ⟨"tool_use", some "t", some "f"⟩ :: pieces.map (.blockDelta 0) ++ [.blockStop]
  let events : List Event := [
    .messageStart "m" (some ⟨some 3, none⟩), .blockStart 0 ⟨"tool_use", some "t", some "f"⟩,
    .blockDelta 0 (.inputJson "\x7b\"x"), .ping, .blockDelta 0 (.inputJson "\":1\x7d"), .blockStop,
    .messageDelta (some "tool_use") (some ⟨none, some 5⟩)]
  have hevent (json : String) (rest : List UInt8) (h : '\n' ∉ json.toList) :
      framesOf (event json ++ rest) = .ok ⟨none, json⟩ :: framesOf rest := by
    rw [framesOf_data rest h, String.ofList_toList]
  have hcomment (rest : List UInt8) : framesOf (comment ++ rest) = framesOf rest :=
    framesOf_comment rest (by decide)
  have hitems : (framesOf (arrived 9 reads)).map Event.of? =
      events.map some ++ [some .messageStop] := by
    simp only [reads, arrived, List.append_assoc, Nat.reduceLT, reduceIte]
    rw [hevent _ _ (by decide +kernel), hcomment, hevent _ _ (by decide +kernel),
      hevent _ _ (by decide +kernel), hevent _ _ (by decide +kernel),
      hevent _ _ (by decide +kernel), hevent _ _ (by decide +kernel),
      hevent _ _ (by decide +kernel), hevent _ _ (by decide +kernel), framesOf_nil]
    decide +kernel
  have hspells : Spells pieces (.toolUse "t" "f" (.object [("x", .int 1)])) := by
    have hrender : (Json.object [("x", .int 1)]).render =
        String.join (pieces.filterMap BlockDelta.inputJson?) := by decide
    have hfits : Fits Json.nesting (.object [("x", .int 1)]) :=
      fits_object (List.forall_mem_singleton.2 (fits_nat (isWhole_uint32 1)))
    refine ⟨⟨.object [("x", .int 1)], ?_, rfl⟩, by decide⟩
    rw [← hrender]
    exact Json.read_render hfits
  have hstart : Announces ⟨"tool_use", some "t", some "f"⟩
      (.toolUse "t" "f" (.object [("x", .int 1)])) := rfl
  have hblocks : PlaysBlocks 0 reply.content blockEvents :=
    @PlaysBlocks.cons 0 0 _ _ pieces [] [] rfl hstart hspells (.nil 1)
  have hplays : PlaysBack reply (framesOf (arrived 9 reads)) :=
    ⟨events, [], hitems, none, none, blockEvents, hblocks, Or.inl rfl, rfl⟩
  exact ⟨hplays, reassemble_streamed 0 encoder rfl hplays⟩

end Stream

end ChatGateway
