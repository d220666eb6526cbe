import ChatGateway.Chat.OfReply
import ChatGateway.Proofs.Hoisting
import ChatGateway.Proofs.JsonBounds
import ChatGateway.Proofs.JsonRecords

/-!
# A reply that is sent back

The message that a caller gets for a reply, sent back as it is in a later request, becomes the
turn that the reply was: its text in one block, and its tool uses with the same inputs.
-/

namespace ChatGateway

open Json.Reader (Bounded Fits Opens TakesOff Yields)
open Json.Reader (allBlank_nil listOf_takes record_takes_two text_takes via_takes)
open Json.Reader (yields_listOf yields_record yields_store yields_via)

namespace Messages

/-! ## Inputs of tools -/

/-- The input of a tool use is in canonical form and does not open too many brackets. -/
def ReplyBlock.Sound (depth : Nat) : ReplyBlock -> Prop
  | .toolUse _ _ input => Bounded depth input ∧ input.canonical = input
  | _ => True

open Json.Decode in
theorem ReplyBlock.sound_of_decoder {depth : Nat} {value : Json} {block : ReplyBlock}
    (hvalue : Bounded (depth + 1) value) (h : decoder value = some block) : block.Sound depth := by
  obtain ⟨⟨tag, rest⟩, hsplit, h⟩ := Option.bind_eq_some_iff.1 h
  obtain ⟨chosen, hchosen, h⟩ := Option.bind_eq_some_iff.1 h
  have hrest : Inside (Bounded depth) rest := (inside_of_bounded hvalue).of_splitTag hsplit
  rcases select_eq_some hchosen with rfl | hmem
  · unfold bare at h
    split at h <;> cases h <;> trivial
  · simp only [List.map_cons, List.map_nil, List.mem_cons, List.not_mem_nil, or_false] at hmem
    rcases hmem with rfl | rfl | rfl
    · exact (Keeps.nil.required fun _ _ _ _ _ _ => trivial).record
        (I := fun block => block.Sound depth) hrest trivial h
    · exact (Keeps.nil.required fun _ _ _ _ _ _ => trivial).record
        (I := fun block => block.Sound depth) hrest trivial h
    · obtain ⟨use, huse, rfl⟩ := Option.map_eq_some_iff.1 h
      have hinput : Bounded depth use.2.2 := by
        refine Keeps.record (I := fun use => Bounded depth use.2.2) ?_ hrest ?_ huse
        · refine ((Keeps.nil.required ?_).required ?_).required ?_
          · intro input found hbounded hfound state _
            cases hfound
            exact hbounded
          · exact fun _ _ _ _ state hstate => hstate
          · exact fun _ _ _ _ state hstate => hstate
        · cases depth <;> trivial
      exact ⟨hinput.canonical, Json.canonical_canonical _⟩

/-- The tool uses of a reply that was read. -/
theorem Reply.sound_of_read {body : List UInt8} {reply : Reply} (h : read body = .ok reply)
    (block : ReplyBlock) (hblock : block ∈ reply.content) : block.Sound 125 := by
  have hread : Yields (reader Json.nesting) fun reply =>
      ∀ block ∈ reply.content, block.Sound 125 := by
    refine yields_record (fun less hless => ?_) (by simp)
    obtain rfl : less = 126 := Nat.succ.inj hless.symm
    refine (((Json.Reader.Keeps.nil.cons ?_).cons ?_).cons ?_).cons ?_
    · exact yields_store fun _ _ hstate => hstate
    · exact yields_store fun _ _ hstate => hstate
    · refine (yields_listOf fun less hless => ?_).map fun content hcontent _ _ => hcontent
      obtain rfl : less = 125 := Nat.succ.inj hless.symm
      exact yields_via fun value block hvalue => ReplyBlock.sound_of_decoder hvalue
    · exact yields_store fun _ _ hstate => hstate
  exact hread.run h block hblock

/-- An answer that holds these blocks, and neither a reason why it ended nor a usage. -/
theorem Reply.reader_takes (depth : Nat) (id : String) {written : List Json}
    {content : List ReplyBlock} (hfits : ∀ value ∈ written, Fits depth value)
    (hdecode : List.Forall₂ (fun value block => ReplyBlock.decoder value = some block)
      written content)
    (hopens : ∀ value ∈ written, Opens 0x5D (Text.Utf8.encode value.write)) :
    TakesOff (reader (depth + 2)) (Text.Utf8.encode (Json.write
      (.object [("id", .text id), ("content", .array written)]))) ⟨id, content, none, 0, 0⟩ := by
  have htakes : List.Forall₂ (fun value block =>
      TakesOff (Json.Reader.via ReplyBlock.decoder depth) (Text.Utf8.encode value.write) block)
      written content :=
    ((List.forall₂_and_left _ _).2 ⟨hfits, hdecode⟩).imp fun _ _ h => via_takes h.1 h.2
  unfold reader
  refine record_takes_two ?_ rfl rfl ((text_takes _ allBlank_nil id).map _)
    ((listOf_takes htakes hopens).map _) (by decide) rfl
  simp

end Messages

namespace Chat

open Json.Reader
open Text (Utf8.encode)

/-! ## The message in the text of a later request -/

namespace ToolCall

/-- The fields of a call, as they are read. -/
def fields : List (TextField ToolCall) := [
  .required "id" text fun id call => { call with id },
  .required "function" functionReader fun function call =>
    { call with name := function.1, arguments := function.2 }]

theorem reader_eq : reader = record fields ⟨"", "", ""⟩ := rfl

theorem fields_nodup : (fields.map Json.Field.name).Nodup := by
  simp [fields]

theorem functionReader_takes (depth : Nat) (name arguments : String) :
    TakesOff (functionReader (depth + 1)) (Utf8.encode (Json.write
      (.object [("name", .text name), ("arguments", .text arguments)]))) (name, arguments) := by
  unfold functionReader
  refine record_takes_two ?_ rfl rfl ((text_takes depth allBlank_nil name).map _)
    ((text_takes depth allBlank_nil arguments).map _) (by decide) rfl
  simp

/-- The call that a caller who repeats what was called makes. -/
def ofCalled (called : CalledTool) : ToolCall :=
  ⟨called.id, called.name, called.arguments⟩

theorem reader_takes (depth : Nat) (called : CalledTool) :
    TakesOff (reader (depth + 2)) (Utf8.encode called.toJson.write) (ofCalled called) := by
  have hid : TakesOff (member fields (depth + 1) ([], ⟨"", "", ""⟩)) _ _ :=
    member_takes (.head _) fields_nodup (by simp) allBlank_nil
      ((text_takes (depth + 1) allBlank_nil called.id).map _)
  have hkind : TakesOff (member fields (depth + 1) (["id"], ⟨called.id, "", ""⟩))
      (memberBytes ("type", .text "function")) _ :=
    member_skips rfl (skip_text "function")
  have hfunction : TakesOff (member fields (depth + 1) (["id"], ⟨called.id, "", ""⟩)) _ _ :=
    member_takes (.tail _ (.head _)) fields_nodup (by simp) allBlank_nil
      ((functionReader_takes depth called.name called.arguments).map _)
  rw [reader_eq]
  exact record_takes (.cons hid (.cons hkind (.cons hfunction (.nil _)))) (by decide)

end ToolCall

namespace Message

/-- The fields of a message, as they are read. -/
def fields : List (TextField Message) := [
  .required "role" text fun role message => { message with role },
  .defaulted "content" (via Content.decoder) fun content message => { message with content },
  .optional "tool_calls" (listOf ToolCall.reader) fun toolCalls message =>
    { message with toolCalls },
  .optional "tool_call_id" text fun toolCallId message => { message with toolCallId }]

theorem reader_eq : reader = record fields ⟨"", .absent, none, none⟩ := rfl

theorem fields_nodup : (fields.map Json.Field.name).Nodup := by
  simp [fields]

/-- The message of a caller who repeats the one of a completion. -/
def ofCompletion (completion : Completion) : Message where
  role := "assistant"
  content := completion.content.elim .absent .text
  toolCalls :=
    if completion.toolCalls.isEmpty then none
    else some (completion.toolCalls.map ToolCall.ofCalled)
  toolCallId := none

theorem toolCalls_ofCompletion (completion : Completion) :
    (ofCompletion completion).toolCalls.getD [] = completion.toolCalls.map ToolCall.ofCalled := by
  by_cases hnone : completion.toolCalls = [] <;> simp [ofCompletion, hnone]

theorem content_takes (depth : Nat) (content : Option String) :
    TakesOff (via Content.decoder depth) (Utf8.encode (Json.write (Json.optional .text content)))
      (content.elim .absent .text) := by
  cases content with
  | none => exact via_takes (fits_null depth) rfl
  | some plain => exact via_takes (fits_text depth plain) rfl

theorem toolCalls_takes (depth : Nat) (calls : List CalledTool) :
    TakesOff (nullable (listOf ToolCall.reader) (depth + 3))
      (Utf8.encode (Json.write (.array (calls.map CalledTool.toJson))))
      (some (calls.map ToolCall.ofCalled)) := by
  refine nullable_takes (Json.Reader.encode_array _) (by decide) (by decide) (listOf_takes ?_ ?_)
  · rw [List.forall₂_map_left_iff, List.forall₂_map_right_iff, List.forall₂_same]
    exact fun called _ => ToolCall.reader_takes depth called
  · intro value hvalue
    obtain ⟨called, -, rfl⟩ := List.mem_map.1 hvalue
    exact opens_object _

/-- The message of a completion is read as it is, its reasoning passed over. -/
theorem reader_takes (depth : Nat) (completion : Completion) :
    TakesOff (reader (depth + 4)) (Utf8.encode completion.message.write)
      (ofCompletion completion) := by
  have hrole : TakesOff (member fields (depth + 3) ([], ⟨"", .absent, none, none⟩)) _ _ :=
    member_takes (.head _) fields_nodup (by simp) allBlank_nil
      ((text_takes (depth + 3) allBlank_nil "assistant").map _)
  have hcontent : TakesOff (member fields (depth + 3)
      (["role"], ⟨"assistant", .absent, none, none⟩)) _ _ :=
    member_takes (.tail _ (.head _)) fields_nodup (by simp) allBlank_nil
      ((content_takes (depth + 3) completion.content).map _)
  have hreasoning : Folds (member fields (depth + 3))
      (["content", "role"], ⟨"assistant", completion.content.elim .absent .text, none, none⟩)
      ((Json.member? "reasoning_content" .text completion.reasoning).map memberBytes)
      (["content", "role"], ⟨"assistant", completion.content.elim .absent .text, none, none⟩) := by
    cases completion.reasoning with
    | none => exact .nil _
    | some reasoning => exact .cons (member_skips rfl (skip_text reasoning)) (.nil _)
  have hfirst : Folds (member fields (depth + 3)) _ ([("role", .text "assistant"),
      ("content", Json.optional .text completion.content)].map memberBytes) _ :=
    .cons hrole (.cons hcontent (.nil _))
  have hbefore := hfirst.append hreasoning
  rw [reader_eq, Completion.message, ofCompletion]
  cases hcalls : completion.toolCalls.isEmpty with
  | true =>
      rw [if_pos rfl, if_pos rfl, List.append_nil]
      rw [← List.map_append] at hbefore
      exact record_takes hbefore (by decide)
  | false =>
      have htake : TakesOff (member fields (depth + 3) (["content", "role"],
          ⟨"assistant", completion.content.elim .absent .text, none, none⟩)) _ _ :=
        member_takes (.tail _ (.tail _ (.head _))) fields_nodup (by simp)
          allBlank_nil ((toolCalls_takes depth completion.toolCalls).map _)
      have hlast : Folds (member fields (depth + 3)) _
          ([("tool_calls", .array (completion.toolCalls.map CalledTool.toJson))].map memberBytes)
          _ := .cons htake (.nil _)
      have hall := hbefore.append hlast
      rw [← List.map_append, ← List.map_append] at hall
      rw [if_neg Bool.false_ne_true, if_neg Bool.false_ne_true]
      exact record_takes hall (by decide)

end Message

/-- A request for a model with a single message and nothing else. -/
theorem Request.reader_takes (depth : Nat) (model : String) {written : Json} {message : Message}
    (h : TakesOff (Message.reader depth) (Utf8.encode written.write) message)
    (hopens : Opens 0x5D (Utf8.encode written.write)) :
    TakesOff (reader (depth + 2)) (Utf8.encode (Json.write
      (.object [("model", .text model), ("messages", .array [written])])))
      (ofMessages model [message]) := by
  have hlist := listOf_takes (.cons h .nil) (by simpa using hopens)
  unfold reader ofMessages
  refine record_takes_two ?_ rfl rfl ((text_takes _ allBlank_nil model).map _) (hlist.map _)
    (by decide) rfl
  simp

end Chat

/-! ## The turn of a reply -/

theorem Text.isBlank_of_isDigit {c : Char} (h : c.isDigit = true) : isBlank c = false := by
  have hrange : 0x30 ≤ c.toNat ∧ c.toNat ≤ 0x39 := by
    simpa [Char.isDigit, UInt32.le_iff_toNat_le] using h
  simp only [isBlank, Bool.or_eq_false_iff, Bool.and_eq_false_iff, decide_eq_false_iff_not]
  omega

/-- A written whole number ends in a digit. -/
theorem Json.exists_digit_writeNumber (value : Int) :
    ∃ c ∈ writeNumber (.int value), c.isDigit = true := by
  have hdigit (n : Nat) : ∃ c ∈ Nat.toDigits 10 n, c.isDigit = true := by
    obtain ⟨c, more, hdigits⟩ := List.exists_cons_of_ne_nil
      (Nat.toDigits_ne_nil (n := n) (b := 10))
    have hmem : c ∈ Nat.toDigits 10 n := by simp [hdigits]
    exact ⟨c, hmem, Nat.isDigit_of_mem_toDigits (by omega) (by omega) hmem⟩
  cases value with
  | ofNat n =>
      rw [writeNumber, Reader.toList_ofNat]
      exact hdigit n
  | negSucc n =>
      obtain ⟨c, hmem, hc⟩ := hdigit (n + 1)
      rw [writeNumber, Reader.toList_negSucc]
      exact ⟨c, .tail _ hmem, hc⟩

/-- A written value holds a character that is not blank. -/
theorem Json.isAllBlank_render {value : Json} (h : Json.Reader.Whole value) :
    Text.isAllBlank value.render = false := by
  have hvisible : ∃ c ∈ value.write, Text.isBlank c = false := by
    cases h with
    | null => exact ⟨'n', by simp [Json.write], by decide⟩
    | @bool value => cases value <;> exact ⟨'e', by simp [Json.write], by decide⟩
    | text => exact ⟨'"', by simp [Json.write, Json.quote], by decide⟩
    | array => exact ⟨'[', by simp [Json.write], by decide⟩
    | object => exact ⟨'{', by simp [Json.write], by decide⟩
    | @int value =>
        obtain ⟨c, hmem, hc⟩ := exists_digit_writeNumber value
        exact ⟨c, hmem, Text.isBlank_of_isDigit hc⟩
  obtain ⟨c, hmem, hc⟩ := hvisible
  rw [Text.isAllBlank, Json.render, String.toList_ofList, List.all_eq_false]
  exact ⟨c, hmem, by simp [hc]⟩

namespace Messages

open Chat (CalledTool ToolCall Completion)

namespace ReplyBlock

def text? : ReplyBlock -> Option String
  | .text plain => some plain
  | _ => none

/-- The block of a tool use in a later request. -/
def use? : ReplyBlock -> Option Block
  | .toolUse id name input => some (.toolUse id name input)
  | _ => none

/-- If this is a tool use, every number in its input is a whole one. -/
def Whole : ReplyBlock -> Prop
  | .toolUse _ _ input => Json.Reader.Whole input
  | _ => True

end ReplyBlock

/-- The turn of the assistant that a reply is: its text in one block, and then its tool uses. -/
def Reply.turn (reply : Reply) : Turn :=
  let text := String.join (reply.content.filterMap ReplyBlock.text?)
  let blocks := (if text.isEmpty then [] else [.text text]) ++
    reply.content.filterMap ReplyBlock.use?
  ⟨.assistant, if blocks.isEmpty then [.text ""] else blocks⟩

theorem join_blockText (content : List ReplyBlock) :
    String.join (content.map Chat.blockText) =
      String.join (content.filterMap ReplyBlock.text?) := by
  induction content with
  | nil => rfl
  | cons block rest ih =>
      cases block with
      | text plain => simpa [Chat.blockText, ReplyBlock.text?] using ih
      | thinking | toolUse | other =>
          rw [List.map_cons, List.filterMap_cons_none rfl, String.join_cons, ih]
          exact String.empty_append

section Calls

variable {content : List ReplyBlock} {id name : String} {input : Json}

theorem callBlock_render (hsound : (ReplyBlock.toolUse id name input).Sound 125)
    (hwhole : Json.Reader.Whole input) :
    callBlock ⟨id, name, input.render⟩ = .ok (.toolUse id name input) := by
  obtain ⟨hbounded, hcanonical⟩ := hsound
  have hfits : Json.Reader.Fits Json.nesting input := (hbounded.mono (by decide)).fits hwhole
  have hinput : toolInput ⟨id, name, input.render⟩ = .ok input := by
    simp [toolInput, Json.isAllBlank_render hwhole, Json.read_render hfits, hcanonical]
  rw [callBlock, hinput]
  rfl

/-- The calls of a reply become its tool uses again. -/
theorem callBlock_blockCall (hsound : ∀ block ∈ content, block.Sound 125)
    (hwhole : ∀ block ∈ content, block.Whole) :
    ((content.filterMap Chat.blockCall).map ToolCall.ofCalled).mapM callBlock =
      .ok (content.filterMap ReplyBlock.use?) := by
  rw [mapM_eq_ok]
  induction content with
  | nil => exact .nil
  | cons block rest ih =>
      have hrest := ih (fun block hblock => hsound block (.tail _ hblock))
        fun block hblock => hwhole block (.tail _ hblock)
      cases block with
      | toolUse id name input =>
          exact .cons (callBlock_render (hsound _ (.head _)) (hwhole _ (.head _))) hrest
      | text | thinking | other => exact hrest

end Calls

section Turns

variable {reply : Reply} {model : String} {now : UInt64} {completion : Completion}

/-- The message of a reply is placed as the turn that the reply is. -/
theorem place_ofCompletion (h : Completion.ofReply reply model now = some completion)
    (hsound : ∀ block ∈ reply.content, block.Sound 125)
    (hwhole : ∀ block ∈ reply.content, block.Whole) :
    place (.ofCompletion completion) = .ok (.turn reply.turn) := by
  obtain ⟨usage, -, rfl⟩ := Option.map_eq_some_iff.1 h
  let message := Chat.Message.ofCompletion (Completion.withUsage reply model now usage)
  have hcontent : contentBlocks message.content =
      .ok (textBlocks (String.join (reply.content.filterMap ReplyBlock.text?))) := by
    simp only [message, Chat.Message.ofCompletion, Completion.withUsage, join_blockText,
      Chat.nonEmpty, textBlocks]
    split <;> simp_all [contentBlocks, textBlocks]
  have hcalls : message.toolCalls.getD [] =
      (reply.content.filterMap Chat.blockCall).map ToolCall.ofCalled :=
    Chat.Message.toolCalls_ofCompletion _
  have hblocks : turnBlocks message.content (message.toolCalls.getD []) =
      .ok reply.turn.content := by
    rw [turnBlocks, hcontent, hcalls]
    show (do let uses ← List.mapM callBlock _; _) = _
    rw [callBlock_blockCall hsound hwhole]
    rfl
  show (do let content ← turnBlocks message.content (message.toolCalls.getD []); _) = _
  rw [hblocks]
  rfl

end Turns

section Conversation

variable {request : Chat.Request} {message : Chat.Message} {before after : List Chat.Message}
  {turn : Turn} {model : String} {sent : Request}

theorem systemText_insert (turn : Turn) (first second : List Placed) :
    systemText (first ++ .turn turn :: second) = systemText (first ++ second) := by
  have htexts : systemTexts (first ++ .turn turn :: second) = systemTexts (first ++ second) := by
    simp [systemTexts]
  rw [systemText_eq, htexts, systemText_eq]

theorem turnsOf_append (first second : List Placed) :
    turnsOf (first ++ second) = turnsOf first ++ turnsOf second := by
  simp [turnsOf]

/-- One more message, placed as a turn, adds this turn in its place and changes nothing else. -/
theorem ofChat_insert (hmessages : request.messages = before ++ after)
    (hplace : place message = .ok (.turn turn)) (h : Request.ofChat request model = .ok sent) :
    ∃ first second, sent.turns = first ++ second ∧
      first.length = (before.filter fun message => !message.isSystem).length ∧
      Request.ofChat { request with messages := before ++ message :: after } model =
        .ok { sent with turns := first ++ turn :: second } := by
  obtain ⟨placed, tools, toolChoice, hoptions, hplaced, htools, htoolChoice, rfl⟩ :=
    ofChat_eq_ok h
  rw [hmessages, List.mapM_append] at hplaced
  obtain ⟨first, hfirst, hplaced⟩ := bind_eq_ok.1 hplaced
  obtain ⟨second, hsecond, hplaced⟩ := bind_eq_ok.1 hplaced
  cases hplaced
  have hall : (before ++ message :: after).mapM place = .ok (first ++ .turn turn :: second) := by
    rw [List.mapM_append, List.mapM_cons, hfirst, hplace, hsecond]
    rfl
  refine ⟨turnsOf first, turnsOf second, turnsOf_append first second, ?_, ?_⟩
  · exact (place_split hfirst).2.length_eq.symm
  · have hturns : turnsOf first ++ turn :: turnsOf second =
        turnsOf (first ++ .turn turn :: second) := by
      rw [turnsOf_append]
      rfl
    have hoptions' :
        checkOptions { request with messages := before ++ message :: after } = .ok () := hoptions
    rw [hturns, ← systemText_insert turn, Request.ofChat, hoptions', hall, htools, htoolChoice]
    rfl

theorem ofChat_alone (name model : String) (hplace : place message = .ok (.turn turn)) :
    ∃ sent, Request.ofChat (.ofMessages name [message]) model = .ok sent ∧ sent.turns = [turn] := by
  have hnone : Request.ofChat (.ofMessages name []) model = .ok _ := rfl
  obtain ⟨first, second, hturns, -, hsent⟩ :=
    ofChat_insert (List.append_nil []).symm hplace hnone
  obtain ⟨rfl, rfl⟩ := List.append_eq_nil_iff.1 hturns.symm
  exact ⟨_, hsent, rfl⟩

end Conversation

/--
A reply has a completion unless its counts have no total.  The message of the completion, sent
back as it is, becomes the turn that the reply is.  In any place of a request it is read as the
same message, and a request that consists of it alone is accepted.  So is any other with the
message put in that is accepted without it, and what the provider is sent then differs in this
turn only, which stands where the message does.
-/
theorem reply_sent_back {body : List UInt8} {reply : Reply} (hread : Reply.read body = .ok reply)
    (hwhole : ∀ block ∈ reply.content, block.Whole) (model : String) (now : UInt64) :
    (Completion.ofReply reply model now = none ↔
      UInt32.size ≤ reply.inputTokens.toNat + reply.outputTokens.toNat) ∧
    ∀ completion, Completion.ofReply reply model now = some completion →
    let written := completion.message
    ∃ message : Chat.Message,
      (∀ depth, TakesOff (Chat.Message.reader (depth + 4)) (Text.Utf8.encode written.write)
        message) ∧
      (∀ name upstream,
        Chat.Request.read (Text.bytes
          (Json.object [("model", .text name), ("messages", .array [written])]).render) =
            .ok (.ofMessages name [message]) ∧
        ∃ sent, Request.ofChat (.ofMessages name [message]) upstream = .ok sent ∧
          sent.turns = [reply.turn]) ∧
      ∀ request upstream before after sent, request.messages = before ++ after →
        Request.ofChat request upstream = .ok sent →
        ∃ first second, sent.turns = first ++ second ∧
          first.length = (before.filter fun message => !message.isSystem).length ∧
          Request.ofChat { request with messages := before ++ message :: after } upstream =
            .ok { sent with turns := first ++ reply.turn :: second } := by
  refine ⟨Option.map_eq_none_iff.trans Chat.Usage.ofCounts?_eq_none, ?_⟩
  intro completion hcompletion written
  have hplace := place_ofCompletion hcompletion (Reply.sound_of_read hread) hwhole
  refine ⟨.ofCompletion completion, fun depth => Chat.Message.reader_takes depth _,
    fun name upstream => ?_,
    fun request upstream before after sent hmessages h => ofChat_insert hmessages hplace h⟩
  have htakes := Chat.Request.reader_takes 125 name
    (Chat.Message.reader_takes 121 completion) (Json.Reader.opens_object _)
  refine ⟨?_, ofChat_alone name upstream hplace⟩
  rw [Text.bytes, Json.render, String.toList_ofList]
  exact htakes.run

def answerBlocks : List Json := [
  .object [("type", .text "text"), ("text", .text "Let me ")],
  .object [("type", .text "tool_use"), ("id", .text "c"), ("name", .text "clock"),
    ("input", .object [("zone", .array [.int 1]), ("at", .null)])],
  .object [("type", .text "mystery")],
  .object [("type", .text "text"), ("text", .text "look.")]]

/-- The input of the tool use, its members in order. -/
def clockInput : Json :=
  .object [("at", .null), ("zone", .array [.int 1])]

def answered : Reply :=
  ⟨"m", [.text "Let me ", .toolUse "c" "clock" clockInput, .other, .text "look."], none, 0, 0⟩

theorem read_answer : Reply.read (Text.bytes
    (Json.object [("id", .text "m"), ("content", .array answerBlocks)]).render) =
      .ok answered := by
  have hfits : ∀ value ∈ answerBlocks, Fits 125 value := by
    simp [answerBlocks, Fits, Json.int, Json.Reader.IsWhole]
  have hdecode : List.Forall₂ (fun value block => ReplyBlock.decoder value = some block)
      answerBlocks answered.content :=
    .cons rfl (.cons rfl (.cons rfl (.cons rfl .nil)))
  have hopens : ∀ value ∈ answerBlocks, Opens 0x5D (Text.Utf8.encode value.write) := by
    simp [answerBlocks, Json.Reader.opens_object]
  rw [Text.bytes, Json.render, String.toList_ofList]
  exact (Reply.reader_takes 125 "m" hfits hdecode hopens).run

theorem reply_sent_back_clock : ∃ completion request sent,
    Completion.ofReply answered "alias" 0 = some completion ∧
    Chat.Request.read (Text.bytes (Json.object [("model", .text "alias"),
      ("messages", .array [completion.message])]).render) = .ok request ∧
    Request.ofChat request "model" = .ok sent ∧
    sent.turns = [⟨.assistant, [.text "Let me look.", .toolUse "c" "clock" clockInput]⟩] := by
  have hinput : Json.Reader.Whole clockInput :=
    .object (by simpa using ⟨.null, .array (by simpa using .int)⟩)
  obtain ⟨-, hback⟩ := reply_sent_back read_answer
    (by simpa [answered, ReplyBlock.Whole] using hinput) "alias" 0
  obtain ⟨message, -, halone, -⟩ := hback _ rfl
  obtain ⟨hread, sent, hsent, hturns⟩ := halone "alias" "model"
  exact ⟨_, _, sent, rfl, hread, hsent, hturns⟩

end Messages

end ChatGateway
