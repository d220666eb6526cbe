import ChatGateway.Messages.OfChat
import ChatGateway.Proofs.Results

/-!
# Hoisting the system text

In the messages request of a chat request the system and developer messages stand apart, as the
system text, and each of the others is one turn, in order.  What the system messages say, how
many there are and where they stand changes nothing but the system text.
-/

namespace ChatGateway

namespace Chat

/-- The message tells the model how to act and has no place in the conversation. -/
def Message.isSystem (message : Message) : Bool :=
  message.role = "system" || message.role = "developer"

/-- The parts that are shown: a plain text is a single part, and an empty text is not shown. -/
def Content.shown : Content -> List Part
  | .text plain => [Part.text plain].filter (· ≠ .text "")
  | .parts several => several.filter (· ≠ .text "")
  | .absent => []

/-- The content is nothing but text, and this is how it reads. -/
inductive Content.Says : Content -> String -> Prop
  | text {plain} : Says (.text plain) plain
  | parts {texts : List String} : Says (.parts (texts.map .text)) (Text.join "\n" texts)
  | absent : Says .absent ""

theorem Content.ne_empty_of_mem_shown {content : Content} {part : Part}
    (h : part ∈ content.shown) : part ≠ .text "" := by
  cases content with
  | absent => cases h
  | text plain | parts several => exact of_decide_eq_true (List.mem_filter.1 h).2

/-- The request for a model with these messages, for which nothing else is asked. -/
def Request.ofMessages (model : String) (messages : List Message) : Request := {
  model, messages, maxTokens := none, maxCompletionTokens := none, temperature := none,
  topP := none, stream := none, includeUsage := none, tools := none, toolChoice := none,
  stop := none, choices := none, responseFormat := none, modalities := none }

end Chat

namespace Messages

open Chat (Part Content)

/-! ## What a turn holds -/

/-- The block of a part that is shown. -/
inductive Shows : Part -> Block -> Prop
  | text {plain} : Shows (.text plain) (.text plain)
  | image {url source} : imageSource url = .ok source → Shows (.image url) (.image source)

/-- The block of a call that the assistant made. -/
inductive Uses : Chat.ToolCall -> Block -> Prop
  | call {call input} : toolInput call = .ok input → Uses call (.toolUse call.id call.name input)

/-- The blocks of a turn: what is shown and then the calls, or one empty text for neither. -/
inductive Fills (content : Content) (calls : List Chat.ToolCall) : List Block -> Prop
  | some {shown uses} : List.Forall₂ Shows content.shown shown → List.Forall₂ Uses calls uses →
      shown ++ uses ≠ [] → Fills content calls (shown ++ uses)
  | none : content.shown = [] → calls = [] → Fills content calls [.text ""]

/-- The turn that a message of the conversation becomes. -/
inductive Becomes (message : Chat.Message) : Turn -> Prop
  | user {content} : message.role = "user" → Fills message.content [] content →
      Becomes message ⟨.user, content⟩
  | assistant {content} : message.role = "assistant" →
      Fills message.content (message.toolCalls.getD []) content →
      Becomes message ⟨.assistant, content⟩
  | tool {callId text} : message.role = "tool" → message.toolCallId = some callId →
      message.content.Says text → Becomes message ⟨.user, [.toolResult callId text]⟩

section Turns

variable {part : Part} {content : Content} {call : Chat.ToolCall} {calls : List Chat.ToolCall}
  {block : Block} {blocks : List Block} {message : Chat.Message} {turn : Turn}

theorem Shows.ne_empty (h : Shows part block) (hpart : part ≠ .text "") :
    block ≠ .text "" := by
  cases h <;> simp_all

theorem Uses.ne_text (h : Uses call block) (plain : String) : block ≠ .text plain := by
  cases h
  simp

/-- There is always a block, and an empty text stands by itself. -/
theorem Fills.content_ne_nil (h : Fills content calls blocks) :
    blocks ≠ [] ∧ (.text "" ∈ blocks → blocks = [.text ""]) := by
  cases h with
  | none => simp
  | some hshown huses hne =>
      refine ⟨hne, fun hmem => ?_⟩
      rcases List.mem_append.1 hmem with hmem | hmem
      · obtain ⟨part, hpart, hshows⟩ := exists_of_mem_right hshown hmem
        exact (hshows.ne_empty (Content.ne_empty_of_mem_shown hpart) rfl).elim
      · obtain ⟨call, -, hcall⟩ := exists_of_mem_right huses hmem
        exact (hcall.ne_text "" rfl).elim

theorem Becomes.content_ne_nil (h : Becomes message turn) :
    turn.content ≠ [] ∧ (.text "" ∈ turn.content → turn.content = [.text ""]) := by
  cases h with
  | user _ hfills => exact hfills.content_ne_nil
  | assistant _ hfills => exact hfills.content_ne_nil
  | tool => simp

end Turns

/-! ## What a message gives -/

section Places

variable {content : Content} {calls : List Chat.ToolCall} {blocks : List Block}
  {message : Chat.Message}

theorem says_of_plainText {text : String} (h : plainText content = .ok text) :
    content.Says text := by
  cases content with
  | text plain =>
      cases h
      exact .text
  | absent =>
      cases h
      exact .absent
  | parts parts =>
      obtain ⟨texts, htexts, htext⟩ := bind_eq_ok.1 h
      cases htext
      have hpart : ∀ part text, partText part = .ok text → part = .text text := by
        intro part text hpart
        cases part <;> cases hpart
        rfl
      have hparts : parts = texts.map .text := by
        rw [← List.forall₂_eq_eq_eq, List.forall₂_map_right_iff]
        exact (mapM_eq_ok.1 htexts).imp hpart
      rw [hparts]
      exact .parts

theorem shows_of_partBlocks {part : Part} (h : partBlocks part = .ok blocks) :
    List.Forall₂ Shows ([part].filter (· ≠ .text "")) blocks := by
  cases part with
  | text plain =>
      cases h
      by_cases hplain : plain = ""
      · simp [hplain, textBlocks]
      · simpa [hplain, textBlocks] using Shows.text
  | image url =>
      obtain ⟨source, hsource, h⟩ := bind_eq_ok.1 h
      cases h
      exact .cons (.image hsource) .nil
  | other => cases h

theorem shows_of_contentBlocks (h : contentBlocks content = .ok blocks) :
    List.Forall₂ Shows content.shown blocks := by
  cases content with
  | text plain => exact shows_of_partBlocks h
  | absent =>
      cases h
      exact .nil
  | parts parts =>
      obtain ⟨lists, hlists, hblocks⟩ := bind_eq_ok.1 h
      cases hblocks
      have hall := mapM_eq_ok.1 hlists
      clear h hlists
      induction hall with
      | nil => exact .nil
      | @cons part blocks parts lists hpart _ ih =>
          rw [List.flatten_cons, Content.shown, ← List.singleton_append, List.filter_append]
          exact List.rel_append (shows_of_partBlocks hpart) ih

theorem uses_of_callBlock (call : Chat.ToolCall) (block : Block) (h : callBlock call = .ok block) :
    Uses call block := by
  obtain ⟨input, hinput, h⟩ := bind_eq_ok.1 h
  cases h
  exact .call hinput

theorem fills_of_turnBlocks (h : turnBlocks content calls = .ok blocks) :
    Fills content calls blocks := by
  obtain ⟨shown, hshown, h⟩ := bind_eq_ok.1 h
  obtain ⟨uses, huses, h⟩ := bind_eq_ok.1 h
  cases h
  have hall := shows_of_contentBlocks hshown
  have hcalls : List.Forall₂ Uses calls uses := (mapM_eq_ok.1 huses).imp uses_of_callBlock
  by_cases hnone : shown ++ uses = []
  · obtain ⟨rfl, rfl⟩ := List.append_eq_nil_iff.1 hnone
    exact .none (List.forall₂_nil_right_iff.1 hall) (List.forall₂_nil_right_iff.1 hcalls)
  · rw [if_neg (by simpa using hnone)]
    exact .some hall hcalls hnone

/-- A message is placed by its role: a system text, or a turn of the conversation. -/
theorem place_cases {placed : Placed} (h : place message = .ok placed) :
    (message.isSystem = true ∧ ∃ text, message.content.Says text ∧ placed = .system text) ∨
    message.isSystem = false ∧ ∃ turn, Becomes message turn ∧ placed = .turn turn := by
  unfold place at h
  split at h
  case h_1 hrole | h_2 hrole =>
    obtain ⟨text, htext, h⟩ := bind_eq_ok.1 h
    cases h
    exact .inl ⟨by simp [Chat.Message.isSystem, hrole], text, says_of_plainText htext, rfl⟩
  case h_3 hrole =>
    obtain ⟨blocks, hblocks, h⟩ := bind_eq_ok.1 h
    cases h
    exact .inr ⟨by simp [Chat.Message.isSystem, hrole], _,
      .user hrole (fills_of_turnBlocks hblocks), rfl⟩
  case h_4 hrole =>
    obtain ⟨blocks, hblocks, h⟩ := bind_eq_ok.1 h
    cases h
    exact .inr ⟨by simp [Chat.Message.isSystem, hrole], _,
      .assistant hrole (fills_of_turnBlocks hblocks), rfl⟩
  case h_5 hrole =>
    cases hcall : message.toolCallId with
    | none => simp [hcall] at h
    | some callId =>
        rw [hcall] at h
        obtain ⟨text, htext, h⟩ := bind_eq_ok.1 h
        cases h
        exact .inr ⟨by simp [Chat.Message.isSystem, hrole], _,
          .tool hrole hcall (says_of_plainText htext), rfl⟩
  case h_6 => cases h

end Places

/-! ## The whole conversation -/

section Conversation

variable {messages : List Chat.Message} {placed : List Placed}

theorem systemTexts_system (text : String) (placed : List Placed) :
    systemTexts (.system text :: placed) =
      if text = "" then systemTexts placed else text :: systemTexts placed := by
  by_cases htext : text = "" <;> simp [systemTexts, htext]

theorem systemText_eq (placed : List Placed) :
    systemText placed =
      if systemTexts placed = [] then none else some (Text.join "\n\n" (systemTexts placed)) := by
  rw [systemText]
  split
  next hnone => rw [if_pos hnone]
  next hsome => rw [if_neg hsome]

/-- The texts of the system messages and the turns of the others, each in order. -/
theorem place_split (h : messages.mapM place = .ok placed) :
    (∃ texts, List.Forall₂ (fun message text => message.content.Says text)
        (messages.filter Chat.Message.isSystem) texts ∧
      systemTexts placed = texts.filter (· ≠ "")) ∧
    List.Forall₂ (fun message turn => Becomes message turn ∧ place message = .ok (.turn turn))
      (messages.filter fun message => !message.isSystem) (turnsOf placed) := by
  have hall := mapM_eq_ok.1 h
  clear h
  induction hall with
  | nil => exact ⟨⟨[], .nil, rfl⟩, .nil⟩
  | @cons message found rest others hplace _ ih =>
      obtain ⟨⟨texts, htexts, hsystem⟩, hturns⟩ := ih
      rcases place_cases hplace with ⟨hrole, text, hsays, rfl⟩ | ⟨hrole, turn, hturn, rfl⟩
      · refine ⟨⟨text :: texts, ?_, ?_⟩, ?_⟩
        · rw [List.filter_cons_of_pos hrole]
          exact .cons hsays htexts
        · rw [systemTexts_system, hsystem]
          by_cases htext : text = "" <;> simp [htext]
        · rw [List.filter_cons_of_neg (by simp [hrole])]
          exact hturns
      · refine ⟨⟨texts, ?_, hsystem⟩, ?_⟩
        · rw [List.filter_cons_of_neg (by simp [hrole])]
          exact htexts
        · rw [List.filter_cons_of_pos (by simp [hrole])]
          exact .cons ⟨hturn, hplace⟩ hturns

end Conversation

variable {request : Chat.Request} {model : String} {sent : Request}

/-- All that a request which could be translated gives. -/
theorem ofChat_eq_ok (h : Request.ofChat request model = .ok sent) :
    ∃ placed tools toolChoice, checkOptions request = .ok () ∧
      request.messages.mapM place = .ok placed ∧
      request.tools.mapM (fun tools => tools.mapM toolOf) = .ok tools ∧
      request.toolChoice.mapM toolChoiceOf = .ok toolChoice ∧
      sent = {
        model
        system := systemText placed
        turns := turnsOf placed
        maxTokens := (request.maxTokens <|> request.maxCompletionTokens).getD defaultMaxTokens
        stream := request.wantsStream
        tools
        toolChoice
        temperature := request.temperature
        topP := request.topP
        stopSequences := request.stop } := by
  obtain ⟨_, hoptions, h⟩ := bind_eq_ok.1 h
  obtain ⟨placed, hplaced, h⟩ := bind_eq_ok.1 h
  obtain ⟨tools, htools, h⟩ := bind_eq_ok.1 h
  obtain ⟨toolChoice, htoolChoice, h⟩ := bind_eq_ok.1 h
  cases h
  exact ⟨placed, tools, toolChoice, hoptions, hplaced, htools, htoolChoice, rfl⟩

/--
The turns of the messages request are those of the messages that are neither system nor
developer messages, and its system text is made of the texts of those that are, empty ones left
out, with a blank line between them.  No turn is without content, and none holds an empty text
beside something else.  Another request with the same conversation and the same options gives the
same messages request, but for its system text.
-/
theorem ofChat_hoists (h : Request.ofChat request model = .ok sent) :
    List.Forall₂ Becomes (request.messages.filter fun message => !message.isSystem) sent.turns ∧
    (∃ texts, List.Forall₂ (fun message text => message.content.Says text)
        (request.messages.filter Chat.Message.isSystem) texts ∧
      sent.system =
        if texts.filter (· ≠ "") = [] then none
        else some (Text.join "\n\n" (texts.filter (· ≠ "")))) ∧
    (∀ turn ∈ sent.turns, turn.content ≠ [] ∧
      (.text "" ∈ turn.content → turn.content = [.text ""])) ∧
    ∀ messages other,
      (messages.filter fun message => !message.isSystem) =
        (request.messages.filter fun message => !message.isSystem) →
      Request.ofChat { request with messages } model = .ok other →
      other = { sent with system := other.system } := by
  obtain ⟨placed, tools, toolChoice, -, hplaced, htools, htoolChoice, rfl⟩ := ofChat_eq_ok h
  obtain ⟨⟨texts, htexts, hsystem⟩, hturns⟩ := place_split hplaced
  have hbecomes := hturns.imp fun _ _ hturn => hturn.1
  refine ⟨hbecomes, ⟨texts, htexts, ?_⟩, ?_, ?_⟩
  · show systemText placed = _
    rw [systemText_eq, hsystem]
  · intro turn hturn
    obtain ⟨message, -, hmessage⟩ := exists_of_mem_right hbecomes hturn
    exact hmessage.content_ne_nil
  · intro messages other hsame hother
    obtain ⟨placed', tools', toolChoice', -, hplaced', htools', htoolChoice', rfl⟩ :=
      ofChat_eq_ok hother
    obtain ⟨-, hturns'⟩ := place_split hplaced'
    rw [hsame] at hturns'
    have hunique : Relator.RightUnique fun message turn =>
        Becomes message turn ∧ place message = .ok (.turn turn) := by
      intro message turn turn' hturn hturn'
      exact Placed.turn.inj (Except.ok.inj (hturn.2.symm.trans hturn'.2))
    have hequal := List.right_unique_forall₂' hunique hturns' hturns
    cases htools.symm.trans htools'
    cases htoolChoice.symm.trans htoolChoice'
    rw [hequal]
    rfl

/-- A conversation of four messages. -/
def conversation : List Chat.Message := [
  ⟨"user", .parts [.text "", .text "What is the time?"], none, none⟩,
  ⟨"assistant", .absent, some [⟨"call", "clock", ""⟩], none⟩,
  ⟨"tool", .parts [.text "12", .text "00"], none, some "call"⟩,
  ⟨"assistant", .text "", none, none⟩]

/-- System messages before and after a conversation, one of them empty. -/
def instructed : Chat.Request :=
  .ofMessages "alias" ([⟨"system", .text "Be brief.", none, none⟩] ++ conversation ++
    [⟨"system", .absent, none, none⟩,
      ⟨"developer", .parts [.text "Be", .text "kind."], none, none⟩])

set_option maxRecDepth 8000 in
theorem ofChat_hoists_instructed :
    ∃ sent other, Request.ofChat instructed "model" = .ok sent ∧
      Request.ofChat (.ofMessages "alias" conversation) "model" = .ok other ∧
      sent.system = some "Be brief.\n\nBe\nkind." ∧ other = { sent with system := none } ∧
      List.Forall₂ Becomes conversation sent.turns := by
  obtain ⟨sent, other, hsent, hother, hsystem, hnone⟩ :
      ∃ sent other, Request.ofChat instructed "model" = .ok sent ∧
        Request.ofChat (.ofMessages "alias" conversation) "model" = .ok other ∧
        sent.system = some "Be brief.\n\nBe\nkind." ∧ other.system = none :=
    ⟨_, _, rfl, rfl, rfl, rfl⟩
  obtain ⟨hturns, -, -, hsame⟩ := ofChat_hoists hsent
  refine ⟨sent, other, hsent, hother, hsystem, ?_, hturns⟩
  rw [← hnone]
  exact hsame conversation other rfl hother

end Messages

end ChatGateway
