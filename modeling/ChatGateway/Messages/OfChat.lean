import ChatGateway.Chat.Request
import ChatGateway.Failure
import ChatGateway.Messages.Request
import ChatGateway.Text.Blank

/-!
# The messages request of a chat request

System and developer messages are hoisted into the system text, every other
message becomes one turn, and whatever the messages API cannot express is
refused.  Of several faults the first is reported: options, then messages in
order, then tools, then the tool choice.
-/

namespace ChatGateway

namespace Messages

open Chat (Part Content)

/-! ## Options -/

/-- The type that a response format names; a format that names none asks for text. -/
def formatType (format : Json) : String :=
  ((format.get? "type").bind Json.text?).getD "text"

/-- Refuses several choices, formatted responses and other modalities than text. -/
def checkOptions (request : Chat.Request) : Except Failure Unit :=
  if request.choices.any (1 < ·) then
    .error (.unsupported "n > 1 (multiple choices)")
  else
    match (request.responseFormat.map formatType).filter (· ≠ "text") with
    | some format => .error (.unsupported ("response_format '" ++ format ++ "'"))
    | none =>
        match (request.modalities.getD []).find? (· ≠ "text") with
        | some modality => .error (.unsupported ("output modality '" ++ modality ++ "'"))
        | none => .ok ()

/-! ## Content -/

/-- The text of a part; other parts have no place in system and tool messages. -/
def partText : Part -> Except Failure String
  | .text text => .ok text
  | _ => .error (.unsupported "non-text content in a system or tool message")

/-- The text of a system or tool message, one line after another for its parts. -/
def plainText : Content -> Except Failure String
  | .text text => .ok text
  | .parts parts => do
      let texts ← parts.mapM partText
      pure (Text.join "\n" texts)
  | .absent => .ok ""

/-- The source of an image: data in base64, or a web address. -/
def imageSource (url : String) : Except Failure ImageSource :=
  match Text.dropStart? "data:".toList url.toList with
  | some rest =>
      match Text.cut ',' rest with
      | none => .error (.invalidRequest "image data URL without a payload")
      | some (header, data) =>
          match Text.dropEnd? ";base64".toList header with
          | some mediaType => .ok (.base64 (String.ofList mediaType) (String.ofList data))
          | none => .error (.unsupported "image data URLs that are not base64-encoded")
  | none =>
      if "https://".toList.isPrefixOf url.toList || "http://".toList.isPrefixOf url.toList then
        .ok (.url url)
      else .error (.unsupported "image URLs other than data: or http(s)")

def textBlocks (text : String) : List Block :=
  if text.isEmpty then [] else [.text text]

def partBlocks : Part -> Except Failure (List Block)
  | .text text => .ok (textBlocks text)
  | .image url => do
      let source ← imageSource url
      pure [.image source]
  | .other =>
      .error (.unsupported "content part type (only text and image_url are supported)")

def contentBlocks : Content -> Except Failure (List Block)
  | .text text => .ok (textBlocks text)
  | .parts parts => do
      let blocks ← parts.mapM partBlocks
      pure blocks.flatten
  | .absent => .ok []

/-- The input of a tool call: the value of its arguments, or an empty object if they are blank. -/
def toolInput (call : Chat.ToolCall) : Except Failure Json :=
  if Text.isAllBlank call.arguments then .ok (.object [])
  else
    match Json.read (Text.bytes call.arguments) with
    | .ok value => .ok value.canonical
    | .error fault =>
        .error (.unsupported
          ("tool call " ++ call.id ++ " has invalid JSON arguments: " ++ fault.message))

def callBlock (call : Chat.ToolCall) : Except Failure Block := do
  let input ← toolInput call
  pure (.toolUse call.id call.name input)

/-- The blocks of a turn; a turn without content holds one empty text. -/
def turnBlocks (content : Content) (calls : List Chat.ToolCall) :
    Except Failure (List Block) := do
  let blocks ← contentBlocks content
  let uses ← calls.mapM callBlock
  let all := blocks ++ uses
  pure (if all.isEmpty then [.text ""] else all)

/-! ## Messages -/

inductive Placed where
  | system (text : String)
  | turn (turn : Turn)

/-- The place of a message by its role; a tool's answer is a turn of the user. -/
def place (message : Chat.Message) : Except Failure Placed :=
  match message.role with
  | "system" | "developer" => do
      let text ← plainText message.content
      pure (.system text)
  | "user" => do
      let content ← turnBlocks message.content []
      pure (.turn ⟨.user, content⟩)
  | "assistant" => do
      let content ← turnBlocks message.content (message.toolCalls.getD [])
      pure (.turn ⟨.assistant, content⟩)
  | "tool" =>
      match message.toolCallId with
      | none => .error (.invalidRequest "tool message without tool_call_id")
      | some callId => do
          let text ← plainText message.content
          pure (.turn ⟨.user, [.toolResult callId text]⟩)
  | other => .error (.unsupported ("message role '" ++ other ++ "'"))

/-- The turns among the placed messages, in order. -/
def turnsOf (placed : List Placed) : List Turn :=
  placed.filterMap fun
    | .turn turn => some turn
    | .system _ => none

/-- The system texts among the placed messages that are not empty, in order. -/
def systemTexts (placed : List Placed) : List String :=
  placed.filterMap fun
    | .system text => if text.isEmpty then none else some text
    | .turn _ => none

/-- The system text: the texts with a blank line between them. -/
def systemText (placed : List Placed) : Option String :=
  match systemTexts placed with
  | [] => none
  | texts => some (Text.join "\n\n" texts)

/-! ## Tools -/

def anySchema : Json :=
  .object [("type", .text "object")]

def toolOf (tool : Chat.Tool) : Except Failure Tool :=
  if tool.kind ≠ "function" then
    .error (.unsupported ("tool type '" ++ tool.kind ++ "'"))
  else
    match tool.function with
    | none => .error (.unsupported "function tool without a function definition")
    | some function =>
        match function.name.filter (fun name => !name.isEmpty) with
        | none => .error (.unsupported "function tool without a name")
        | some name =>
            .ok ⟨name, function.description, function.parameters.getD anySchema⟩

/-- The name of the function that a tool choice of type `function` names. -/
def chosenFunction (choice : Json) : Option String :=
  if (choice.get? "type").bind Json.text? = some "function" then
    ((choice.get? "function").bind (Json.get? "name")).bind Json.text?
  else none

def toolChoiceOf : Json -> Except Failure ToolChoice
  | .text "auto" => .ok .auto
  | .text "none" => .ok .none
  | .text "required" => .ok .any
  | .text other => .error (.unsupported ("tool_choice '" ++ other ++ "'"))
  | choice =>
      match chosenFunction choice with
      | some name => .ok (.tool name)
      | none => .error (.unsupported ("tool_choice " ++ choice.render))

/-! ## The request -/

/-- The tokens asked for by a caller that does not say how many. -/
def defaultMaxTokens : UInt32 := 4096

/-- The messages request of a chat request, for a model the provider knows. -/
def Request.ofChat (request : Chat.Request) (model : String) : Except Failure Request := do
  checkOptions request
  let placed ← request.messages.mapM place
  let tools ← request.tools.mapM fun tools => tools.mapM toolOf
  let toolChoice ← request.toolChoice.mapM toolChoiceOf
  pure {
    model
    system := systemText placed
    turns := turnsOf placed
    maxTokens := (request.maxTokens <|> request.maxCompletionTokens).getD defaultMaxTokens
    stream := request.wantsStream
    tools
    toolChoice
    temperature := request.temperature
    topP := request.topP
    stopSequences := request.stop }

end Messages

end ChatGateway
