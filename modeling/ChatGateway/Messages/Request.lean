import ChatGateway.Json.Value

/-!
# Requests to the provider

A request of the messages API: turns of user and assistant, each a list of
blocks, with the system text beside them.
-/

namespace ChatGateway

namespace Messages

inductive Role where
  | user
  | assistant
  deriving DecidableEq, Repr

def Role.name : Role -> String
  | .user => "user"
  | .assistant => "assistant"

inductive ImageSource where
  | base64 (mediaType data : String)
  | url (url : String)
  deriving DecidableEq, Repr

namespace ImageSource

def toJson : ImageSource -> Json
  | .base64 mediaType data =>
      .object [("type", .text "base64"), ("media_type", .text mediaType), ("data", .text data)]
  | .url address => .object [("type", .text "url"), ("url", .text address)]

end ImageSource

inductive Block where
  | text (text : String)
  | image (source : ImageSource)
  | toolUse (id name : String) (input : Json)
  | toolResult (callId text : String)

namespace Block

def toJson : Block -> Json
  | .text plain => .object [("type", .text "text"), ("text", .text plain)]
  | .image source => .object [("type", .text "image"), ("source", source.toJson)]
  | .toolUse id name input =>
      .object [("type", .text "tool_use"), ("id", .text id), ("name", .text name),
        ("input", input)]
  | .toolResult callId answer =>
      .object [("type", .text "tool_result"), ("tool_use_id", .text callId),
        ("content", .text answer)]

end Block

structure Turn where
  role : Role
  content : List Block

namespace Turn

def toJson (turn : Turn) : Json :=
  .object [
    ("role", .text turn.role.name),
    ("content", .array (turn.content.map Block.toJson))]

end Turn

structure Tool where
  name : String
  description : Option String
  inputSchema : Json

namespace Tool

def toJson (tool : Tool) : Json :=
  .object <|
    [("name", .text tool.name)] ++
    Json.member? "description" .text tool.description ++
    [("input_schema", tool.inputSchema)]

end Tool

inductive ToolChoice where
  | auto
  | none
  | any
  | tool (name : String)
  deriving DecidableEq, Repr

namespace ToolChoice

def toJson : ToolChoice -> Json
  | .auto => .object [("type", .text "auto")]
  | .none => .object [("type", .text "none")]
  | .any => .object [("type", .text "any")]
  | .tool name => .object [("type", .text "tool"), ("name", .text name)]

end ToolChoice

structure Request where
  model : String
  system : Option String
  turns : List Turn
  maxTokens : UInt32
  stream : Bool
  tools : Option (List Tool)
  toolChoice : Option ToolChoice
  temperature : Option Single
  topP : Option Single
  stopSequences : Option (List String)

namespace Request

/-- The request as it is sent; options without a value are left out. -/
def toJson (request : Request) : Json :=
  .object <|
    [("model", .text request.model)] ++
    Json.member? "system" .text request.system ++
    [("messages", .array (request.turns.map Turn.toJson)),
      ("max_tokens", .nat request.maxTokens.toNat),
      ("stream", .bool request.stream)] ++
    Json.member? "tools" (fun tools => .array (tools.map Tool.toJson)) request.tools ++
    Json.member? "tool_choice" ToolChoice.toJson request.toolChoice ++
    Json.member? "temperature" Json.ofSingle request.temperature ++
    Json.member? "top_p" Json.ofSingle request.topP ++
    Json.member? "stop_sequences" (fun stops => .array (stops.map .text))
      request.stopSequences

end Request

end Messages

end ChatGateway
