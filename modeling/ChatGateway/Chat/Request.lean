import ChatGateway.Json.Decode

/-!
# Chat requests

What a caller asks for: the conversation so far, the tools on offer and the
options, as they are read from the body of a request.  Reading checks shapes
only; whether the provider can serve a request is decided later.
-/

namespace ChatGateway

namespace Chat

inductive Part where
  | text (text : String)
  | image (url : String)
  /-- A part of a kind that is not known. -/
  | other
  deriving DecidableEq, Repr

inductive Content where
  | text (text : String)
  | parts (parts : List Part)
  | absent
  deriving DecidableEq, Repr

/-- A call that the assistant made; its arguments are JSON text. -/
structure ToolCall where
  id : String
  name : String
  arguments : String
  deriving DecidableEq, Repr

structure Message where
  role : String
  content : Content
  toolCalls : Option (List ToolCall)
  toolCallId : Option String
  deriving DecidableEq, Repr

structure Function where
  name : Option String
  description : Option String
  parameters : Option Json

structure Tool where
  kind : String
  function : Option Function

structure Request where
  model : String
  messages : List Message
  maxTokens : Option UInt32
  maxCompletionTokens : Option UInt32
  temperature : Option Single
  topP : Option Single
  stream : Option Bool
  includeUsage : Option Bool
  tools : Option (List Tool)
  toolChoice : Option Json
  stop : Option (List String)
  choices : Option UInt32
  responseFormat : Option Json
  modalities : Option (List String)

def Request.wantsStream (request : Request) : Bool :=
  request.stream.getD false

def Request.wantsUsage (request : Request) : Bool :=
  request.includeUsage.getD false

/-! ## Reading -/

open Json (Decode)
open Json.Reader (Typed)

/-- The URL of an image, written `{"url": …}`. -/
def imageUrl : Decode String :=
  Decode.record [.required "url" Decode.text fun url _ => url] ""

def Part.decoder : Decode Part :=
  Decode.tagged .namedOrNumbered [
    ("text", Decode.record [.required "text" Decode.text fun text _ => .text text] .other),
    ("image_url", Decode.record [.required "image_url" imageUrl fun url _ => .image url] .other)]
    (Decode.bare .other)

def Content.decoder : Decode Content
  | .text plain => some (.text plain)
  | .null => some .absent
  | value => (Decode.listOf Part.decoder value).map .parts

def stopDecoder : Decode (List String)
  | .text single => some [single]
  | value => Decode.listOf Decode.text value

/-- The called function, written `{"name": …, "arguments": …}`. -/
def ToolCall.functionReader : Typed (String × String) :=
  Json.Reader.record [
    .required "name" Json.Reader.text fun name call => (name, call.2),
    .defaulted "arguments" Json.Reader.text fun arguments call => (call.1, arguments)]
    ("", "")

def ToolCall.reader : Typed ToolCall :=
  Json.Reader.record [
    .required "id" Json.Reader.text fun id call => { call with id },
    .required "function" ToolCall.functionReader fun function call =>
      { call with name := function.1, arguments := function.2 }]
    ⟨"", "", ""⟩

def Message.reader : Typed Message :=
  Json.Reader.record [
    .required "role" Json.Reader.text fun role message => { message with role },
    .defaulted "content" (Json.Reader.via Content.decoder) fun content message =>
      { message with content },
    .optional "tool_calls" (Json.Reader.listOf ToolCall.reader) fun toolCalls message =>
      { message with toolCalls },
    .optional "tool_call_id" Json.Reader.text fun toolCallId message =>
      { message with toolCallId }]
    ⟨"", .absent, none, none⟩

def Function.reader : Typed Function :=
  Json.Reader.record [
    .optional "name" Json.Reader.text fun name function => { function with name },
    .optional "description" Json.Reader.text fun description function =>
      { function with description },
    .optional "parameters" Json.Reader.free fun parameters function =>
      { function with parameters }]
    ⟨none, none, none⟩

def Tool.reader : Typed Tool :=
  Json.Reader.record [
    .required "type" Json.Reader.text fun kind tool => { tool with kind },
    .optional "function" Function.reader fun function tool => { tool with function }]
    ⟨"", none⟩

/-- The stream options, written `{"include_usage": …}`. -/
def streamOptionsReader : Typed Bool :=
  Json.Reader.record [
    .defaulted "include_usage" Json.Reader.bool fun includeUsage _ => includeUsage] false

def Request.reader : Typed Request :=
  Json.Reader.record [
    .required "model" Json.Reader.text fun model request => { request with model },
    .required "messages" (Json.Reader.listOf Message.reader) fun messages request =>
      { request with messages },
    .optional "max_tokens" Json.Reader.uint32 fun maxTokens request =>
      { request with maxTokens },
    .optional "max_completion_tokens" Json.Reader.uint32 fun maxCompletionTokens request =>
      { request with maxCompletionTokens },
    .optional "temperature" Json.Reader.single fun temperature request =>
      { request with temperature },
    .optional "top_p" Json.Reader.single fun topP request => { request with topP },
    .optional "stream" Json.Reader.bool fun stream request => { request with stream },
    .optional "stream_options" streamOptionsReader fun includeUsage request =>
      { request with includeUsage },
    .optional "tools" (Json.Reader.listOf Tool.reader) fun tools request =>
      { request with tools },
    .optional "tool_choice" Json.Reader.free fun toolChoice request =>
      { request with toolChoice },
    .optional "stop" (Json.Reader.via stopDecoder) fun stop request => { request with stop },
    .optional "n" Json.Reader.uint32 fun choices request => { request with choices },
    .optional "response_format" Json.Reader.free fun responseFormat request =>
      { request with responseFormat },
    .optional "modalities" (Json.Reader.listOf Json.Reader.text) fun modalities request =>
      { request with modalities }]
    { model := "", messages := [], maxTokens := none, maxCompletionTokens := none,
      temperature := none, topP := none, stream := none, includeUsage := none,
      tools := none, toolChoice := none, stop := none, choices := none,
      responseFormat := none, modalities := none }

def Request.read (body : List UInt8) : Except Json.Fault Request :=
  Json.Reader.run Request.reader body

end Chat

end ChatGateway
