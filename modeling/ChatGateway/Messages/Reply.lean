import ChatGateway.Json.Decode

/-!
# Replies of the provider

A whole message of the messages API, as it is read from the body of an answer.
-/

namespace ChatGateway

namespace Messages

inductive ReplyBlock where
  | text (text : String)
  | thinking (thinking : String)
  | toolUse (id name : String) (input : Json)
  /-- A block of a kind that is not known. -/
  | other

structure Reply where
  id : String
  content : List ReplyBlock
  stopReason : Option String
  inputTokens : UInt32
  outputTokens : UInt32

open Json (Decode)
open Json.Reader (Typed)

namespace ReplyBlock

def blankToolUse : String × String × Json := ("", "", .null)

def decoder : Decode ReplyBlock :=
  Decode.tagged .named [
    ("text", Decode.record [.required "text" Decode.text fun text _ => .text text] .other),
    ("thinking",
      Decode.record [.required "thinking" Decode.text fun text _ => .thinking text] .other),
    ("tool_use", fun value =>
      (Decode.record [
        .required "id" Decode.text fun id use => (id, use.2),
        .required "name" Decode.text fun name use => (use.1, name, use.2.2),
        .required "input" some fun input use => (use.1, use.2.1, input)]
        blankToolUse value).map fun use => .toolUse use.1 use.2.1 use.2.2.canonical)]
    (Decode.bare .other)

end ReplyBlock

namespace Reply

/-- The usage, written `{"input_tokens": …, "output_tokens": …}`. -/
def usageReader : Typed (UInt32 × UInt32) :=
  Json.Reader.record [
    .defaulted "input_tokens" Json.Reader.uint32 fun tokens usage => (tokens, usage.2),
    .defaulted "output_tokens" Json.Reader.uint32 fun tokens usage => (usage.1, tokens)]
    (0, 0)

def reader : Typed Reply :=
  Json.Reader.record [
    .required "id" Json.Reader.text fun id reply => { reply with id },
    .required "content" (Json.Reader.listOf (Json.Reader.via ReplyBlock.decoder))
      fun content reply => { reply with content },
    .optional "stop_reason" Json.Reader.text fun stopReason reply =>
      { reply with stopReason },
    .defaulted "usage" usageReader fun usage reply =>
      { reply with inputTokens := usage.1, outputTokens := usage.2 }]
    ⟨"", [], none, 0, 0⟩

def read (body : List UInt8) : Except Json.Fault Reply :=
  Json.Reader.run reader body

end Reply

end Messages

end ChatGateway
