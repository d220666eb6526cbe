import ChatGateway.Failure
import ChatGateway.Json.Decode

/-!
# Events of the provider's stream

The data of a frame as one event of the messages API.
-/

namespace ChatGateway

namespace Stream

/-- Token counts that an event reports. -/
structure TokenReport where
  input : Option UInt32
  output : Option UInt32
  deriving DecidableEq, Repr

/-- A block that begins. -/
structure BlockStart where
  kind : String
  id : Option String
  name : Option String
  deriving DecidableEq, Repr

/-- A piece of a block. -/
inductive BlockDelta where
  | text (text : String)
  | thinking (thinking : String)
  | inputJson (partialJson : String)
  /-- A piece of a kind that is not known. -/
  | other
  deriving DecidableEq, Repr

inductive Event where
  | messageStart (id : String) (tokens : Option TokenReport)
  | blockStart (index : UInt32) (block : BlockStart)
  | blockDelta (index : UInt32) (delta : BlockDelta)
  | blockStop
  | messageDelta (stopReason : Option String) (tokens : Option TokenReport)
  | messageStop
  | ping
  | error (report : Failure.Report)
  /-- An event of a kind that is not known. -/
  | unknown
  deriving DecidableEq, Repr

open Json (Decode)

def TokenReport.decoder : Decode TokenReport :=
  Decode.record [
    .optional "input_tokens" Decode.uint32 fun input tokens => { tokens with input },
    .optional "output_tokens" Decode.uint32 fun output tokens => { tokens with output }]
    ⟨none, none⟩

/-- The message that begins, written `{"id": …, "usage": …}`. -/
def messageDecoder : Decode (String × Option TokenReport) :=
  Decode.record [
    .required "id" Decode.text fun id message => (id, message.2),
    .optional "usage" TokenReport.decoder fun tokens message => (message.1, tokens)]
    ("", none)

def BlockStart.decoder : Decode BlockStart :=
  Decode.record [
    .required "type" Decode.text fun kind block => { block with kind },
    .optional "id" Decode.text fun id block => { block with id },
    .optional "name" Decode.text fun name block => { block with name }]
    ⟨"", none, none⟩

def BlockDelta.decoder : Decode BlockDelta :=
  Decode.tagged .namedOrNumbered [
    ("text_delta", Decode.record [.required "text" Decode.text fun t _ => .text t] .other),
    ("thinking_delta",
      Decode.record [.required "thinking" Decode.text fun t _ => .thinking t] .other),
    ("input_json_delta",
      Decode.record [.required "partial_json" Decode.text fun t _ => .inputJson t] .other)]
    (Decode.bare .other)

/-- The change of a message, written `{"stop_reason": …}`. -/
def stopReasonDecoder : Decode (Option String) :=
  Decode.record [.optional "stop_reason" Decode.text fun reason _ => reason] none

/-- An error, written `{"type": …, "message": …}`. -/
def reportDecoder : Decode Failure.Report :=
  Decode.record [
    .required "type" Decode.text fun errorType report => { report with errorType },
    .defaulted "message" Decode.text fun message report => { report with message }]
    ⟨"", ""⟩

/-- The index and the second field of an event about a block. -/
def indexed (name : String) (inner : Decode α) (build : UInt32 -> α -> β) (blank : α) :
    Decode β := fun value =>
  (Decode.record [
    .required "index" Decode.uint32 fun index held => (index, held.2),
    .required name inner fun found held => (held.1, found)]
    (0, blank) value).map fun held => build held.1 held.2

def Event.decoder : Decode Event :=
  Decode.tagged .named [
    ("message_start", Decode.record [
      .required "message" messageDecoder fun message _ => .messageStart message.1 message.2]
      .unknown),
    ("content_block_start",
      indexed "content_block" BlockStart.decoder .blockStart ⟨"", none, none⟩),
    ("content_block_delta", indexed "delta" BlockDelta.decoder .blockDelta .other),
    ("content_block_stop", Decode.bare .blockStop),
    ("message_delta", fun value =>
      (Decode.record [
        .defaulted "delta" stopReasonDecoder fun reason held => (reason, held.2),
        .optional "usage" TokenReport.decoder fun tokens held => (held.1, tokens)]
        (none, none) value).map fun held => .messageDelta held.1 held.2),
    ("message_stop", Decode.bare .messageStop),
    ("ping", Decode.bare .ping),
    ("error", Decode.record [.required "error" reportDecoder fun report _ => .error report]
      .unknown)]
    (Decode.bare .unknown)

/-- The event that a frame's data holds. -/
def Event.read (data : String) : Except Json.Fault Event :=
  Json.Reader.run (Json.Reader.via Event.decoder) (Text.bytes data)

end Stream

end ChatGateway
