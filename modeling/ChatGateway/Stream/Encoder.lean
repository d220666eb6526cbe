import ChatGateway.Chat.OfReply
import ChatGateway.Stream.Intake

/-!
# Writing the caller's stream

Deltas become chunks of a completion as they come.  A stream that completes ends
with `[DONE]`, after a chunk with the usage if the caller asked for it; a stream
that fails ends with the failure's envelope, and one that breaks off with
neither.  While no delta comes, a comment every fifteen seconds keeps the
connection open.
-/

namespace ChatGateway

namespace Stream

/-- A frame that the caller gets. -/
inductive Outgoing where
  | keepAlive
  | data (body : Json)
  | done

/-- The text of a frame. -/
def Outgoing.render : Outgoing -> String
  | .keepAlive => ": keep-alive\n\n"
  | .data body => "data: " ++ body.render ++ "\n\n"
  | .done => "data: [DONE]\n\n"

structure Encoder where
  id : String
  created : UInt64
  model : String
  includeUsage : Bool
  deriving DecidableEq, Repr

namespace Encoder

/-- A chunk with the given choices; the members of every object are sorted by name. -/
def envelope (encoder : Encoder) (choices : List Json) (more : List (String × Json)) : Outgoing :=
  .data (.object ([
    ("choices", .array choices),
    ("created", .nat encoder.created.toNat),
    ("id", .text encoder.id),
    ("model", .text encoder.model),
    ("object", .text "chat.completion.chunk")] ++ more))

/-- A chunk with one choice. -/
def chunk (encoder : Encoder) (delta : Json) (finish : Option Chat.FinishReason) :
    Outgoing :=
  encoder.envelope [.object [
    ("delta", delta),
    ("finish_reason", Json.optional (fun reason => .text reason.name) finish),
    ("index", .nat 0)]] []

/-- The chunk with the usage and no choice. -/
def usageChunk (encoder : Encoder) (usage : Chat.Usage) : Outgoing :=
  encoder.envelope [] [("usage", usage.toJson.canonical)]

/-- The change that a piece of content makes to the message. -/
def contentJson : Content -> Json
  | .text text => .object [("content", .text text)]
  | .reasoning text => .object [("reasoning_content", .text text)]
  | .arguments call partialJson =>
      .object [("tool_calls", .array [.object [
        ("function", .object [("arguments", .text partialJson)]),
        ("index", .nat call.toNat)]])]
  | .other => .object []

/-- The header of a tool call. -/
def toolCallJson (call : UInt32) (id name : String) : Json :=
  .object [("tool_calls", .array [.object [
    ("function", .object [("arguments", .text ""), ("name", .text name)]),
    ("id", .text id),
    ("index", .nat call.toNat),
    ("type", .text "function")]])]

/-- The frames of a delta, and the encoder after it: a start names the chunks from then on. -/
def step (encoder : Encoder) : Delta -> Encoder × List Outgoing
  | .start id =>
      let encoder := { encoder with id := Chat.completionId id }
      (encoder, [encoder.chunk
        (.object [("content", .text ""), ("role", .text "assistant")]) none])
  | .toolCall call id name => (encoder, [encoder.chunk (toolCallJson call id name) none])
  | .content content => (encoder, [encoder.chunk (contentJson content) none])
  | .finish reason => (encoder, [encoder.chunk (.object []) (some reason)])
  | .done usage =>
      (encoder, (if encoder.includeUsage then [encoder.usageChunk usage] else []) ++ [.done])
  | .failed failure => (encoder, [.data failure.body])

/-- The milliseconds between two comments. -/
def keepAlivePeriod : Nat := 15000

/-- The comments after `last` and before `due`. -/
def keepAlives (last due : Nat) : List (Timed Outgoing) :=
  (List.range ((due - last - 1) / keepAlivePeriod)).map fun count =>
    ⟨last + keepAlivePeriod * (count + 1), .keepAlive⟩

/--
The frames of timed deltas, up to the terminal one; `last` is when the comments
were last put off.  Deltas that end without a terminal one end the frames at
`stop`.
-/
def framesFrom (stop : Nat) :
    Nat -> Encoder -> List (Timed Delta) -> List (Timed Outgoing)
  | last, _, [] => keepAlives last stop
  | last, encoder, delta :: rest =>
      let (after, frames) := encoder.step delta.value
      keepAlives last delta.time ++ frames.map (fun frame => ⟨delta.time, frame⟩) ++
        (if delta.value.isTerminal then [] else framesFrom stop delta.time after rest)

/-- The frames of timed deltas, from the time 0 on. -/
def frames (encoder : Encoder) (stop : Nat) (deltas : List (Timed Delta)) :
    List (Timed Outgoing) :=
  framesFrom stop 0 encoder deltas

/-- The frames that a caller gets of a body, as long as its stream goes on. -/
def framesOfReads (encoder : Encoder) (idle : Nat) (reads : List (Nat × Read)) :
    List (Timed Outgoing) :=
  encoder.frames (Intake.ending idle reads) (Intake.deltas idle reads)

end Encoder

end Stream

end ChatGateway
