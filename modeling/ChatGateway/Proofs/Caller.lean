import ChatGateway.Proofs.JsonRecords
import ChatGateway.Stream.Encoder
import Mathlib.Control.Basic
import Mathlib.Data.Option.Basic

/-!
# What a caller reads off a stream

A caller takes the text of a frame apart, reads its JSON and looks up the members that it
knows.  It does not understand a chunk with a member of another name, so a chunk that it
understands carries nothing besides what it reads.
-/

namespace ChatGateway

namespace Stream

open Json (Decode)
open Json.Decode (uint32_nat uint64_nat)
open Json.Reader (Fits fits_nat fits_null fits_object fits_text isWhole_uint32 isWhole_uint64)

structure CallPiece where
  index : UInt32
  id : Option String
  name : Option String
  arguments : String
  deriving DecidableEq, Repr

/-- What a chunk adds to the message, and why the message ends if it does. -/
structure Change where
  role : Option String := none
  content : Option String := none
  reasoning : Option String := none
  calls : List CallPiece := []
  finish : Option String := none
  deriving DecidableEq, Repr

structure Chunk where
  id : String
  created : UInt64
  model : String
  choices : List Change
  usage : Option Chat.Usage
  deriving DecidableEq, Repr

/-- A frame as the caller reads it. -/
inductive Received where
  | chunk (chunk : Chunk)
  | done
  | error (body : Json)

/-- The value is an object without members of other names. -/
def hasOnly (names : List String) : Json -> Bool
  | .object members => members.all fun member => names.contains member.1
  | _ => false

/-- A member that has to be there. -/
def needed (name : String) (decode : Decode α) (value : Json) : Option α :=
  (value.get? name).bind decode

/-- A member that may be missing. -/
def allowed (name : String) (decode : Decode α) (value : Json) : Option (Option α) :=
  match value.get? name with
  | none => some none
  | some found => (decode found).map some

def CallPiece.decode : Decode CallPiece := fun value => do
  guard (hasOnly ["function", "id", "index", "type"] value)
  let index ← needed "index" Decode.uint32 value
  let id ← allowed "id" Decode.text value
  let kind ← allowed "type" Decode.text value
  guard (kind.getD "function" = "function")
  let function ← needed "function" some value
  guard (hasOnly ["arguments", "name"] function)
  let name ← allowed "name" Decode.text function
  let arguments ← needed "arguments" Decode.text function
  pure ⟨index, id, name, arguments⟩

def Change.decode : Decode Change := fun value => do
  guard (hasOnly ["delta", "finish_reason", "index"] value)
  let index ← needed "index" Decode.uint32 value
  guard (index = 0)
  let finish ← needed "finish_reason" (Decode.nullable Decode.text) value
  let delta ← needed "delta" some value
  guard (hasOnly ["content", "reasoning_content", "role", "tool_calls"] delta)
  let role ← allowed "role" Decode.text delta
  let content ← allowed "content" Decode.text delta
  let reasoning ← allowed "reasoning_content" Decode.text delta
  let calls ← allowed "tool_calls" (Decode.listOf CallPiece.decode) delta
  pure ⟨role, content, reasoning, calls.getD [], finish⟩

/-- The usage, whose total has to be right. -/
def usageDecode : Decode Chat.Usage := fun value => do
  guard (hasOnly ["completion_tokens", "prompt_tokens", "total_tokens"] value)
  let prompt ← needed "prompt_tokens" Decode.uint32 value
  let completion ← needed "completion_tokens" Decode.uint32 value
  let total ← needed "total_tokens" Decode.uint32 value
  let usage ← Chat.Usage.ofCounts? prompt completion
  guard (total = usage.total)
  pure usage

def Chunk.decode : Decode Chunk := fun value => do
  guard (hasOnly ["choices", "created", "id", "model", "object", "usage"] value)
  let object ← needed "object" Decode.text value
  guard (object = "chat.completion.chunk")
  let id ← needed "id" Decode.text value
  let created ← needed "created" (Decode.numberAs Number.uint64?) value
  let model ← needed "model" Decode.text value
  let choices ← needed "choices" (Decode.listOf Change.decode) value
  let usage ← allowed "usage" usageDecode value
  pure ⟨id, created, model, choices, usage⟩

/-- What stands after `data: ` and before the blank line. -/
def payload? (frame : String) : Option (List Char) :=
  (Text.dropStart? "data: ".toList frame.toList).bind (Text.dropEnd? "\n\n".toList)

/-- The frame that a text is, if it is one that the caller understands. -/
def Received.ofText (frame : String) : Option Received :=
  match payload? frame with
  | none => none
  | some payload =>
      if payload = "[DONE]".toList then some .done
      else
        match Json.read (Text.Utf8.encode payload) with
        | .error _ => none
        | .ok body =>
            if hasOnly ["error"] body then some (.error body)
            else (Chunk.decode body).map .chunk

/-! ## Texts -/

@[simp] theorem payload?_data (body : Json) :
    payload? (Outgoing.data body).render = some body.write := by
  have htext : (Outgoing.data body).render.toList =
      "data: ".toList ++ (body.write ++ "\n\n".toList) := by
    simp [Outgoing.render, Json.render]
  have hend : Text.dropEnd? "\n\n".toList (body.write ++ "\n\n".toList) = some body.write := by
    rw [Text.dropEnd?, List.reverse_append, Text.dropStart?_append]
    simp
  rw [payload?, htext, Text.dropStart?_append, Option.bind_some, hend]

theorem ofText_done : Received.ofText Outgoing.done.render = some .done := by
  have hpayload : payload? Outgoing.done.render = some "[DONE]".toList := by decide
  rw [Received.ofText, hpayload]
  exact if_pos rfl

/-- An object that a reader has room for is read as it was written. -/
theorem ofText_object {members : List (String × Json)}
    (h : Fits Json.nesting (.object members)) :
    Received.ofText (Outgoing.data (.object members)).render =
      if hasOnly ["error"] (.object members) then some (.error (.object members))
      else (Chunk.decode (.object members)).map .chunk := by
  have hread := Json.read_render h
  rw [Json.render, Text.bytes, String.toList_ofList] at hread
  have hmark : (Json.object members).write ≠ "[DONE]".toList := by
    simp [Json.write]
  simp only [Received.ofText, payload?_data, if_neg hmark, hread]

/-! ## Chunks -/

/-- What a piece of content changes. -/
def Content.change : Content -> Change
  | .text piece => { content := some piece }
  | .reasoning piece => { reasoning := some piece }
  | .arguments call partialJson => { calls := [⟨call, none, none, partialJson⟩] }
  | .other => {}

/-- What the chunk of a delta changes, if the delta is not terminal. -/
def Delta.change? : Delta -> Option Change
  | .start _ => some { role := some "assistant", content := some "" }
  | .toolCall call id name => some { calls := [⟨call, some id, some name, ""⟩] }
  | .content piece => some piece.change
  | .finish reason => some { finish := some reason.name }
  | .done _ => none
  | .failed _ => none

namespace Encoder

/-- The chunk with one change that the caller reads. -/
def chunkWith (encoder : Encoder) (change : Change) : Chunk :=
  ⟨encoder.id, encoder.created, encoder.model, [change], none⟩

/-- The last chunk of a stream with the usage. -/
def usageWith (encoder : Encoder) (usage : Chat.Usage) : Chunk :=
  ⟨encoder.id, encoder.created, encoder.model, [], some usage⟩

/-- The JSON of a chunk with the given choices. -/
def body (encoder : Encoder) (choices : List Json) (more : List (String × Json)) : Json :=
  .object ([
    ("choices", .array choices), ("created", .nat encoder.created.toNat),
    ("id", .text encoder.id), ("model", .text encoder.model),
    ("object", .text "chat.completion.chunk")] ++ more)

theorem ofText_envelope {encoder : Encoder} {choices : List Json}
    {more : List (String × Json)} (hchoices : ∀ choice ∈ choices, Fits 125 choice)
    (hmore : ∀ member ∈ more, Fits 126 member.2) :
    Received.ofText (encoder.envelope choices more).render =
      (Chunk.decode (encoder.body choices more)).map .chunk := by
  have hfits : Fits Json.nesting (encoder.body choices more) := by
    show ∀ member ∈ (_ : List (String × Json)), Fits 126 member.2
    simp only [List.forall_mem_append, List.forall_mem_cons]
    exact ⟨⟨hchoices, fits_nat (isWhole_uint64 _), fits_text _ _, fits_text _ _, fits_text _ _,
      by simp⟩, hmore⟩
  have hchunk : hasOnly ["error"] (encoder.body choices more) = false := by
    simp [body, hasOnly]
  rw [envelope, ofText_object hfits]
  simp only [body] at hchunk ⊢
  rw [hchunk]
  rfl

theorem needed_of_get? {decode : Decode α} {name : String} {value found : Json}
    (h : value.get? name = some found) : needed name decode value = decode found := by
  rw [needed, h, Option.bind_some]

theorem decode_body {choices : List Json} {changes : List Change} {usage : Option Chat.Usage}
    {more : List (String × Json)} (encoder : Encoder)
    (hchoices : choices.mapM Change.decode = some changes)
    (hmore : hasOnly ["usage"] (.object more) = true)
    (husage : allowed "usage" usageDecode (.object more) = some usage) :
    Chunk.decode (encoder.body choices more) =
      some ⟨encoder.id, encoder.created, encoder.model, changes, usage⟩ := by
  have honly : hasOnly ["choices", "created", "id", "model", "object", "usage"]
      (encoder.body choices more) = true := by
    simp only [hasOnly, List.all_eq_true] at hmore
    simp only [body, hasOnly, List.all_append, List.all_eq_true, Bool.and_eq_true]
    refine ⟨by simp, ?_⟩
    intro member hmember
    have hname := hmore member hmember
    simp only [List.contains_cons, List.contains_nil, Bool.or_false] at hname
    simp [beq_iff_eq.1 hname]
  have hcreated : needed "created" (Decode.numberAs Number.uint64?)
      (encoder.body choices more) = some encoder.created := by
    rw [needed_of_get? rfl, uint64_nat]
  have hobject : needed "object" Decode.text (encoder.body choices more) =
      some "chat.completion.chunk" := by
    rw [needed_of_get? rfl]
    rfl
  have hid : needed "id" Decode.text (encoder.body choices more) = some encoder.id := by
    rw [needed_of_get? rfl]
    rfl
  have hmodel : needed "model" Decode.text (encoder.body choices more) = some encoder.model := by
    rw [needed_of_get? rfl]
    rfl
  have hlist : needed "choices" (Decode.listOf Change.decode) (encoder.body choices more) =
      some changes := by
    rw [needed_of_get? rfl]
    exact hchoices
  have hlast : allowed "usage" usageDecode (encoder.body choices more) = some usage := by
    rw [← husage]
    rfl
  simp only [Chunk.decode, honly, hcreated, hobject, hid, hmodel, hlist, hlast]
  rfl

/-- The only choice of a chunk. -/
def choice (delta : Json) (finish : Option Chat.FinishReason) : Json :=
  .object [
    ("delta", delta), ("finish_reason", Json.optional (fun reason => .text reason.name) finish),
    ("index", .nat 0)]

theorem decode_choice {role content reasoning : Option String}
    {calls : Option (List CallPiece)} (delta : Json) (finish : Option Chat.FinishReason)
    (honly : hasOnly ["content", "reasoning_content", "role", "tool_calls"] delta = true)
    (hrole : allowed "role" Decode.text delta = some role)
    (hcontent : allowed "content" Decode.text delta = some content)
    (hreasoning : allowed "reasoning_content" Decode.text delta = some reasoning)
    (hcalls : allowed "tool_calls" (Decode.listOf CallPiece.decode) delta = some calls) :
    Change.decode (choice delta finish) =
      some ⟨role, content, reasoning, calls.getD [], finish.map Chat.FinishReason.name⟩ := by
  have hnames : hasOnly ["delta", "finish_reason", "index"] (choice delta finish) = true := by
    simp [choice, hasOnly]
  have hindex : needed "index" Decode.uint32 (choice delta finish) = some 0 := by
    rw [needed_of_get? rfl]
    exact uint32_nat 0
  have hfinish : needed "finish_reason" (Decode.nullable Decode.text) (choice delta finish) =
      some (finish.map Chat.FinishReason.name) := by
    rw [needed_of_get? rfl]
    cases finish <;> rfl
  have hdelta : needed "delta" some (choice delta finish) = some delta := rfl
  simp only [Change.decode, hnames, hindex, hfinish, hdelta]
  simp [honly, hrole, hcontent, hreasoning, hcalls]

theorem ofText_chunk {delta : Json} {change : Change} {finish : Option Chat.FinishReason}
    (encoder : Encoder) (hfits : Fits 124 delta)
    (hdecode : Change.decode (choice delta finish) = some change) :
    Received.ofText (encoder.chunk delta finish).render =
      some (.chunk (encoder.chunkWith change)) := by
  have hchoice : ∀ item ∈ [choice delta finish], Fits 125 item := by
    simp only [List.forall_mem_singleton]
    show ∀ member ∈ (_ : List (String × Json)), Fits 124 member.2
    simp only [List.forall_mem_cons]
    refine ⟨hfits, ?_, fits_nat (isWhole_uint32 0), by simp⟩
    cases finish with
    | none => exact fits_null _
    | some reason => exact fits_text _ _
  have hchoices : [choice delta finish].mapM Change.decode = some [change] := by
    simp [hdecode]
  rw [chunk, ← choice, ofText_envelope hchoice (by simp),
    decode_body encoder hchoices rfl rfl]
  rfl

/-! ### Pieces of tool calls -/

/-- A delta with one piece of a call. -/
def callsJson (piece : Json) : Json :=
  .object [("tool_calls", .array [piece])]

/-- The piece of a call with some of its arguments. -/
def pieceJson (call : UInt32) (partialJson : String) : Json :=
  .object [("function", .object [("arguments", .text partialJson)]), ("index", .nat call.toNat)]

/-- The piece that begins a call. -/
def headerJson (call : UInt32) (id name : String) : Json :=
  .object [
    ("function", .object [("arguments", .text ""), ("name", .text name)]),
    ("id", .text id), ("index", .nat call.toNat), ("type", .text "function")]

theorem decode_piece (call : UInt32) (partialJson : String) :
    CallPiece.decode (pieceJson call partialJson) = some ⟨call, none, none, partialJson⟩ := by
  have hindex : needed "index" Decode.uint32 (pieceJson call partialJson) = some call := by
    rw [needed_of_get? rfl, uint32_nat]
  rw [CallPiece.decode, hindex]
  rfl

theorem decode_header (call : UInt32) (id name : String) :
    CallPiece.decode (headerJson call id name) = some ⟨call, some id, some name, ""⟩ := by
  have hindex : needed "index" Decode.uint32 (headerJson call id name) = some call := by
    rw [needed_of_get? rfl, uint32_nat]
  rw [CallPiece.decode, hindex]
  rfl

theorem decode_calls {piece : Json} {call : CallPiece} (h : CallPiece.decode piece = some call) :
    Change.decode (choice (callsJson piece) none) = some { calls := [call] } := by
  have hcalls : allowed "tool_calls" (Decode.listOf CallPiece.decode) (callsJson piece) =
      some (some [call]) := by
    show (([piece].mapM CallPiece.decode).map some : Option (Option (List CallPiece))) = _
    simp [h]
  exact decode_choice (callsJson piece) none rfl rfl rfl rfl hcalls

theorem fits_calls {depth : Nat} {piece : Json} (h : Fits depth piece) :
    Fits (depth + 2) (callsJson piece) := by
  have hlist : Fits (depth + 1) (.array [piece]) := List.forall_mem_singleton.2 h
  exact fits_object (List.forall_mem_singleton.2 hlist)

theorem fits_piece (call : UInt32) (partialJson : String) :
    Fits 122 (pieceJson call partialJson) := by
  apply fits_object
  simp only [List.forall_mem_cons]
  exact ⟨fits_object (by simp [fits_text]), fits_nat (isWhole_uint32 call), by simp⟩

theorem fits_header (call : UInt32) (id name : String) : Fits 122 (headerJson call id name) := by
  apply fits_object
  simp only [List.forall_mem_cons]
  exact ⟨fits_object (by simp [fits_text]), fits_text _ id, fits_nat (isWhole_uint32 call),
    fits_text _ _, by simp⟩

/-! ### Chunks of deltas -/

theorem decode_content (content : Content) :
    Change.decode (choice (contentJson content) none) = some content.change := by
  cases content with
  | text piece => exact decode_choice (contentJson (.text piece)) none rfl rfl rfl rfl rfl
  | reasoning piece =>
      exact decode_choice (contentJson (.reasoning piece)) none rfl rfl rfl rfl rfl
  | arguments call partialJson => exact decode_calls (decode_piece call partialJson)
  | other => exact decode_choice (contentJson .other) none rfl rfl rfl rfl rfl

theorem fits_content (content : Content) : Fits 124 (contentJson content) := by
  cases content with
  | text piece => exact fits_object (List.forall_mem_singleton.2 (fits_text _ piece))
  | reasoning piece => exact fits_object (List.forall_mem_singleton.2 (fits_text _ piece))
  | arguments call partialJson => exact fits_calls (fits_piece call partialJson)
  | other => exact fits_object (by simp)

/-- The chunk of a delta that is not terminal, as the caller reads it. -/
theorem ofText_step {delta : Delta} {change : Change} (encoder : Encoder)
    (h : delta.change? = some change) :
    (encoder.step delta).2.map (fun frame => Received.ofText frame.render) =
      [some (.chunk ((encoder.step delta).1.chunkWith change))] := by
  cases delta with
  | start id =>
      cases h
      have hfits : Fits 124 (.object [("content", .text ""), ("role", .text "assistant")]) :=
        fits_object (by simp [fits_text])
      have hchange := decode_choice
        (.object [("content", .text ""), ("role", .text "assistant")]) none rfl rfl rfl rfl rfl
      rw [step, List.map_singleton, ofText_chunk _ hfits hchange]
      rfl
  | toolCall call id name =>
      cases h
      have hfits : Fits 124 (toolCallJson call id name) := fits_calls (fits_header call id name)
      have hchange : Change.decode (choice (toolCallJson call id name) none) =
          some { calls := [⟨call, some id, some name, ""⟩] } :=
        decode_calls (decode_header call id name)
      rw [step, List.map_singleton, ofText_chunk _ hfits hchange]
  | content content =>
      cases h
      rw [step, List.map_singleton,
        ofText_chunk _ (fits_content content) (decode_content content)]
  | finish reason =>
      cases h
      have hchange := decode_choice (.object []) (some reason) rfl rfl rfl rfl rfl
      rw [step, List.map_singleton, ofText_chunk _ (fits_object (by simp)) hchange]
      rfl
  | done usage => cases h
  | failed failure => cases h

/-- What the caller reads at the end of a stream. -/
def lastReceived (encoder : Encoder) : Delta -> List Received
  | .failed failure => [.error failure.body]
  | .done usage =>
      (if encoder.includeUsage then [.chunk (encoder.usageWith usage)] else []) ++ [.done]
  | _ => []

theorem canonical_usage (usage : Chat.Usage) :
    usage.toJson.canonical = .object [
      ("completion_tokens", .nat usage.completion.toNat),
      ("prompt_tokens", .nat usage.prompt.toNat),
      ("total_tokens", .nat usage.total.toNat)] := by
  rfl

theorem decode_usage (usage : Chat.Usage) : usageDecode usage.toJson.canonical = some usage := by
  have hprompt : needed "prompt_tokens" Decode.uint32 usage.toJson.canonical =
      some usage.prompt := by
    rw [canonical_usage, needed_of_get? rfl, uint32_nat]
  have hcompletion : needed "completion_tokens" Decode.uint32 usage.toJson.canonical =
      some usage.completion := by
    rw [canonical_usage, needed_of_get? rfl, uint32_nat]
  have htotal : needed "total_tokens" Decode.uint32 usage.toJson.canonical =
      some usage.total := by
    rw [canonical_usage, needed_of_get? rfl, uint32_nat]
  have honly : hasOnly ["completion_tokens", "prompt_tokens", "total_tokens"]
      usage.toJson.canonical = true := by
    rw [canonical_usage]
    rfl
  rw [usageDecode, honly, hprompt, hcompletion, htotal]
  simp

theorem ofText_usageChunk (encoder : Encoder) (usage : Chat.Usage) :
    Received.ofText (encoder.usageChunk usage).render =
      some (.chunk (encoder.usageWith usage)) := by
  have hfits : ∀ member ∈ [("usage", usage.toJson.canonical)], Fits 126 member.2 := by
    rw [canonical_usage]
    refine List.forall_mem_singleton.2 (fits_object ?_)
    simp only [List.forall_mem_cons]
    exact ⟨fits_nat (isWhole_uint32 _), fits_nat (isWhole_uint32 _),
      fits_nat (isWhole_uint32 _), by simp⟩
  have husage : allowed "usage" usageDecode (.object [("usage", usage.toJson.canonical)]) =
      some (some usage) := by
    show (usageDecode usage.toJson.canonical).map some = _
    rw [decode_usage]
    rfl
  rw [usageChunk, ofText_envelope (by simp) hfits, decode_body encoder rfl rfl husage]
  rfl

theorem ofText_failure (failure : Failure) :
    Received.ofText (Outgoing.data failure.body).render = some (.error failure.body) := by
  have hfits : Fits Json.nesting failure.body := by
    refine fits_object (List.forall_mem_singleton.2 (fits_object ?_))
    simp only [List.forall_mem_append, List.forall_mem_cons]
    refine ⟨⟨⟨fits_text _ _, fits_text _ _, by simp⟩, ?_⟩, fits_text _ _, by simp⟩
    cases failure.step? with
    | none => simp [Json.member?]
    | some step => exact List.forall_mem_singleton.2 (fits_text _ _)
  rw [Failure.body, ofText_object hfits]
  exact if_pos rfl

theorem ofText_step_terminal {delta : Delta} (encoder : Encoder)
    (h : delta.isTerminal = true) :
    (encoder.step delta).2.map (fun frame => Received.ofText frame.render) =
      (encoder.lastReceived delta).map some := by
  cases delta with
  | done usage =>
      simp only [step, lastReceived, List.map_append, List.map_singleton, ofText_done]
      cases encoder.includeUsage with
      | false => rfl
      | true => simp [ofText_usageChunk]
  | failed failure => simp [step, lastReceived, ofText_failure]
  | _ => cases h

end Encoder

end Stream

end ChatGateway
