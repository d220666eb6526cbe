import ChatGateway.Json.Value

/-!
# Completions

What a caller gets: the assistant's message, why it ended and what it cost.
-/

namespace ChatGateway

namespace Chat

inductive FinishReason where
  | stop
  | length
  | toolCalls
  | contentFilter
  deriving DecidableEq, Repr

namespace FinishReason

def name : FinishReason -> String
  | .stop => "stop"
  | .length => "length"
  | .toolCalls => "tool_calls"
  | .contentFilter => "content_filter"

/-- The reason that the provider's own word stands for; none and an unknown one are `stop`. -/
def ofStopReason : Option String -> FinishReason
  | some "max_tokens" => .length
  | some "model_context_window_exceeded" => .length
  | some "tool_use" => .toolCalls
  | some "refusal" => .contentFilter
  | _ => .stop

end FinishReason

/-- The tokens of a turn; their total fits into 32 bits. -/
structure Usage where
  prompt : UInt32
  completion : UInt32
  fits : prompt.toNat + completion.toNat < UInt32.size
  deriving DecidableEq, Repr

namespace Usage

/-- The usage with these counts; there is none if their total does not fit. -/
def ofCounts? (prompt completion : UInt32) : Option Usage :=
  if fits : prompt.toNat + completion.toNat < UInt32.size then some ⟨prompt, completion, fits⟩
  else none

@[simp] theorem ofCounts?_self (usage : Usage) :
    ofCounts? usage.prompt usage.completion = some usage :=
  dif_pos usage.fits

theorem ofCounts?_eq_none {prompt completion : UInt32} :
    ofCounts? prompt completion = none ↔
      UInt32.size ≤ prompt.toNat + completion.toNat := by
  unfold ofCounts?
  split <;> simp <;> omega

def total (usage : Usage) : UInt32 :=
  usage.prompt + usage.completion

theorem toNat_total (usage : Usage) :
    usage.total.toNat = usage.prompt.toNat + usage.completion.toNat := by
  rw [total, UInt32.toNat_add, Nat.mod_eq_of_lt usage.fits]

def toJson (usage : Usage) : Json :=
  .object [
    ("prompt_tokens", .nat usage.prompt.toNat),
    ("completion_tokens", .nat usage.completion.toNat),
    ("total_tokens", .nat usage.total.toNat)]

end Usage

/-- A call of a tool as the caller sees it; the arguments are JSON text. -/
structure CalledTool where
  id : String
  name : String
  arguments : String
  deriving DecidableEq, Repr

namespace CalledTool

def toJson (call : CalledTool) : Json :=
  .object [
    ("id", .text call.id),
    ("type", .text "function"),
    ("function", .object [("name", .text call.name), ("arguments", .text call.arguments)])]

end CalledTool

structure Completion where
  id : String
  created : UInt64
  model : String
  content : Option String
  reasoning : Option String
  toolCalls : List CalledTool
  finish : FinishReason
  usage : Usage
  deriving DecidableEq, Repr

namespace Completion

/-- The assistant's message; without text its content is null. -/
def message (completion : Completion) : Json :=
  .object <|
    [("role", .text "assistant"), ("content", Json.optional .text completion.content)] ++
    Json.member? "reasoning_content" .text completion.reasoning ++
    (if completion.toolCalls.isEmpty then []
      else [("tool_calls", .array (completion.toolCalls.map CalledTool.toJson))])

def toJson (completion : Completion) : Json :=
  .object [
    ("id", .text completion.id),
    ("object", .text "chat.completion"),
    ("created", .nat completion.created.toNat),
    ("model", .text completion.model),
    ("choices", .array [.object [
      ("index", .nat 0),
      ("message", completion.message),
      ("finish_reason", .text completion.finish.name)]]),
    ("usage", completion.usage.toJson)]

end Completion

end Chat

end ChatGateway
