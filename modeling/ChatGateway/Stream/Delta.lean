import ChatGateway.Chat.Completion
import ChatGateway.Stream.Event

/-!
# Deltas

The pieces of a completion in the order in which the provider's events bring
them, and the state that turns events into deltas.
-/

namespace ChatGateway

namespace Stream

open Chat (FinishReason Usage)

/-- A piece of the assistant's message. -/
inductive Content where
  | text (text : String)
  | reasoning (text : String)
  /-- A piece of a tool call's arguments, with the number of the call in the turn. -/
  | arguments (call : UInt32) (partialJson : String)
  /-- A piece that callers have no field for. -/
  | other
  deriving DecidableEq, Repr

inductive Delta where
  | start (id : String)
  /-- A tool call begins; calls are numbered within the turn. -/
  | toolCall (call : UInt32) (id name : String)
  | content (content : Content)
  | finish (reason : FinishReason)
  /-- The turn is complete. -/
  | done (usage : Usage)
  /-- The stream has failed. -/
  | failed (failure : Failure)
  deriving DecidableEq, Repr

/-- The two deltas after which nothing comes. -/
def Delta.isTerminal : Delta -> Bool
  | .done _ => true
  | .failed _ => true
  | _ => false

/-- What an event brings. -/
inductive Brought where
  | nothing
  | one (delta : Delta)
  /-- The stream breaks off: nothing comes any more, and no terminal delta either. -/
  | breakOff
  deriving DecidableEq, Repr

/-- The delta that an event brings, if it brings one. -/
def Brought.delta? : Brought -> Option Delta
  | .one delta => some delta
  | .nothing | .breakOff => none

@[simp] theorem Brought.delta?_nothing : Brought.nothing.delta? = none := rfl

@[simp] theorem Brought.delta?_one (delta : Delta) : (Brought.one delta).delta? = some delta := rfl

@[simp] theorem Brought.delta?_breakOff : Brought.breakOff.delta? = none := rfl

/-- Which tool call a block of the provider's message is; each block index is listed once. -/
abbrev ToolCalls := List (UInt32 × UInt32)

namespace ToolCalls

/-- Gives a block index the number of its call, in place if the index is listed. -/
def set (index call : UInt32) : ToolCalls -> ToolCalls
  | [] => [(index, call)]
  | (other, held) :: rest =>
      if other = index then (index, call) :: rest
      else (other, held) :: set index call rest

/-- The call of a block index; a block that began none counts to the first call. -/
def callOf (calls : ToolCalls) (index : UInt32) : UInt32 :=
  (calls.lookup index).getD 0

end ToolCalls

/-- What has to be remembered between the events of one turn. -/
structure Progress where
  toolCalls : ToolCalls
  inputTokens : UInt32
  outputTokens : UInt32
  deriving DecidableEq, Repr

namespace Progress

def initial : Progress := ⟨[], 0, 0⟩

/-- Takes over the token counts that a report holds. -/
def record (progress : Progress) : Option TokenReport -> Progress
  | none => progress
  | some tokens =>
      { progress with
        inputTokens := tokens.input.getD progress.inputTokens
        outputTokens := tokens.output.getD progress.outputTokens }

/-- The piece of content that a piece of a block is. -/
def contentOf (progress : Progress) (index : UInt32) : BlockDelta -> Content
  | .text text => .text text
  | .thinking text => .reasoning text
  | .inputJson partialJson => .arguments (progress.toolCalls.callOf index) partialJson
  | .other => .other

/-- The end of a complete turn; the stream breaks off if its counts have no total. -/
def complete (progress : Progress) : Brought :=
  match Usage.ofCounts? progress.inputTokens progress.outputTokens with
  | some usage => .one (.done usage)
  | none => .breakOff

/-- The progress after an event, and what the event brings. -/
def step (progress : Progress) : Event -> Progress × Brought
  | .messageStart id tokens => (progress.record tokens, .one (.start id))
  | .blockStart index block =>
      if block.kind = "tool_use" then
        let call := UInt32.ofNat progress.toolCalls.length
        ({ progress with toolCalls := progress.toolCalls.set index call },
          .one (.toolCall call (block.id.getD "") (block.name.getD "")))
      else (progress, .nothing)
  | .blockDelta index delta => (progress, .one (.content (progress.contentOf index delta)))
  | .messageDelta stopReason tokens =>
      (progress.record tokens, .one (.finish (FinishReason.ofStopReason stopReason)))
  | .messageStop => (progress, progress.complete)
  | .error report => (progress, .one (.failed (Failure.ofStreamError report)))
  | .blockStop => (progress, .nothing)
  | .ping => (progress, .nothing)
  | .unknown => (progress, .nothing)

end Progress

end Stream

end ChatGateway
