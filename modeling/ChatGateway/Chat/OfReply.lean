import ChatGateway.Chat.Completion
import ChatGateway.Json.Printer
import ChatGateway.Messages.Reply

/-!
# The completion of a reply

Texts are joined into the content, thinking into the reasoning, and every tool
use becomes a call whose arguments are the compact text of its input.
-/

namespace ChatGateway

namespace Chat

open Messages (Reply ReplyBlock)

def blockText : ReplyBlock -> String
  | .text text => text
  | _ => ""

def blockThinking : ReplyBlock -> String
  | .thinking thinking => thinking
  | _ => ""

def blockCall : ReplyBlock -> Option CalledTool
  | .toolUse id name input => some ⟨id, name, input.render⟩
  | _ => none

def nonEmpty (text : String) : Option String :=
  if text.isEmpty then none else some text

/-- The identifier under which the caller sees a message of the provider. -/
def completionId (id : String) : String :=
  "chatcmpl-" ++ id

namespace Completion

/-- The completion of a reply with the usage given. -/
def withUsage (reply : Reply) (model : String) (now : UInt64) (usage : Usage) : Completion where
  id := completionId reply.id
  created := now
  model := model
  content := nonEmpty (String.join (reply.content.map blockText))
  reasoning := nonEmpty (String.join (reply.content.map blockThinking))
  toolCalls := reply.content.filterMap blockCall
  finish := FinishReason.ofStopReason reply.stopReason
  usage := usage

/--
The completion of a reply, for the model name that the caller used.  Making it breaks off if
the reply's counts have no total.
-/
def ofReply (reply : Reply) (model : String) (now : UInt64) : Option Completion :=
  (Usage.ofCounts? reply.inputTokens reply.outputTokens).map (withUsage reply model now)

end Completion

end Chat

end ChatGateway
