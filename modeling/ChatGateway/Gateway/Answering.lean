import ChatGateway.Chat.OfReply
import ChatGateway.Credential.Call
import ChatGateway.Gateway.Admission
import ChatGateway.Gateway.Sharing

/-!
# Answering

The responses of the gateway: those that are due at once, those made from the
answer of a call, and those made from an exchange with the provider.
-/

namespace ChatGateway

namespace Gateway

def versionText : String := "0.1.0"

/-! ## Responses without a call -/

def healthBody (session : Credential.Session) : Json :=
  .object [("status", .text "ok"), ("authenticated", .bool session.record.isSome)]

def versionBody (setup : Setup) : Json :=
  .object [
    ("version", .text versionText),
    ("git_hash", .text setup.revision),
    ("build_time", .text setup.buildTime)]

/-- The documented paths with their methods. -/
def documented : List (String × String) := [
  ("/auth/status", "get"),
  ("/auth/start", "get"),
  ("/auth/callback", "post"),
  ("/auth/logout", "post"),
  ("/health", "get"),
  ("/version", "get")]

def documentBody : Json :=
  .object [
    ("openapi", .text "3.1.0"),
    ("info", .object [("title", .text "anthropic-max-proxy"), ("version", .text versionText)]),
    ("paths", .object (documented.map fun entry =>
      (entry.1, .object [(entry.2, .object [])])))]

def respondNow (setup : Setup) (session : Credential.Session) (now : UInt64) :
    Page -> Http.Response
  | .preflight => ⟨200, preflightHeaders, .empty⟩
  | .unknownPath => .bare 404
  | .wrongMethod => .bare 405
  | .refused failure => .ofFailure failure
  | .status => .ofJson 200 (session.status now).toJson
  | .health => .ofJson 200 (healthBody session)
  | .version => .ofJson 200 (versionBody setup)
  | .document => .ofJson 200 documentBody
  | .models => .ofJson 200 setup.registry.toJson

/-- The call of an errand; a new flow takes the given secrets. -/
def callOf (flow : Credential.Flow) : Errand -> Credential.Call
  | .start => .start flow
  | .callback pasted => .complete pasted
  | .logout => .logout
  | .chat _ => .token

/-! ## Responses made from the answer of a call -/

def startedBody (setup : Setup) (flow : Credential.Flow) : Json :=
  .object [
    ("url", .text (flow.url setup.settings)),
    ("state", .text flow.state),
    ("message", .text ("Open the URL in a browser, authorize, then POST the displayed code to " ++
      "/auth/callback as \x7b\"code\": \"...\"\x7d")),
    ("next_step", .text "callback")]

def completedBody (record : Credential.Record) : Json :=
  .object [
    ("success", .bool true),
    ("expires_at", .nat record.expiresAt.toNat),
    ("message", .text "Authenticated, /v1/chat/completions is ready")]

def loggedOutBody : Json :=
  .object [("success", .bool true)]

/-- The response that hands on the answer of a call; a token is no part of any response. -/
def respondAfter (setup : Setup) : Credential.Answer -> Http.Response
  | .started flow => .ofJson 200 (startedBody setup flow)
  | .completed record => .ofJson 200 (completedBody record)
  | .loggedOut => .ofJson 200 loggedOutBody
  | .token _ => .bare 200
  | .refused failure => .ofFailure failure

/-! ## Requests to the provider -/

/-- The version of the messages API. -/
def messagesVersion : String := "2023-06-01"

/-- The parts of the messages API that a subscription's credential needs. -/
def messagesFeatures : String :=
  "oauth-2025-04-20,claude-code-20250219,interleaved-thinking-2025-05-14," ++
    "fine-grained-tool-streaming-2025-05-14"

/-- The request for a message, made with a token. -/
def messageRequest (setup : Setup) (plan : Plan) (token : String) : Http.Sent where
  url := setup.settings.messagesUrl
  headers := [
    ("accept", if plan.sent.stream then "text/event-stream" else "application/json"),
    ("anthropic-beta", messagesFeatures),
    ("anthropic-version", messagesVersion),
    ("authorization", "Bearer " ++ token),
    ("content-type", "application/json"),
    ("user-agent", "anthropic-max-proxy/" ++ versionText)]
  body := plan.sent.toJson

def tokenRequest (setup : Setup) (request : Credential.TokenRequest) : Http.Sent where
  url := setup.settings.tokenUrl
  headers := [("accept", "*/*"), ("content-type", "application/json")]
  body := request.toJson setup.settings.clientId

/-! ## Responses made from an exchange -/

/-- The completion in the body of a granted answer; there is no response if making it breaks off. -/
def completionOf (plan : Plan) (now : UInt64) (status : Nat) :
    Http.Arrival -> Option Http.Response
  | .stalled _ => some (.ofFailure .timedOut)
  | .broken _ reason => some (.ofFailure (.unreachable reason))
  | .whole bytes =>
      match Messages.Reply.read bytes with
      | .ok reply => (Chat.Completion.ofReply reply plan.model now).map fun completion =>
          .ofJson 200 completion.toJson
      | .error fault => some (.ofFailure
          (.provider status "invalid_response" ("Failed to parse response: " ++ fault.message)))

def readsOf : Http.Arrival -> List (Nat × Stream.Read)
  | .whole bytes => [(0, .chunk bytes), (0, .closed)]
  | .broken bytes reason => [(0, .chunk bytes), (0, .failed reason)]
  | .stalled bytes => [(0, .chunk bytes)]

/-- The event stream from the body of a granted answer; `id` serves until the provider gives one. -/
def eventsOf (plan : Plan) (now : UInt64) (id : String) (idle : Nat) (body : Http.Arrival) :
    Http.Response :=
  let encoder : Stream.Encoder :=
    ⟨Chat.completionId id, now, plan.model, plan.includeUsage⟩
  .ofEvents (encoder.framesOfReads idle (readsOf body))

/-- The response made from the exchange for a message, unless making it breaks off. -/
def respondWith (plan : Plan) (now : UInt64) (id : String) (idle : Nat) :
    Http.Exchange -> Option Http.Response
  | .failed reason => some (.ofFailure (.unreachable reason))
  | .silent => some (.ofFailure .timedOut)
  | .answered status body =>
      if Http.isSuccess status then
        if plan.sent.stream then some (eventsOf plan now id idle body)
        else completionOf plan now status body
      else
        match body with
        | .stalled _ => some (.ofFailure .timedOut)
        | body => some (.ofFailure (Failure.ofAnswer status body.text))

end Gateway

end ChatGateway
