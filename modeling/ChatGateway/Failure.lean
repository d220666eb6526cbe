import ChatGateway.Json.Printer
import ChatGateway.Json.Decode

/-!
# Failures

Everything that can go wrong for a caller, as causes.  `message` is the wording,
`status` the HTTP status of the answer, `body` the JSON envelope of the answer
and of an error inside an event stream.
-/

namespace ChatGateway

/-- What the operator has to do next to be authenticated. -/
inductive AuthStep where
  /-- No flow is pending: start one. -/
  | start
  /-- A flow is pending: post its code. -/
  | callback
  deriving DecidableEq, Repr

def AuthStep.name : AuthStep -> String
  | .start => "start"
  | .callback => "callback"

inductive Failure where
  | authRequired (step : AuthStep)
  | exchangeFailed (reason : String)
  | refreshFailed (reason : String)
  | invalidKey
  | unknownModel (name : String)
  | unsupported (feature : String)
  | invalidRequest (reason : String)
  /-- The provider answered with an error, or inside a stream sent one. -/
  | provider (status : Nat) (code message : String)
  | timedOut
  | malformedStream (reason : String)
  | unreachable (reason : String)
  | storage (reason : String)
  | configuration (reason : String)
  deriving DecidableEq, Repr

namespace Failure

def message : Failure -> String
  | .authRequired step => "Not authenticated, continue the OAuth flow at /auth/" ++ step.name
  | .exchangeFailed reason => "OAuth code exchange failed: " ++ reason
  | .refreshFailed reason =>
      "OAuth token refresh failed, re-authenticate via /auth/start: " ++ reason
  | .invalidKey => "Invalid or missing API key"
  | .unknownModel name => "Unknown model: " ++ name
  | .unsupported feature => "Unsupported feature: " ++ feature
  | .invalidRequest reason => "Invalid request: " ++ reason
  | .provider status code message =>
      "Upstream error (" ++ toString status ++ " " ++ code ++ "): " ++ message
  | .timedOut => "Upstream request timed out"
  | .malformedStream reason => "Malformed upstream stream: " ++ reason
  | .unreachable reason => "Network error: " ++ reason
  | .storage reason => "Storage error: " ++ reason
  | .configuration reason => "Configuration error: " ++ reason

/-- The status for an error type that the provider documents. -/
def knownStatus : String -> Option Nat
  | "invalid_request_error" => some 400
  | "authentication_error" => some 401
  | "permission_error" => some 403
  | "not_found_error" => some 404
  | "request_too_large" => some 413
  | "rate_limit_error" => some 429
  | "overloaded_error" => some 503
  | "timeout_error" => some 504
  | _ => none

/-- The status for any error type; an unknown one is a bad gateway. -/
def statusOfType (errorType : String) : Nat :=
  (knownStatus errorType).getD 502

/--
The status relayed for an error of the provider: that of its type if it is
known, else the provider's own if it blames the request or is 503 or 504, else a
bad gateway.
-/
def relayedStatus (errorType : String) (own : Nat) : Nat :=
  match knownStatus errorType with
  | some status => status
  | none =>
      if (400 ≤ own ∧ own < 500) ∨ own = 503 ∨ own = 504 then own else 502

def status : Failure -> Nat
  | .authRequired _ | .exchangeFailed _ | .refreshFailed _ | .invalidKey => 401
  | .unknownModel _ => 404
  | .unsupported _ | .invalidRequest _ => 400
  | .provider own code _ => relayedStatus code own
  | .timedOut => 504
  | .malformedStream _ | .unreachable _ => 502
  | .storage _ | .configuration _ => 500

/-- The family of a failure, the envelope's `type`. -/
def family : Failure -> String
  | .authRequired _ | .exchangeFailed _ | .refreshFailed _ | .invalidKey =>
      "authentication_error"
  | .unknownModel _ | .unsupported _ | .invalidRequest _ => "invalid_request_error"
  | .provider _ _ _ | .timedOut | .malformedStream _ | .unreachable _ => "upstream_error"
  | .storage _ | .configuration _ => "server_error"

/-- The envelope's `code`; an error of the provider keeps its own. -/
def code : Failure -> String
  | .authRequired _ => "auth_required"
  | .exchangeFailed _ => "auth_exchange_failed"
  | .refreshFailed _ => "refresh_failed"
  | .invalidKey => "invalid_api_key"
  | .unknownModel _ => "model_not_found"
  | .unsupported _ => "unsupported_feature"
  | .invalidRequest _ => "invalid_request"
  | .provider _ code _ => code
  | .timedOut => "upstream_timeout"
  | .malformedStream _ => "malformed_stream"
  | .unreachable _ => "upstream_unreachable"
  | .storage _ => "storage_error"
  | .configuration _ => "config_error"

/-- The step of the authorization that mends a failure, if one does. -/
def step? : Failure -> Option AuthStep
  | .authRequired step => some step
  | .exchangeFailed _ => some .callback
  | .refreshFailed _ => some .start
  | _ => none

def body (failure : Failure) : Json :=
  .object [("error", .object <|
    [("code", .text failure.code), ("message", .text failure.message)] ++
    Json.member? "step" (fun step => .text step.name) failure.step? ++
    [("type", .text failure.family)])]

/-! ## Errors of the provider -/

structure Report where
  errorType : String
  message : String
  deriving DecidableEq, Repr

/-- The error object, written `{"type": …, "message": …}`. -/
def Report.reader : Json.Reader.Typed Report :=
  Json.Reader.record [
    .required "type" Json.Reader.text fun errorType report => { report with errorType },
    .defaulted "message" Json.Reader.text fun message report => { report with message }]
    ⟨"", ""⟩

/-- The body of an error answer, written `{"error": …}`. -/
def Report.bodyReader : Json.Reader.Typed Report :=
  Json.Reader.record [.required "error" Report.reader fun report _ => report] ⟨"", ""⟩

/--
The failure for an error answer; a body that is no error object is quoted, at most
512 characters of it.
-/
def ofAnswer (status : Nat) (body : String) : Failure :=
  match Json.Reader.run Report.bodyReader (Text.bytes body) with
  | .ok report => .provider status report.errorType report.message
  | .error _ => .provider status "upstream_error" (Text.firstChars 512 body)

def ofStreamError (report : Report) : Failure :=
  .provider (statusOfType report.errorType) report.errorType report.message

end Failure

end ChatGateway
