import ChatGateway.Failure
import ChatGateway.Hash.Sha256
import ChatGateway.Settings
import ChatGateway.Text.Base64Url
import ChatGateway.Text.Percent

/-!
# Authorization flows

A flow starts with a URL that the operator opens.  The provider then shows a
code and the flow's state, and the operator pastes both back.  The secret
verifier of the flow proves to the provider who started it: the URL holds only
its SHA-256 challenge.
-/

namespace ChatGateway

namespace Credential

structure Pasted where
  code : String
  state : String
  deriving DecidableEq, Repr

namespace Pasted

/-- The failure of a text that is no pasted code. -/
def malformed : Failure :=
  .exchangeFailed "authorization code must have the form code#state"

/-- A text with exactly one `#` and something on both sides, blanks around it aside. -/
def read (text : String) : Except Failure Pasted :=
  match Text.cut '#' (Text.trimList text.toList) with
  | some (code, state) =>
      if code.isEmpty || state.isEmpty || state.contains '#' then .error malformed
      else .ok ⟨String.ofList code, String.ofList state⟩
  | none => .error malformed

end Pasted

structure Flow where
  verifier : String
  state : String
  deriving DecidableEq, Repr

/-- The challenge of a verifier: its digest. -/
def challenge (verifier : String) : String :=
  String.ofList (Text.Base64Url.encode (Sha256.digest (Text.bytes verifier)))

def redirectUrl : String := "https://console.anthropic.com/oauth/code/callback"

def scopes : String := "org:create_api_key user:profile user:inference"

/-- The URL of a flow that the operator opens. -/
def Flow.url (settings : Settings) (flow : Flow) : String :=
  settings.authorizeUrl ++
    "?code=true&client_id=" ++ Text.Percent.encode settings.clientId ++
    "&response_type=code&redirect_uri=" ++ Text.Percent.encode redirectUrl ++
    "&scope=" ++ Text.Percent.encode scopes ++
    "&code_challenge=" ++ challenge flow.verifier ++
    "&code_challenge_method=S256&state=" ++ flow.state

inductive TokenRequest where
  /-- A credential for a code, with the state and the verifier of its flow. -/
  | exchange (code state verifier : String)
  | refresh (refreshToken : String)
  deriving DecidableEq, Repr

def TokenRequest.toJson (clientId : String) : TokenRequest -> Json
  | .exchange code state verifier => .object [
      ("client_id", .text clientId),
      ("code", .text code),
      ("code_verifier", .text verifier),
      ("grant_type", .text "authorization_code"),
      ("redirect_uri", .text redirectUrl),
      ("state", .text state)]
  | .refresh refreshToken => .object [
      ("client_id", .text clientId),
      ("grant_type", .text "refresh_token"),
      ("refresh_token", .text refreshToken)]

end Credential

end ChatGateway
