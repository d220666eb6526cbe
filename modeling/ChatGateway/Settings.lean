import ChatGateway.Model
import ChatGateway.Text.Case
import ChatGateway.Text.Whole

/-!
# Settings

What the operator can set, read from variables.  A variable that holds only
blanks counts as missing; of several faults the first in reading order is
reported.
-/

namespace ChatGateway

/-- The origins from which a browser may call. -/
inductive Origins where
  | localhost
  | any
  | listed (origins : List String)
  deriving DecidableEq, Repr

structure Settings where
  host : String
  tcpPort : UInt16
  logLevel : String
  tokenFile : String
  clientId : String
  authorizeUrl : String
  tokenUrl : String
  /-- Where the provider's API lives, without a slash at the end. -/
  apiUrl : String
  /-- The longest wait for an answer, in seconds. -/
  requestTimeout : UInt64
  /-- The longest wait for the next piece of a stream, in seconds. -/
  idleTimeout : UInt64
  aliases : List Model.Alias
  origins : Origins
  /-- The key that callers have to present, if any. -/
  apiKey : Option String
  deriving DecidableEq, Repr

namespace Settings

/-- The beginning of every variable's name. -/
def variableStart : String := "ANTHROPIC_PROXY_"

/-- The variables that settings are read from, by their names without the beginning. -/
def variableNames : List String := [
  "HOST", "PORT", "LOG_LEVEL", "TOKEN_FILE", "CLIENT_ID", "OAUTH_URL", "TOKEN_URL", "API_URL",
  "REQUEST_TIMEOUT_SECS", "STREAM_IDLE_TIMEOUT_SECS", "MODEL_ALIASES", "CORS_ORIGINS", "API_KEY"]

def defaultClientId : String := "9d1c250a-e61b-44d9-88ed-5944d1962f5e"

def defaultAuthorizeUrl : String := "https://claude.ai/oauth/authorize"

def defaultTokenUrl : String := "https://console.anthropic.com/v1/oauth/token"

def defaultApiUrl : String := "https://api.anthropic.com/v1"

/-- Where the credential is kept inside the user's configuration directory. -/
def defaultTokenFile (directory : String) : String :=
  directory ++ "/anthropic-max-proxy/tokens.json"

/-- The number below `limit` that a variable holds. -/
def whole (limit : Nat) (name : String) (default : Nat) : Option String -> Except Failure Nat
  | none => .ok default
  | some value =>
      match Text.unsignedBelow? limit (Text.trimList value.toList) with
      | some number => .ok number
      | none => .error
          (.configuration (variableStart ++ name ++ " has an invalid value: " ++ value))

/-- The origins that a variable allows. -/
def originsOf : Option String -> Origins
  | none => .localhost
  | some value =>
      if value = "*" then .any
      else if value = "localhost" then .localhost
      else .listed ((Text.splitAll ',' value.toList).map fun origin =>
        String.ofList (Text.trimList origin))

/--
The settings from a lookup of variables by their names without the common
beginning; `directory` is the user's configuration directory.
-/
def ofVariables (directory : String) (lookup : String -> Option String) :
    Except Failure Settings := do
  let given (name : String) : Option String :=
    (lookup name).filter fun value => !Text.isAllBlank value
  let tcpPort ← whole UInt16.size "PORT" 8100 (given "PORT")
  let requestTimeout ← whole UInt64.size "REQUEST_TIMEOUT_SECS" 120 (given "REQUEST_TIMEOUT_SECS")
  let idleTimeout ←
    whole UInt64.size "STREAM_IDLE_TIMEOUT_SECS" 120 (given "STREAM_IDLE_TIMEOUT_SECS")
  let aliases ← match given "MODEL_ALIASES" with
    | some text => Model.Alias.ofList text
    | none => .ok []
  let apiUrl := (given "API_URL").getD defaultApiUrl
  return {
    host := (given "HOST").getD "0.0.0.0"
    tcpPort := UInt16.ofNat tcpPort
    logLevel := ((given "LOG_LEVEL").map Text.lower).getD "info"
    tokenFile := (given "TOKEN_FILE").getD (defaultTokenFile directory)
    clientId := (given "CLIENT_ID").getD defaultClientId
    authorizeUrl := (given "OAUTH_URL").getD defaultAuthorizeUrl
    tokenUrl := (given "TOKEN_URL").getD defaultTokenUrl
    apiUrl := String.ofList (Text.dropEndWhile (· = '/') apiUrl.toList)
    requestTimeout := UInt64.ofNat requestTimeout
    idleTimeout := UInt64.ofNat idleTimeout
    aliases
    origins := originsOf (given "CORS_ORIGINS")
    apiKey := given "API_KEY" }

def messagesUrl (settings : Settings) : String :=
  settings.apiUrl ++ "/messages"

end Settings

end ChatGateway
