import ChatGateway.Http.Message

/-!
# Routes

The paths that the gateway answers, each with one method.  The routes of the
chat API are guarded: a caller has to present the key, if there is one.
-/

namespace ChatGateway

namespace Gateway

inductive Route where
  | authStatus
  | authStart
  | authCallback
  | authLogout
  | health
  | version
  | document
  | models
  | chatCompletions
  | embeddings
  | imageGenerations
  deriving DecidableEq, Repr

namespace Route

def ofPath : String -> Option Route
  | "/auth/status" => some .authStatus
  | "/auth/start" => some .authStart
  | "/auth/callback" => some .authCallback
  | "/auth/logout" => some .authLogout
  | "/health" | "/v1/health" => some .health
  | "/version" => some .version
  | "/api-docs/openapi.json" => some .document
  | "/v1/models" => some .models
  | "/v1/chat/completions" => some .chatCompletions
  | "/v1/embeddings" => some .embeddings
  | "/v1/images/generations" => some .imageGenerations
  | _ => none

/-- The route posts something; any other route gets something. -/
def isPost : Route -> Bool
  | .authCallback | .authLogout | .chatCompletions | .embeddings | .imageGenerations => true
  | _ => false

/-- The method is the route's; what can be got can also be asked about. -/
def allows (route : Route) (method : String) : Bool :=
  if route.isPost then method = "POST" else method = "GET" || method = "HEAD"

def isGuarded : Route -> Bool
  | .models | .chatCompletions | .embeddings | .imageGenerations => true
  | _ => false

end Route

/-- A path without slashes at its end and with one at its front, if it has any too many. -/
def normalPath (path : List Char) : List Char :=
  if path.getLast? = some '/' || path.take 2 = ['/', '/'] then
    '/' :: Text.dropEndWhile (· = '/') (path.dropWhile (· = '/'))
  else path

def routeOf (request : Http.Request) : Option Route :=
  Route.ofPath (String.ofList (normalPath request.path))

end Gateway

end ChatGateway
