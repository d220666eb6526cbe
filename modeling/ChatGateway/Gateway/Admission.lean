import ChatGateway.Chat.Request
import ChatGateway.Gateway.Route
import ChatGateway.Http.MediaType
import ChatGateway.Messages.OfChat
import ChatGateway.Settings

/-!
# Admission

What a request asks for, decided from the request, the settings and the model
names alone.  Whatever can be refused here is refused before anything else is
looked at: first a missing key, then a body that cannot be read, then a model
that is not known, then a request that cannot be converted.
-/

namespace ChatGateway

namespace Gateway

structure Setup where
  settings : Settings
  registry : Model.Registry
  /-- The revision of the sources and the time at which the program was built. -/
  revision : String
  buildTime : String

structure Plan where
  /-- The caller's name for the model. -/
  model : String
  includeUsage : Bool
  sent : Messages.Request

inductive Page where
  /-- A browser asks what it may send. -/
  | preflight
  | unknownPath
  | wrongMethod
  | refused (failure : Failure)
  | status
  | health
  | version
  | document
  | models

inductive Errand where
  | start
  | callback (pasted : String)
  | logout
  | chat (plan : Plan)

inductive Admission where
  | page (page : Page)
  | errand (errand : Errand)

/-! ## Keys -/

/-- The key in an authorization header. -/
def bearerKey? (request : Http.Request) : Option String :=
  (request.header? "authorization").bind (Text.after? "Bearer ")

def presentedKey (request : Http.Request) : String :=
  ((bearerKey? request).orElse fun _ => request.header? "x-api-key").getD ""

/-- The request may pass to the guarded routes. -/
def hasKey (settings : Settings) (request : Http.Request) : Bool :=
  match settings.apiKey with
  | none => true
  | some key => presentedKey request = key

/-! ## Bodies -/

def bodyLimit : Nat := 2097152

/-- The wording for a body that cannot be read. -/
def unreadable : Json.Fault -> String
  | .malformed => "Failed to parse the request body as JSON: " ++ Json.Fault.malformed.message
  | .mistyped =>
      "Failed to deserialize the JSON body into the target type: " ++ Json.Fault.mistyped.message

/-- The value of a JSON body. -/
def readBody (read : List UInt8 -> Except Json.Fault α) (request : Http.Request) :
    Except Failure α :=
  let type := (request.header? "content-type").bind Http.MediaType.read?
  if !type.any Http.MediaType.isJson then
    .error (.invalidRequest "Expected request with `Content-Type: application/json`")
  else if bodyLimit < request.body.length then
    .error (.invalidRequest "Failed to buffer the request body: length limit exceeded")
  else (read request.body).mapError fun fault => .invalidRequest (unreadable fault)

/-- The body of a callback, written `{"code": …}`. -/
def readPasted (body : List UInt8) : Except Json.Fault String :=
  Json.Reader.run
    (Json.Reader.record [.required "code" Json.Reader.text fun code _ => code] "") body

def planOf (setup : Setup) (request : Http.Request) : Except Failure Plan := do
  let asked ← readBody Chat.Request.read request
  let model ← setup.registry.resolve asked.model
  let sent ← Messages.Request.ofChat asked model
  return ⟨asked.model, asked.wantsUsage, sent⟩

/-! ## Admission -/

def Admission.refused (failure : Failure) : Admission :=
  .page (.refused failure)

/-- What a request of a route with its method asks for. -/
def assessRoute (setup : Setup) (request : Http.Request) : Route -> Admission
  | .authStatus => .page .status
  | .authStart => .errand .start
  | .authCallback =>
      match readBody readPasted request with
      | .ok pasted => .errand (.callback pasted)
      | .error failure => .refused failure
  | .authLogout => .errand .logout
  | .health => .page .health
  | .version => .page .version
  | .document => .page .document
  | .models => .page .models
  | .chatCompletions =>
      match planOf setup request with
      | .ok plan => .errand (.chat plan)
      | .error failure => .refused failure
  | .embeddings =>
      .refused (.unsupported "embeddings are not available for subscription models")
  | .imageGenerations =>
      .refused (.unsupported "image generation is not available for subscription models")

def assess (setup : Setup) (request : Http.Request) : Admission :=
  if request.method = "OPTIONS" then .page .preflight
  else
    match routeOf request with
    | none => .page .unknownPath
    | some route =>
        if route.isGuarded && !hasKey setup.settings request then .refused .invalidKey
        else if !route.allows request.method then .page .wrongMethod
        else assessRoute setup request route

end Gateway

end ChatGateway
