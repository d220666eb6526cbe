import ChatGateway.Http.Message
import ChatGateway.Settings

/-!
# Sharing across origins

Which origins may read the responses in a browser, and the headers that tell it
so.  Every response carries them, also one that refuses.
-/

namespace ChatGateway

def Origins.localHosts : List String := ["localhost", "127.0.0.1", "[::1]"]

def Origins.allows (origins : Origins) (origin : String) : Bool :=
  match origins with
  | .any => true
  | .localhost =>
      match (Http.Url.read? origin).bind Http.Url.hostText? with
      | some host => localHosts.contains host
      | none => false
  | .listed allowed => allowed.contains origin

namespace Gateway

/-- The headers that every response carries, for the origin of its request. -/
def sharingHeaders (origins : Origins) (request : Http.Request) : List (String × String) :=
  ("access-control-allow-credentials", "true") ::
    match (request.header? "origin").filter origins.allows with
    | some origin => [("access-control-allow-origin", origin)]
    | none => []

/-- The headers that tell a browser what it may send. -/
def preflightHeaders : List (String × String) := [
  ("access-control-allow-methods", "GET,POST,OPTIONS"),
  ("access-control-allow-headers", "content-type,authorization,x-api-key")]

/-- A response as it leaves: with the sharing headers, and without content if so asked. -/
def dress (origins : Origins) (request : Http.Request) (response : Http.Response) :
    Http.Response :=
  { response with
    headers := sharingHeaders origins request ++ response.headers
    content := if request.method = "HEAD" then .empty else response.content }

end Gateway

end ChatGateway
