import ChatGateway.Credential.Record
import ChatGateway.Http.Exchange
import ChatGateway.Text.Split

/-!
# Replies of the token endpoint

An exchange with the token endpoint, as the operations on the credential see it.
Only an answer that blames the request is a rejection: every other failure
leaves open whether a later request succeeds.
-/

namespace ChatGateway

namespace Credential

inductive TokenReply where
  | granted (grant : Grant)
  | rejected (status : Nat) (body : String)
  | failed (failure : Failure)
  deriving DecidableEq, Repr

namespace TokenReply

def unreadable (status : Nat) (reason : String) : Failure :=
  .provider status "invalid_token_response" reason

def ofExchange : Http.Exchange -> TokenReply
  | .failed reason => .failed (.unreachable reason)
  | .silent => .failed .timedOut
  | .answered status body =>
      if Http.isSuccess status then
        match body with
        | .whole bytes =>
            match Grant.read bytes with
            | .ok grant => .granted grant
            | .error fault => .failed (unreadable status fault.message)
        | .broken _ reason => .failed (unreadable status reason)
        | .stalled _ => .failed (unreadable status "the body does not end")
      else if Http.isClientError status then .rejected status body.text
      else .failed (Failure.ofAnswer status body.text)

def excerpt (body : String) : String :=
  Text.firstChars 256 body

def rejection (status : Nat) (body : String) : String :=
  "token endpoint returned " ++ toString status ++ ": " ++ excerpt body

end TokenReply

end Credential

end ChatGateway
