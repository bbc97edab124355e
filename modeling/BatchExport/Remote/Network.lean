import BatchExport.Effect
import BatchExport.Json.Printer

/-! Requests to a web service and what comes back. -/
namespace BatchExport

inductive HttpMethod where
  | get
  | post
  deriving DecidableEq, Repr

structure HttpRequest where
  method : HttpMethod
  url : String
  /-- Parameters that are added to the URL, in this order. -/
  query : List (String × String) := []
  headers : List (String × String) := []
  body : Option Json := none
  deriving Repr

inductive HttpReply where
  | answered (status : Nat) (body : String)
  | unreachable (detail : String)
  | timedOut (detail : String)
  deriving DecidableEq, Repr

/-- The way to a service: requests, and pauses of so many milliseconds. -/
structure Network (σ : Type) where
  send : HttpRequest → σ → HttpReply × σ
  pause : Nat → σ → σ

/-- Without a way, no request arrives. -/
def Network.unreachable (σ : Type) : Network σ where
  send r s := (.unreachable ("error sending request for url (" ++ r.url ++ ")"), s)
  pause _ s := s

namespace HttpReply

def isSuccess (status : Nat) : Bool := 200 ≤ status && status < 300

/-- The body of a success; any other answer is a fault of the service or of the request. -/
def success : HttpReply → Except RemoteFault String
  | answered status body =>
    if isSuccess status then .ok body
    else if status ≥ 500 then .error (.serverError status body)
    else .error (.clientError status body)
  | unreachable detail => .error (.connectionFailed detail)
  | timedOut detail => .error (.timeout detail)

end HttpReply

def Network.request (net : Network σ) (r : HttpRequest) : Effect σ HttpReply := .ofChange (net.send r)

end BatchExport
