import BatchExport.Remote.Client
import BatchExport.StatusRecord

/-! Where status records go: nowhere but the log, or to a topic of a web service. -/
namespace BatchExport

def keyHeader : String := "x-message-key"

structure TopicPublisher where
  url : String
  tenant : Option String
  retry : RetryPolicy
  deriving DecidableEq, Repr

namespace TopicPublisher

/-- Endpoint and topic are joined by one slash. A blank endpoint is none. -/
def ofSettings (p : PublisherSettings) (remote : RemoteSettings) : Except Failure TopicPublisher :=
  match p.endpoint.filter fun e => !Text.isBlank e with
  | none => .error (.configuration "publisher.endpoint is not set")
  | some endpoint => .ok {
      url := trimSlashesRight endpoint ++ "/" ++ trimSlashesLeft p.topic
      tenant := remote.tenant
      retry := remote.retry }

def request (p : TopicPublisher) (id : JobId) (r : StatusRecord) : HttpRequest :=
  { method := .post, url := p.url, body := some r.toJson
    headers := (keyHeader, id.text) :: p.tenant.toList.map ((tenantHeader, ·)) }

def publish (p : TopicPublisher) (net : Network σ) (id : JobId) (r : StatusRecord) : Effect σ Unit :=
  (Retry.run p.retry net.pause do
    match (← net.request (p.request id r)).success with
    | .ok _ => return ()
    | .error fault => throw (.remoteUnavailable fault)).mapFailure fun f =>
      .publication ("POST " ++ p.url ++ " failed: " ++ f.message)

end TopicPublisher

inductive Publisher where
  | log
  | topic (p : TopicPublisher)
  deriving DecidableEq, Repr

namespace Publisher

def ofSettings (p : PublisherSettings) (remote : RemoteSettings) : Except Failure Publisher :=
  match p.kind with
  | .log => .ok .log
  | .http => (TopicPublisher.ofSettings p remote).map .topic

def publish (p : Publisher) (net : Network σ) (id : JobId) (r : StatusRecord) : Effect σ Unit :=
  match p with
  | .log => pure ()
  | .topic t => t.publish net id r

end Publisher
end BatchExport
