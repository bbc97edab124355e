import BatchExport.Config.Settings
import BatchExport.Json.Parser
import BatchExport.Remote.Network
import BatchExport.Remote.Retry

/-! JSON documents below one base URL. -/
namespace BatchExport

def tenantHeader : String := "x-okapi-tenant"

def tokenHeader : String := "x-okapi-token"

/-- A text without the slashes at its end. -/
def trimSlashesRight (s : String) : String :=
  String.ofList (s.toList.reverse.dropWhile (· == '/')).reverse

/-- A text without the slashes at its start. -/
def trimSlashesLeft (s : String) : String := String.ofList (s.toList.dropWhile (· == '/'))

structure RemoteClient where
  /-- Without slashes at its end. -/
  baseUrl : String
  tenant : Option String
  token : Option String
  retry : RetryPolicy
  deriving DecidableEq, Repr

namespace RemoteClient

def ofSettings (s : RemoteSettings) : RemoteClient :=
  { baseUrl := trimSlashesRight s.baseUrl, tenant := s.tenant, token := s.token, retry := s.retry }

def url (c : RemoteClient) (path : String) : String := c.baseUrl ++ "/" ++ trimSlashesLeft path

def headers (c : RemoteClient) : List (String × String) :=
  c.tenant.toList.map ((tenantHeader, ·)) ++ c.token.toList.map ((tokenHeader, ·))

def request (c : RemoteClient) (path : String) (query : List (String × String)) : HttpRequest :=
  { method := .get, url := c.url path, query, headers := c.headers }

/-- The document of an answer; nothing if the service does not know the path. -/
def document : HttpReply → Except RemoteFault (Option Json)
  | .answered 404 _ => .ok none
  | reply => do
    match Json.parse? (← reply.success) with
    | some j => return some j
    | none => throw (.invalidResponse "error decoding response body")

/-- Get a document, with the attempts of the retry policy. -/
def getJson (c : RemoteClient) (net : Network σ) (path : String) (query : List (String × String)) :
    Effect σ (Option Json) :=
  Retry.run c.retry net.pause do
    match document (← net.request (c.request path query)) with
    | .ok j => return j
    | .error fault => throw (.remoteUnavailable fault)

end RemoteClient
end BatchExport
