import BatchExport.Paging.Page
import BatchExport.Remote.Client
import BatchExport.Text.Blank

/-! Pages of a collection behind a web service. -/
namespace BatchExport

structure RemoteCollection where
  client : RemoteClient
  path : String
  recordsField : String := "records"
  nextField : String := "next"
  query : Option String := none
  params : Entries String := []
  deriving DecidableEq, Repr

namespace RemoteCollection

/-- A blank query is none. -/
def ofSource (client : RemoteClient) (s : SourceSettings) : RemoteCollection :=
  { client, path := s.path, recordsField := s.recordsField, nextField := s.nextField
    query := s.query.filter fun q => !Text.isBlank q, params := s.params }

def addParam (c : RemoteCollection) (key value : String) : RemoteCollection :=
  { c with params := Entries.put key value c.params }

/-- The extra parameters, then the size and place of the page, then the query. -/
def queryParams (c : RemoteCollection) (r : PageRequest) : List (String × String) :=
  let start := r.rangeStart.toList.map (("fromDate", ·))
  let place := match r.position with
    | .offset n => ("offset", toString n) :: start ++ r.rangeEnd.toList.map (("toDate", ·))
    | .cursor marker => start ++ [("toDate", marker)]
  c.params ++ [("limit", toString r.limit)] ++ place ++ c.query.toList.map (("query", ·))

/-- A marker is a non-empty text or a number. -/
def marker? : Json → Option String
  | .string s => if s.isEmpty then none else some s
  | .number n => some (String.ofList (Json.numberText n))
  | _ => none

/-- A missing or null list of records is empty. -/
def page (c : RemoteCollection) (body : Json) : Except RemoteFault (Page Json) :=
  let badField (other : Json) : RemoteFault :=
    .invalidResponse ("Field '" ++ c.recordsField ++ "' of " ++ c.path ++ " is not an array: " ++ other.render)
  match body with
  | .object members =>
    let withoutRecords := members.filter fun (k, _) => k ≠ c.recordsField
    let next := withoutRecords.lookup c.nextField >>= marker?
    match members.lookup c.recordsField with
    | none | some .null => .ok ⟨[], next⟩
    | some (.array records) => .ok ⟨records, next⟩
    | some other => .error (badField other)
  | _ => .error (.invalidResponse ("Expected a JSON object from " ++ c.path))

def fetch (c : RemoteCollection) (net : Network σ) : Fetch σ Json := fun r => do
  match ← c.client.getJson net c.path (c.queryParams r) with
  | none => throw (.notFound "Collection" c.path)
  | some body =>
    match c.page body with
    | .ok page => return page
    | .error fault => throw (.remoteUnavailable fault)

end RemoteCollection
end BatchExport
