import BatchExport.Reference.Cache
import BatchExport.Remote.Client

/-! Reference entities behind a web service. -/
namespace BatchExport.RemoteReferences

/-- Entities that one query answers at most. -/
def queryLimit : Nat := 1000

def idPath (kind : ReferenceKind) (id : String) : String := kind.path ++ "/" ++ id

def queryParams (query : String) : List (String × String) :=
  [("query", query), ("limit", toString queryLimit)]

/-- A missing or null list of entities is empty. -/
def entities (kind : ReferenceKind) (body : Json) : Except RemoteFault (List Json) :=
  match body.get? kind.collectionField with
  | none | some .null => .ok []
  | some (.array found) => .ok found
  | some other => .error (.invalidResponse
      ("Field '" ++ kind.collectionField ++ "' is not an array: " ++ other.render))

def byId (client : RemoteClient) (net : Network σ) (kind : ReferenceKind) (id : String) : Effect σ Json := do
  match ← client.getJson net (idPath kind id) [] with
  | some entity => return entity
  | none => throw (.notFound kind.label id)

def byQuery (client : RemoteClient) (net : Network σ) (kind : ReferenceKind) (query : String) :
    Effect σ (List Json) := do
  match ← client.getJson net kind.path (queryParams query) with
  | none => throw (.remoteUnavailable (.clientError 404 ("Collection " ++ kind.path ++ " not found")))
  | some body =>
    match entities kind body with
    | .ok found => return found
    | .error fault => throw (.remoteUnavailable fault)

def lookup (client : RemoteClient) (net : Network σ) : ReferenceLookup σ where
  byId := byId client net
  byQuery := byQuery client net

end BatchExport.RemoteReferences
