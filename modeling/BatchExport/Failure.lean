/-! What can go wrong, as causes; the wording is in `message`. -/
namespace BatchExport

/-- Faults of a remote service. -/
inductive RemoteFault where
  | connectionFailed (detail : String)
  | invalidResponse (detail : String)
  | serverError (status : Nat) (detail : String)
  | clientError (status : Nat) (detail : String)
  | timeout (detail : String)
  deriving DecidableEq, Repr

inductive Failure where
  | configuration (detail : String)
  | remoteUnavailable (fault : RemoteFault)
  | notFound (kind key : String)
  | malformedRequest (detail : String)
  | partialFailure (record reason : String)
  | cleanup (detail : String)
  | publication (detail : String)
  | rollback (detail : String)
  | sourceAborted (detail : String)
  | step (name : String) (cause : Failure)
  | validation (detail : String)
  | serialization (detail : String)
  | storage (detail : String)
  deriving DecidableEq, Repr

namespace RemoteFault

def message : RemoteFault → String
  | connectionFailed d => s!"Failed to connect: {d}"
  | invalidResponse d => s!"Invalid response from server: {d}"
  | serverError status d => s!"Server error: {status} - {d}"
  | clientError status d => s!"Client error: {status} - {d}"
  | timeout d => s!"Request timeout: {d}"

/-- Could another attempt succeed? -/
def isTransient : RemoteFault → Bool
  | connectionFailed _ | timeout _ | serverError _ _ => true
  | invalidResponse _ | clientError _ _ => false

end RemoteFault

namespace Failure

def message : Failure → String
  | configuration d => s!"Configuration error: {d}"
  | remoteUnavailable fault => "Remote service unavailable: " ++ fault.message
  | notFound kind key => s!"{kind} not found: {key}"
  | malformedRequest d => s!"Malformed job request: {d}"
  | partialFailure record reason => s!"Record {record} failed: {reason}"
  | cleanup d => s!"Cleanup failed: {d}"
  | publication d => s!"Publication failed: {d}"
  | rollback d => s!"Rollback error: {d}"
  | sourceAborted d => s!"Source aborted: {d}"
  | step name _ => s!"Step '{name}' failed"
  | validation d => s!"Validation error: {d}"
  | serialization d => s!"Serialization error: {d}"
  | storage d => s!"I/O error: {d}"

/-- The name of the kind of failure. -/
def kind : Failure → String
  | configuration _ => "Configuration"
  | remoteUnavailable _ => "RemoteUnavailable"
  | notFound _ _ => "NotFound"
  | malformedRequest _ => "MalformedJobRequest"
  | partialFailure _ _ => "PartialFailure"
  | cleanup _ => "Cleanup"
  | publication _ => "Publication"
  | rollback _ => "Rollback"
  | sourceAborted _ => "SourceAborted"
  | step _ _ => "Step"
  | validation _ => "Validation"
  | serialization _ => "Serialization"
  | storage _ => "Io"

/-- The lookup matched nothing. -/
def isNotFound : Failure → Bool
  | notFound _ _ => true
  | _ => false

/-- Failures of one item; a step skips the item and goes on. -/
def isSkippable : Failure → Bool
  | partialFailure _ _ | notFound _ _ => true
  | _ => false

def isTransient : Failure → Bool
  | remoteUnavailable fault => fault.isTransient
  | _ => false

/-- The message of the failure and of each cause below it, outermost first. -/
def chain : Failure → List String
  | step name cause => message (step name cause) :: cause.chain
  | remoteUnavailable fault => [message (remoteUnavailable fault), fault.message]
  | other => [other.message]

end Failure
end BatchExport
