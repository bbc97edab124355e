import BatchExport.JobId
import BatchExport.Registry

/-! The executions in flight, each with its stop flag. -/
namespace BatchExport

abbrev RunningSet := Registry ExecutionId Bool

namespace RunningSet

/-- A new execution is in flight and nobody wants it stopped. -/
def enrol (r : RunningSet) (id : ExecutionId) : RunningSet := r.put id false

/-- An execution that is in flight already keeps its flag. -/
def ensure (r : RunningSet) (id : ExecutionId) : RunningSet := if r.contains id then r else r.enrol id

def leave (r : RunningSet) (id : ExecutionId) : RunningSet := r.erase id

def isRunning (r : RunningSet) (id : ExecutionId) : Bool := r.contains id

def stopRequested (r : RunningSet) (id : ExecutionId) : Bool := r.get? id == some true

/-- Only an execution in flight can be asked to stop. -/
def requestStop (r : RunningSet) (id : ExecutionId) : Bool × RunningSet :=
  if r.isRunning id then (true, r.put id true) else (false, r)

end RunningSet
end BatchExport
