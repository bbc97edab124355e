import BatchExport.JobId
import BatchExport.Registry

/-! Which execution runs a job. Each operation is one atomic step. -/
namespace BatchExport

abbrev Bindings := Registry JobId ExecutionId

namespace Bindings

/-- The last registration counts. Answers the execution that it displaced. -/
def register (b : Bindings) (job : JobId) (id : ExecutionId) : Option ExecutionId × Bindings :=
  (b.get? job, b.put job id)

def forget (b : Bindings) (job : JobId) : Bindings := b.erase job

/-- Forget a job unless another execution runs it by now. -/
def forgetExecution (b : Bindings) (job : JobId) (id : ExecutionId) : Bool × Bindings :=
  if b.get? job = some id then (true, b.erase job) else (false, b)

/-- Of several takers only the first gets the execution. -/
def take (b : Bindings) (job : JobId) : Option ExecutionId × Bindings :=
  match b.get? job with
  | some id => (some id, b.erase job)
  | none => (none, b)

/-- Put back what was taken, unless the job is bound again. -/
def reinstate (b : Bindings) (job : JobId) (id : ExecutionId) : Bool × Bindings :=
  if b.contains job then (false, b) else (true, b.put job id)

end Bindings
end BatchExport
