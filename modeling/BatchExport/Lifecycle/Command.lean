import BatchExport.Lifecycle.Worker

/-! The atomic operations on the shared state that callers of any kind may do at any time. -/
namespace BatchExport

inductive WorkerCommand where
  | register (job : JobId) (id : ExecutionId)
  | lookUp (job : JobId)
  | forget (job : JobId)
  | forgetExecution (job : JobId) (id : ExecutionId)
  | take (job : JobId)
  | reinstate (job : JobId) (id : ExecutionId)
  | park (job : JobId) (a : Acknowledgement)
  | isParked (job : JobId)
  | unpark (job : JobId)
  | recordSnapshot (job : JobId) (snapshot : String)
  | snapshot (job : JobId)
  | release (job : JobId)
  | requestStop (id : ExecutionId)
  | isRunning (id : ExecutionId)
  deriving DecidableEq, Repr

inductive Reply where
  | done
  | flag (b : Bool)
  | execution (id : Option ExecutionId)
  | snapshot (path : Option String)
  | acknowledgement (a : Option Acknowledgement)
  deriving DecidableEq, Repr

namespace Worker

variable {ω : Type}

/-- Put changed bindings back. -/
def withBindings (w : Worker ω) (reply : α → Reply) (result : α × Bindings) : Reply × Worker ω :=
  (reply result.1, { w with bindings := result.2 })

def perform (w : Worker ω) : WorkerCommand → Reply × Worker ω
  | .register job id => w.withBindings .execution (w.bindings.register job id)
  | .lookUp job => (.execution (w.bindings.get? job), w)
  | .forget job => (.done, { w with bindings := w.bindings.forget job })
  | .forgetExecution job id => w.withBindings .flag (w.bindings.forgetExecution job id)
  | .take job => w.withBindings .execution (w.bindings.take job)
  | .reinstate job id => w.withBindings .flag (w.bindings.reinstate job id)
  | .park job a =>
    let (old, w) := w.park job a
    (.acknowledgement old, w)
  | .isParked job => (.flag (w.parked.contains job), w)
  | .unpark job =>
    let (found, w) := w.unpark job
    (.acknowledgement found, w)
  | .recordSnapshot job snapshot => (.done, w.recordSnapshot job snapshot)
  | .snapshot job => (.snapshot (w.snapshots.get? job), w)
  | .release job => (.done, w.release job)
  | .requestStop id =>
    let (accepted, w) := w.requestStop id
    (.flag accepted, w)
  | .isRunning id => (.flag (w.isRunning id), w)

end Worker
end BatchExport
