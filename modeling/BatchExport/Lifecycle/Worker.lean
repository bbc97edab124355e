import BatchExport.Execution
import BatchExport.Files.Tree
import BatchExport.Lifecycle.Bindings
import BatchExport.Lifecycle.RunningSet
import BatchExport.Reference.Cache

/-! What the executions of one process share. -/
namespace BatchExport

/-- Confirms the message that asked for a job. -/
structure Acknowledgement where
  tag : String
  deriving DecidableEq, Repr

structure Worker (ω : Type) where
  nextId : ExecutionId := 1
  running : RunningSet := .empty
  bindings : Bindings := .empty
  snapshots : Registry JobId String := .empty
  /-- Acknowledgements of the jobs that have not ended. -/
  parked : Registry JobId Acknowledgement := .empty
  cache : ReferenceCache
  files : FileTree
  /-- The time that the clock shows. -/
  now : Instant
  /-- Everything outside of the process. -/
  outside : ω

namespace Worker

variable {ω : Type}

def onOutside (e : Effect ω α) : Effect (Worker ω) α := e.onPart (·.outside) fun outside w => { w with outside }

def onFiles (e : Effect FileTree α) : Effect (Worker ω) α := e.onPart (·.files) fun files w => { w with files }

/-- A new execution; from now on it can be stopped. -/
def prepare (w : Worker ω) (jobName : String) (parameters : JobParameters) : Execution × Worker ω :=
  (.new w.nextId jobName parameters w.now,
    { w with nextId := w.nextId + 1, running := w.running.enrol w.nextId })

def requestStop (w : Worker ω) (id : ExecutionId) : Bool × Worker ω :=
  let (accepted, running) := w.running.requestStop id
  (accepted, { w with running })

def stopRequested (w : Worker ω) (id : ExecutionId) : Bool := w.running.stopRequested id

def isRunning (w : Worker ω) (id : ExecutionId) : Bool := w.running.isRunning id

def recordSnapshot (w : Worker ω) (job : JobId) (snapshot : String) : Worker ω :=
  { w with snapshots := w.snapshots.put job snapshot }

def bind (w : Worker ω) (id : ExecutionId) (job : JobId) : Worker ω :=
  { w with bindings := (w.bindings.register job id).2 }

/-- A job that needs no rollback any more. -/
def release (w : Worker ω) (job : JobId) : Worker ω :=
  { w with bindings := w.bindings.forget job, snapshots := w.snapshots.erase job }

/-- Answers the acknowledgement that was parked before; nobody will use that one. -/
def park (w : Worker ω) (job : JobId) (a : Acknowledgement) : Option Acknowledgement × Worker ω :=
  (w.parked.get? job, { w with parked := w.parked.put job a })

def unpark (w : Worker ω) (job : JobId) : Option Acknowledgement × Worker ω :=
  (w.parked.get? job, { w with parked := w.parked.erase job })

end Worker
end BatchExport
