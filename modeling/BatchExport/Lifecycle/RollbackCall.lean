import BatchExport.Lifecycle.Surroundings

/-! A request to stop a job and to restore its snapshot, as a machine of atomic steps over the shared state. -/
namespace BatchExport

inductive RollbackOutcome where
  | nothing
  | rolledBack (id : ExecutionId) (message : String)
  deriving DecidableEq, Repr

def RollbackOutcome.message : RollbackOutcome → String
  | nothing => "nothing to roll back"
  | rolledBack _ message => message

/-- A restore in progress: of which execution, whether it had to be stopped, and from what. -/
structure Restore where
  id : ExecutionId
  stopped : Bool
  snapshot : String
  deriving DecidableEq, Repr

/-- What is left to do. From `stopping` on the call holds the binding of the job. -/
inductive RollbackPhase where
  | taking
  | stopping (id : ExecutionId)
  | awaiting (id : ExecutionId)
  | waiting (id : ExecutionId)
  | choosing (id : ExecutionId) (stopped : Bool)
  | handing (r : Restore)
  | underway (r : Restore)
  | forgetting (r : Restore) (restored : String)
  | reinstating (id : ExecutionId) (failure : Failure)
  | ended (result : Except Failure RollbackOutcome)
  deriving Repr

structure RollbackCall where
  job : JobId
  phase : RollbackPhase := .taking
  deriving Repr

namespace RollbackCall

variable {ω : Type}

def noSnapshot (job : JobId) : Failure := .rollback ("No snapshot recorded for job " ++ job.text)

def restoreFailed (snapshot : String) (f : Failure) : Failure :=
  .rollback ("Restoring " ++ snapshot ++ " failed: " ++ f.message)

def report (job : JobId) (r : Restore) (restored : String) : String :=
  let what := if r.stopped then " was stopped and " else " had already finished; "
  "Execution " ++ toString r.id ++ " of job " ++ job.text ++ what ++ r.snapshot ++ " restored to " ++ restored

/-- One atomic step. Every failure leads to `reinstating`. -/
def step? (s : Surroundings ω) (c : RollbackCall) (w : Worker ω) : Option (RollbackCall × Worker ω) :=
  match c.phase with
  | .taking =>
    match w.bindings.take c.job with
    | (some id, bindings) => some ({ c with phase := .stopping id }, { w with bindings })
    | (none, _) => some ({ c with phase := .ended (.ok .nothing) }, w)
  | .stopping id =>
    ((s.operator.stop id).run (w.running, w.outside)).map fun (result, running, outside) =>
      let phase := match result with
        | .ok true => RollbackPhase.awaiting id
        | .ok false => .choosing id false
        | .error f => .reinstating id f
      ({ c with phase }, { w with running, outside })
  | .awaiting id =>
    ((s.operator.await id).run w.outside).map fun (result, outside) =>
      let phase := match result with
        | .ok () => RollbackPhase.waiting id
        | .error f => .reinstating id f
      ({ c with phase }, { w with outside })
  | .waiting id =>
    if s.operator.isOver id (w.running, w.outside) then some ({ c with phase := .choosing id true }, w) else none
  | .choosing id stopped =>
    match w.snapshots.get? c.job with
    | some snapshot => some ({ c with phase := .handing ⟨id, stopped, snapshot⟩ }, w)
    | none => some ({ c with phase := .reinstating id (noSnapshot c.job) }, w)
  | .handing r =>
    some ({ c with phase := .underway r }, { w with outside := s.restorer.start c.job r.snapshot w.outside })
  | .underway r =>
    ((s.restorer.finish c.job r.snapshot).run (w.files, w.outside)).map fun (result, files, outside) =>
      let phase := match result with
        | .ok restored => RollbackPhase.forgetting r restored
        | .error f => .reinstating r.id (restoreFailed r.snapshot f)
      ({ c with phase }, { w with files, outside })
  | .forgetting r restored =>
    let snapshots := if w.snapshots.get? c.job = some r.snapshot then w.snapshots.erase c.job else w.snapshots
    some ({ c with phase := .ended (.ok (.rolledBack r.id (report c.job r restored))) }, { w with snapshots })
  | .reinstating id f =>
    some ({ c with phase := .ended (.error f) }, { w with bindings := (w.bindings.reinstate c.job id).2 })
  | .ended _ => none

/-- Give up waiting; the snapshot is restored nevertheless. -/
def timeOut? (c : RollbackCall) : Option RollbackCall :=
  match c.phase with
  | .waiting id => some { c with phase := .choosing id true }
  | _ => none

def result? (c : RollbackCall) : Option (Except Failure RollbackOutcome) :=
  match c.phase with
  | .ended result => some result
  | _ => none

end RollbackCall
end BatchExport
