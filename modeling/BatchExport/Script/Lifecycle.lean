import BatchExport.Lifecycle.Run
import BatchExport.Lifecycle.RollbackCall

/-! Surroundings of a worker whose behaviour is known in advance, and a log of what the worker did to them. -/
namespace BatchExport

inductive WorkerEvent where
  | observed (moment : Moment) (name : String) (id : ExecutionId) (status : BatchStatus)
  | looked (id : ExecutionId) (running stop : Bool) (status : BatchStatus) (exitCode : String)
  | published (job : JobId) (record : StatusRecord)
  | acknowledged (a : Acknowledgement)
  | dropped (a : Acknowledgement)
  | stopAsked (id : ExecutionId)
  | waited (id : ExecutionId)
  | restoring (job : JobId) (snapshot : String)
  deriving DecidableEq, Repr

/-- The end of a restore, and what others do to the job in the meantime. -/
structure ScriptedRestore where
  /-- Where the data is now, if not at the usual place. -/
  result : Except Failure (Option String) := .ok none
  bind : Option ExecutionId := none
  snapshot : Option String := none
  release : Bool := false

/-- What becomes of published records. -/
inductive Delivery where
  | kept
  | ignored
  | refused
  deriving DecidableEq, Repr

structure LifecycleScript where
  delivery : Delivery := .kept
  restores : List ScriptedRestore := []
  events : List WorkerEvent := []
  received : List (JobId × BatchStatus) := []
  /-- Restores of which the others have not yet taken advantage. -/
  meanwhile : List (JobId × ScriptedRestore) := []

namespace LifecycleScript

def log (s : LifecycleScript) (event : WorkerEvent) : LifecycleScript := { s with events := s.events ++ [event] }

def publish (job : JobId) (record : StatusRecord) : Effect LifecycleScript Unit :=
  .ofStep fun s =>
    let s := s.log (.published job record)
    match s.delivery with
    | .kept => (.ok (), { s with received := s.received ++ [(job, record.status)] })
    | .ignored => (.ok (), s)
    | .refused => (.error (.publication "refused"), s)

/-- Nobody listens any more, and what was delivered is lost. -/
def closeReceiver (s : LifecycleScript) : LifecycleScript :=
  { s with delivery := if s.delivery = .kept then .refused else s.delivery, received := [] }

def observe (moment : Moment) (name : String) (e : Execution) (s : LifecycleScript) : LifecycleScript :=
  s.log (.observed moment name e.id e.status)

/-- An operator with given answers: to a stop, and to a wait, where nothing means that it never ends. -/
def operator (stop : ExecutionId → Except Failure Bool) (wait : ExecutionId → Option (Except Failure Unit)) :
    JobOperator LifecycleScript where
  stop id := .ofStep fun (running, s) => (stop id, running, s.log (.stopAsked id))
  await id := .ofStep fun s => ((wait id).getD (.ok ()), s.log (.waited id))
  isOver id _ := (wait id).isSome

/-- An operator that does not wait at all. -/
def hastyOperator : JobOperator LifecycleScript :=
  { operator (fun _ => .ok true) (fun _ => some (.ok ())) with await := fun _ => pure () }

def usualPlace (snapshot : String) : String := "/restore/" ++ snapshot

def restorer : SnapshotRestorer LifecycleScript where
  start job snapshot s := s.log (.restoring job snapshot)
  finish job snapshot := .ofStep fun (files, s) =>
    let restore := s.restores.headD {}
    let s := { s with restores := s.restores.drop 1, meanwhile := s.meanwhile ++ [(job, restore)] }
    (restore.result.map (·.getD (usualPlace snapshot)), files, s)

def interfere (w : Worker LifecycleScript) (job : JobId) (r : ScriptedRestore) : Worker LifecycleScript :=
  let w := r.bind.elim w fun id => w.bind id job
  let w := r.snapshot.elim w fun snapshot => w.recordSnapshot job snapshot
  if r.release then w.release job else w

def others (w : Worker LifecycleScript) : Worker LifecycleScript :=
  let w' := w.outside.meanwhile.foldl (fun w (job, r) => interfere w job r) w
  { w' with outside := { w'.outside with meanwhile := [] } }

def look : JobPart LifecycleScript where
  act := .ofChange fun (e, w) =>
    let event := .looked e.id (w.isRunning e.id) (w.stopRequested e.id) e.status e.exit.code
    ((), e, { w with outside := w.outside.log event })

end LifecycleScript
end BatchExport
