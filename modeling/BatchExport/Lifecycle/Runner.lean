import BatchExport.Lifecycle.Task

/-! Running executions: at once, or launched and joined later. Launched runs move only while a caller waits. -/
namespace BatchExport

structure Runner (ω : Type) where
  worker : Worker ω
  listeners : List Listener
  launched : List (Task ω) := []

namespace Runner

variable {ω : Type}

def prepare (r : Runner ω) (jobName : String) (parameters : JobParameters) : Execution × Runner ω :=
  let (e, worker) := r.worker.prepare jobName parameters
  (e, { r with worker })

def newRun (r : Runner ω) (e : Execution) (job : List (JobPart ω)) : Task ω :=
  .run { listeners := r.listeners, job, execution := e }

def launch (r : Runner ω) (e : Execution) (job : List (JobPart ω)) : Runner ω :=
  { r with launched := r.launched ++ [r.newRun e job] }

/-- Let the launched runs move until all of them wait. -/
def settle (s : Surroundings ω) (fuel : Nat) (r : Runner ω) : Runner ω :=
  let (launched, worker) := Task.settle s fuel (r.launched, r.worker)
  { r with launched, worker }

/-- Wait for the end of tasks. A wait times out only if nothing else can move. -/
def await (s : Surroundings ω) : Nat → List (Task ω) → Runner ω → List (Task ω) × Runner ω
  | 0, front, r => (front, r)
  | fuel + 1, front, r =>
    let (front, worker) := Task.turn s fuel front r.worker
    let r := { r with worker }
    if front.all Task.isEnded then (front, r)
    else
      let r := r.settle s fuel
      if Task.canMove s front r.worker then await s fuel front r
      else match Task.timeOutFirst? front with
        | some front => await s fuel front r
        | none => (front, r)

def result? : Task ω → Option Execution
  | .run run => if run.isEnded then some run.execution else none
  | .rollback _ => none

def outcome? : Task ω → Option (Except Failure RollbackOutcome)
  | .run _ => none
  | .rollback call => call.result?

/-- Run an execution; no answer if it waits for ever. -/
def run (s : Surroundings ω) (fuel : Nat) (r : Runner ω) (e : Execution) (job : List (JobPart ω)) :
    Option Execution × Runner ω :=
  let (tasks, r) := r.await s fuel [r.newRun e job]
  (tasks.findSome? result?, r)

def isRunOf (id : ExecutionId) : Task ω → Bool
  | .run run => run.execution.id == id
  | .rollback _ => false

/-- Wait for a launched run, which is forgotten then. -/
def join (s : Surroundings ω) (fuel : Nat) (r : Runner ω) (id : ExecutionId) : Option Execution × Runner ω :=
  let r := r.settle s fuel
  let (joined, launched) := r.launched.partition (isRunOf id)
  (joined.findSome? result?, { r with launched })

def isLaunched (r : Runner ω) (id : ExecutionId) : Bool := r.launched.any (isRunOf id)

/-- Wait until an execution is not in flight; answers whether it came to that. -/
def waitFor (s : Surroundings ω) (fuel : Nat) (r : Runner ω) (id : ExecutionId) : Bool × Runner ω :=
  let r := if r.worker.isRunning id then r.settle s fuel else r
  (!r.worker.isRunning id, r)

def requestStop (r : Runner ω) (id : ExecutionId) : Bool × Runner ω :=
  let (accepted, worker) := r.worker.requestStop id
  (accepted, { r with worker })

/-- So many calls at the same time to roll back one job. -/
def rollBack (s : Surroundings ω) (fuel : Nat) (r : Runner ω) (job : JobId) (calls : Nat) :
    List (Option (Except Failure RollbackOutcome)) × Runner ω :=
  let (tasks, r) := r.await s fuel (List.replicate calls (.rollback { job }))
  (tasks.map outcome?, r)

/-- Do the steps of one listener for an execution. -/
def notify (s : Surroundings ω) (fuel : Nat) (r : Runner ω) (e : Execution) (hooks : List Hook) : Runner ω :=
  let only : Run ω := { listeners := [], job := [], execution := e, phase := .after hooks }
  { r with worker := (Task.advance s fuel (.run only, r.worker)).2 }

end Runner
end BatchExport
