import BatchExport.Lifecycle.Listener

/-! The run of one execution as a machine of atomic steps over the shared state. -/
namespace BatchExport

/-- A part of a job. It runs in one piece, once it is ready. -/
structure JobPart (ω : Type) where
  ready : Execution → Worker ω → Bool := fun _ _ => true
  act : Effect (Execution × Worker ω) Unit

namespace JobPart

variable {ω : Type}

def ofChange (f : Execution → Worker ω → Execution × Worker ω) : JobPart ω where
  act := .ofChange fun (e, w) => ((), f e w)

/-- Ask for a stop of the own execution. -/
def stopSelf : JobPart ω := .ofChange fun e w => (e, (w.requestStop e.id).2)

/-- Ready once a stop is asked for. -/
def waitForStop : JobPart ω where
  ready e w := w.stopRequested e.id
  act := pure ()

end JobPart

/-- What is left to do. -/
inductive RunPhase (ω : Type) where
  | starting
  | before (hooks : List Hook)
  | deciding
  | working (parts : List (JobPart ω))
  | concluding (result : Except Failure Unit)
  | leaving
  | after (hooks : List Hook)
  | ended

structure Run (ω : Type) where
  listeners : List Listener
  job : List (JobPart ω)
  execution : Execution
  phase : RunPhase ω := .starting

namespace Run

variable {ω : Type}

/-- Do the next part of the job; one that is not ready, or that does not end, blocks the run. -/
def work (r : Run ω) (w : Worker ω) : List (JobPart ω) → Option (Run ω × Worker ω)
  | [] => some ({ r with phase := .concluding (.ok ()) }, w)
  | part :: rest =>
    if !part.ready r.execution w then none
    else (part.act.run (r.execution, w)).map fun
      | (.ok (), execution, w) => ({ r with execution, phase := .working rest }, w)
      | (.error f, execution, w) => ({ r with execution, phase := .concluding (.error f) }, w)

/-- One atomic step. The stop flag is read twice: before the job, which a stop leaves out, and after it. -/
def step? (s : Surroundings ω) (r : Run ω) (w : Worker ω) : Option (Run ω × Worker ω) :=
  let id := r.execution.id
  match r.phase with
  | .starting =>
    some ({ r with execution := r.execution.markStarted w.now, phase := .before (r.listeners.flatMap Listener.before) },
      { w with running := w.running.ensure id })
  | .before (hook :: rest) =>
    let (more, w) := hook.act s r.execution w
    some ({ r with phase := .before (more ++ rest) }, w)
  | .before [] => some ({ r with phase := .deciding }, w)
  | .deciding =>
    some ({ r with phase := if w.stopRequested id then .concluding (.ok ()) else .working r.job }, w)
  | .working parts => r.work w parts
  | .concluding result =>
    some ({ r with execution := r.execution.conclude result (w.stopRequested id) w.now, phase := .leaving }, w)
  | .leaving =>
    some ({ r with phase := .after (r.listeners.flatMap Listener.after) }, { w with running := w.running.leave id })
  | .after (hook :: rest) =>
    let (more, w) := hook.act s r.execution w
    some ({ r with phase := .after (more ++ rest) }, w)
  | .after [] => some ({ r with phase := .ended }, w)
  | .ended => none

def isEnded (r : Run ω) : Bool :=
  match r.phase with
  | .ended => true
  | _ => false

/-- Go on until nothing can be done or until it is time to leave. -/
def goOn (s : Surroundings ω) (isTimeToLeave : Worker ω → Bool) : Nat → Run ω → Worker ω → Run ω × Worker ω
  | 0, r, w => (r, w)
  | fuel + 1, r, w =>
    if isTimeToLeave w then (r, w)
    else match r.step? s w with
      | none => (r, w)
      | some (r, w) => goOn s isTimeToLeave fuel r (s.others w)

end Run
end BatchExport
