import BatchExport.Proofs.Job.Erasure

/-! A log of what a step pulls and of what becomes of it. Main statements: keeping the log changes nothing else, and
the counters and the writer of a step that succeeds agree with the log. -/
namespace BatchExport

variable {σ ι ο : Type}

structure FlowLog (ι ο : Type) where
  delivered : List ι := []
  processed : List (ι × Except Failure (Option ο)) := []

namespace FlowLog

def deliver (log : FlowLog ι ο) : Except Failure (Option ι) → FlowLog ι ο
  | .ok (some item) => { log with delivered := log.delivered ++ [item] }
  | _ => log

def process (log : FlowLog ι ο) (item : ι) (outcome : Except Failure (Option ο)) : FlowLog ι ο :=
  { log with processed := log.processed ++ [(item, outcome)] }

def output? : Except Failure (Option ο) → Option ο
  | .ok output? => output?
  | .error _ => none

def failure? : Except Failure (Option ο) → Option Failure
  | .ok _ => none
  | .error f => some f

def isNothing : Except Failure (Option ο) → Bool
  | .ok output? => output?.isNone
  | .error _ => false

/-- What came out, in the order of the items. -/
def outputs (log : FlowLog ι ο) : List ο := log.processed.filterMap fun p => output? p.2

/-- What went wrong, in the order of the items. -/
def failures (log : FlowLog ι ο) : List Failure := log.processed.filterMap fun p => failure? p.2

/-- How many items came to nothing. -/
def filtered (log : FlowLog ι ο) : Nat := log.processed.countP fun p => isNothing p.2

end FlowLog

namespace ItemFlow

/-- The flow with a log beside its state. -/
def logged (flow : ItemFlow σ ι ο) : ItemFlow (FlowLog ι ο × σ) ι ο where
  stopRequested x := flow.stopRequested x.2
  next := .ofRun fun (log, s) => (flow.next.run s).map fun (answer, s) => (answer, log.deliver answer, s)
  process item := .ofRun fun (log, s) =>
    ((flow.process item).run s).map fun (outcome, s) => (outcome, log.process item outcome, s)
  write items := (flow.write items).onPart (·.2) fun s x => (x.1, s)
  writeSkipped f := (flow.writeSkipped f).onPart (·.2) fun s x => (x.1, s)
  close := flow.close.onPart (·.2) fun s x => (x.1, s)

theorem logged_erases (flow : ItemFlow σ ι ο) : flow.logged.Erases Prod.snd flow where
  stopRequested _ := rfl
  next := flow.next.noting_erases fun answer log => FlowLog.deliver log answer
  process item := (flow.process item).noting_erases fun outcome log => FlowLog.process log item outcome
  write items := (flow.write items).noting_erases fun _ log => log
  writeSkipped f := (flow.writeSkipped f).noting_erases fun _ log => log
  close := flow.close.noting_erases fun _ log => log

end ItemFlow

namespace ChunkStep

variable (s : ChunkStep σ ι ο)

def logged : ChunkStep (FlowLog ι ο × σ) ι ο := { s with flow := s.flow.logged }

/-- Keeping the log changes nothing else. -/
theorem body_logged (fuel : Nat) (run : StepRun) (log : FlowLog ι ο) (x : σ) :
    ((s.logged.body fuel).run (run, log, x)).map (fun (r, run, _, x) => (r, run, x)) = (s.body fuel).run (run, x) :=
  erases_body s.flow.logged_erases fuel (run, log, x)

end ChunkStep
end BatchExport
