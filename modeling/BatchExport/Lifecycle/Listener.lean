import BatchExport.Completion
import BatchExport.Files.Cleanup
import BatchExport.Lifecycle.Surroundings

/-! What happens around every execution, as a list of atomic steps. -/
namespace BatchExport

inductive Hook where
  | observe (moment : Moment) (name : String)
  | publish (described : List DescribedStep)
  | acknowledge
  | cleanUp
  | forgetBinding
  | forgetSnapshot
  deriving DecidableEq, Repr

inductive Listener where
  | observer (name : String)
  /-- Publishes the status, confirms the message that asked for the job and deletes its staged files. -/
  | notifier (described : List DescribedStep)
  /-- Forgets how to roll back a job that has completed. -/
  | rollback
  deriving DecidableEq, Repr

namespace Listener

def before : Listener → List Hook
  | observer name => [.observe .before name]
  | notifier described => [.publish described]
  | rollback => []

def after : Listener → List Hook
  | observer name => [.observe .after name]
  | notifier described => [.acknowledge, .cleanUp, .publish described]
  | rollback => [.forgetBinding]

end Listener

namespace Hook

variable {ω : Type}

def acknowledgeJob (s : Surroundings ω) (job : JobId) (w : Worker ω) : Worker ω :=
  match w.unpark job with
  | (some a, w) => { w with outside := s.acknowledge a w.outside }
  | (none, w) => w

def cleanUpFiles (e : Execution) (w : Worker ω) : Worker ω :=
  match e.parameters.nonBlank? Key.tempOutputPath with
  | some path => { w with files := (Cleanup.run path).aftermath w.files }
  | none => w

/-- Do a step for an execution. Answers the steps that it makes necessary. Without a job id there is nothing to
do but to observe. -/
def act (s : Surroundings ω) (e : Execution) (w : Worker ω) : Hook → List Hook × Worker ω
  | observe moment name => ([], { w with outside := s.observe moment name e w.outside })
  | publish described =>
    match e.jobId? with
    | none => ([], w)
    | some job =>
      ([], { w with outside := (s.publish job (.ofExecution described job e)).aftermath w.outside })
  | acknowledge =>
    match e.jobId? with
    | none => ([], w)
    | some job => ([], acknowledgeJob s job w)
  | cleanUp =>
    match e.jobId? with
    | none => ([], w)
    | some _ => ([], cleanUpFiles e w)
  | forgetBinding =>
    match e.status, e.jobId? with
    | .completed, some job =>
      let (forgotten, bindings) := w.bindings.forgetExecution job e.id
      (if forgotten then [.forgetSnapshot] else [], { w with bindings })
    | _, _ => ([], w)
  | forgetSnapshot =>
    match e.jobId? with
    | none => ([], w)
    | some job => ([], { w with snapshots := w.snapshots.erase job })

end Hook
end BatchExport
