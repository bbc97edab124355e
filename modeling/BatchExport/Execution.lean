import BatchExport.Cause
import BatchExport.Entries
import BatchExport.JobId
import BatchExport.Status
import BatchExport.Time.Instant

/-! One run attempt of a job: parameters, status, steps, failures and the context that its parts share. -/
namespace BatchExport

namespace Key

/-- The parameter that names the job. -/
def jobId : String := "jobId"

/-- The parameter with the path that staged files start with. -/
def tempOutputPath : String := "tempOutputFilePath"

/-- The context value that lists the stored files. -/
def outputFiles : String := "outputFilesInStorage"

/-- The parameter that names the snapshot to roll back to. -/
def rollbackFile : String := "rollBackFile"

end Key

abbrev JobParameters := Entries String

namespace JobParameters

/-- A blank parameter counts as missing. -/
def nonBlank? (p : JobParameters) (key : String) : Option String :=
  (Entries.get? p key).filter fun v => !Text.isBlank v

def jobId? (p : JobParameters) : Option JobId := Entries.get? p Key.jobId >>= JobId.ofText?

end JobParameters

/-- Counters of one step. -/
structure StepRun where
  name : String
  status : BatchStatus := .started
  read : Nat := 0
  written : Nat := 0
  filtered : Nat := 0
  skipped : Nat := 0
  ended : Option Instant := none
  deriving DecidableEq, Repr

def StepRun.finish (s : StepRun) (status : BatchStatus) (now : Instant) : StepRun :=
  { s with status, ended := some now }

structure Execution where
  id : ExecutionId
  jobName : String
  parameters : JobParameters
  status : BatchStatus
  exit : ExitStatus
  created : Instant
  started : Option Instant
  ended : Option Instant
  updated : Instant
  context : Entries String
  steps : List StepRun
  failures : List RecordedFailure
  deriving DecidableEq, Repr

namespace Execution

def new (id : ExecutionId) (jobName : String) (parameters : JobParameters) (now : Instant) : Execution :=
  { id, jobName, parameters, status := .starting, exit := .unknown, created := now, started := none
    ended := none, updated := now, context := [], steps := [], failures := [] }

def jobId? (e : Execution) : Option JobId := e.parameters.jobId?

def addFailure (e : Execution) (f : RecordedFailure) (now : Instant) : Execution :=
  { e with failures := e.failures ++ [f], updated := now }

def putContext (e : Execution) (key value : String) : Execution :=
  { e with context := Entries.put key value e.context }

def addStep (e : Execution) (s : StepRun) : Execution := { e with steps := e.steps ++ [s] }

/-- The last step of this name. -/
def step? (e : Execution) (name : String) : Option StepRun := e.steps.reverse.find? (·.name == name)

def markStarted (e : Execution) (now : Instant) : Execution :=
  { e with started := some now, status := .started, exit := .executing, updated := now }

/-- A finished execution does not stop any more. -/
def markStopping (e : Execution) (now : Instant) : Execution :=
  if e.status.isRunning then { e with status := .stopping, updated := now } else e

/-- The exit status of a failed execution carries the message of its last failure. -/
def terminalExit (e : Execution) (status : BatchStatus) : ExitStatus :=
  match status, e.failures.getLast? with
  | .failed, some f => (ExitStatus.ofBatchStatus .failed).addDescription f.message
  | _, _ => .ofBatchStatus status

def finish (e : Execution) (status : BatchStatus) (now : Instant) : Execution :=
  { e with status, exit := e.terminalExit status, ended := some now, updated := now }

def markCompleted (e : Execution) (now : Instant) : Execution := e.finish .completed now
def markFailed (e : Execution) (now : Instant) : Execution := e.finish .failed now
def markStopped (e : Execution) (now : Instant) : Execution := e.finish .stopped now

/-- The end of the body: its failure if there is one, else whether a stop was asked for. -/
def conclude (e : Execution) (result : Except Failure Unit) (stopped : Bool) (now : Instant) : Execution :=
  match result with
  | .error f => (e.addFailure (.ofFailure f) now).markFailed now
  | .ok () => if stopped then e.markStopped now else e.markCompleted now

/-- Root-cause messages of the failures, oldest first. -/
def rootMessages (e : Execution) : List String := e.failures.map (·.rootMessage)

end Execution
end BatchExport
