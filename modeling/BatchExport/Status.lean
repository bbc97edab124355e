/-! The life cycle of an execution and the exit status it ends with. -/
namespace BatchExport

inductive BatchStatus where
  | starting
  | started
  | stopping
  | stopped
  | completed
  | failed
  deriving DecidableEq, Repr, Inhabited

namespace BatchStatus

def all : List BatchStatus := [starting, started, stopping, stopped, completed, failed]

def name : BatchStatus → String
  | starting => "STARTING"
  | started => "STARTED"
  | stopping => "STOPPING"
  | stopped => "STOPPED"
  | completed => "COMPLETED"
  | failed => "FAILED"

def ofName? (s : String) : Option BatchStatus := all.find? (·.name == s)

/-- The execution has reached its end. -/
def isTerminal : BatchStatus → Bool
  | completed | failed | stopped => true
  | starting | started | stopping => false

def isRunning (s : BatchStatus) : Bool := !s.isTerminal

theorem ofName?_name (s : BatchStatus) : ofName? s.name = some s := by
  cases s <;> rfl

end BatchStatus

structure ExitStatus where
  code : String
  description : String
  deriving DecidableEq, Repr, Inhabited

namespace ExitStatus

def withCode (code : String) : ExitStatus := ⟨code, ""⟩

def unknown : ExitStatus := withCode "UNKNOWN"
def executing : ExitStatus := withCode "EXECUTING"
def completed : ExitStatus := withCode "COMPLETED"
def failed : ExitStatus := withCode "FAILED"
def stopped : ExitStatus := withCode "STOPPED"

def ofBatchStatus : BatchStatus → ExitStatus
  | .completed => completed
  | .failed => failed
  | .stopped => stopped
  | .starting | .started | .stopping => executing

/-- Descriptions add up, separated by semicolons; an empty one adds nothing. -/
def addDescription (e : ExitStatus) (text : String) : ExitStatus :=
  if text.isEmpty then e
  else if e.description.isEmpty then { e with description := text }
  else { e with description := e.description ++ "; " ++ text }

end ExitStatus
end BatchExport
