import BatchExport.Decimal.Fixed
import BatchExport.OutputFiles

/-! The numbers of a finished execution that an operator looks at. -/
namespace BatchExport

structure Summary where
  status : BatchStatus
  read : Nat
  written : Nat
  filtered : Nat
  skipped : Nat
  /-- In nanoseconds; zero unless the execution started and ended in this order. -/
  duration : Nat
  files : List String
  errors : List String

namespace Summary

def ofExecution (e : Execution) : Summary :=
  let total (count : StepRun → Nat) : Nat := e.steps.foldr (fun s n => count s + n) 0
  { status := e.status
    read := total (·.read)
    written := total (·.written)
    filtered := total (·.filtered)
    skipped := total (·.skipped)
    duration := match e.started, e.ended with
      | some start, some stop => (start.nanosUntil stop).toNat
      | _, _ => 0
    files := OutputFiles.ofExecution e
    errors := e.rootMessages }

/-- Completed without a skipped record. -/
def isSuccessful (s : Summary) : Bool := s.status == .completed && s.skipped == 0

/-- Written records per hundred read ones, in doubles. -/
def successRate (s : Summary) : Binary64 :=
  Binary64.ofFloat (if s.read = 0 then 100.0 else s.written.toFloat / s.read.toFloat * 100.0)

def successRateText (s : Summary) : String := Decimal.twoPlaces s.successRate

/-- Seconds, in doubles. -/
def seconds (s : Summary) : Binary64 :=
  Binary64.ofFloat ((s.duration / 1000000000).toFloat + (s.duration % 1000000000).toFloat / 1000000000.0)

def secondsText (s : Summary) : String := Decimal.twoPlaces s.seconds

end Summary
end BatchExport
