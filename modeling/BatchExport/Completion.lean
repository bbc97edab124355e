import BatchExport.OutputFiles
import BatchExport.StatusRecord

/-! What a status record says about an execution. -/
namespace BatchExport

/-- A step whose write count appears in the description of a completed execution. -/
structure DescribedStep where
  step : String
  label : String
  deriving DecidableEq, Repr

/-- One line for each described step, `null` for one that did not run; nothing if none of them ran. -/
def describe (steps : List DescribedStep) (e : Execution) : Option String :=
  let counts := steps.map fun d => (d.label, (e.step? d.step).map (·.written))
  if counts.all fun (_, count) => count.isNone then none
  else some (Text.joinWith "\n" (counts.map fun (label, count) =>
    label ++ ": " ++ count.elim "null" toString))

namespace StatusRecord

/-- Only a completed execution is described. -/
def ofExecution (described : List DescribedStep) (id : JobId) (e : Execution) : StatusRecord :=
  let draft : StatusDraft :=
    { id, created := some e.created, started := e.started, ended := e.ended, updated := e.updated
      status := e.status, exit := some e.exit, files := OutputFiles.ofExecution e
      description := if e.status = .completed then describe described e else none }
  (draft.withErrorDetails (Text.joinWith "\n" e.rootMessages)).build

end StatusRecord
end BatchExport
