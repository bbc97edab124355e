import BatchExport.Execution
import BatchExport.Json.Value
import BatchExport.Summary

/-! Executions and their summaries as JSON. -/
namespace BatchExport

def StepRun.toJson (s : StepRun) : Json := .ofMembers [
  ("name", .string s.name), ("status", .string s.status.name), ("read", .ofNat s.read),
  ("write", .ofNat s.written), ("filter", .ofNat s.filtered), ("skip", .ofNat s.skipped),
  ("ended", .bool s.ended.isSome)]

def RecordedFailure.toJson (f : RecordedFailure) : Json := .ofMembers [
  ("message", .string f.message), ("root_cause", .string f.rootMessage)]

/-- How far an execution has come. -/
def Execution.progress (e : Execution) : List (String × Json) := [
  ("status", .string e.status.name), ("exit_code", .string e.exit.code),
  ("exit_description", .string e.exit.description), ("steps", .array (e.steps.map StepRun.toJson)),
  ("started", .bool e.started.isSome), ("ended", .bool e.ended.isSome)]

def Execution.toJson (e : Execution) : Json := .ofMembers <| e.progress ++ [
  ("id", .ofNat e.id), ("job", .string e.jobName), ("job_id", .ofText? (e.jobId?.map (·.text))),
  ("failures", .array (e.failures.map RecordedFailure.toJson)),
  ("output_files", .ofText? (Entries.get? e.context Key.outputFiles))]

def Summary.toJson (s : Summary) : Json := .ofMembers [
  ("status", .string s.status.name), ("read", .ofNat s.read), ("written", .ofNat s.written),
  ("filtered", .ofNat s.filtered), ("skipped", .ofNat s.skipped), ("duration_ms", .ofNat (s.duration / 1000000)),
  ("files", .array (s.files.map .string)), ("errors", .array (s.errors.map .string)),
  ("successful", .bool s.isSuccessful), ("success_rate", .string s.successRateText)]

end BatchExport
