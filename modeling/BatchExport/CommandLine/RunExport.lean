import BatchExport.CommandLine.Command
import BatchExport.CommandLine.Console
import BatchExport.Config.Loading
import BatchExport.Export.Plan
import BatchExport.Summary

/-! The command that exports one source. -/
namespace BatchExport

/-- Why an export does not start. -/
inductive Refusal where
  | unreadable (f : Failure)
  | unknownSource (c : Config) (name : String)
  | blankJobId
  | publisher (f : Failure)

namespace Refusal

def message : Refusal → String
  | unreadable f => "Failed to load configuration: " ++ f.message
  | unknownSource c name => c.unknownSourceMessage name
  | blankJobId => "Invalid job id: " ++ JobId.blankMessage
  | publisher f => "Failed to initialize export: " ++ f.message

def code : Refusal → ExitCode
  | publisher _ => .setup
  | _ => .configuration

end Refusal

namespace ExportPlan

/-- A job without a name of its own gets the fresh one. -/
def ofArguments (a : ExportArguments) (config : Except Failure Config) (fresh : JobId) :
    Except Refusal ExportPlan := do
  let config ← config.mapError .unreadable
  let some source := config.source? a.source | throw (.unknownSource config a.source)
  let some job := a.jobId.elim (some fresh) JobId.ofText? | throw .blankJobId
  return { config, sourceName := a.source, source, job, snapshot := a.rollbackSnapshot }

/-- What is shown before the question whether to go on. -/
def summary (p : ExportPlan) : List String :=
  ["Export Configuration:",
    "  Source: " ++ p.sourceName ++ " (" ++ p.source.path ++ ")",
    "  Pagination: " ++ p.source.paging.label,
    "  Page size: " ++ toString p.source.pageSize,
    "  Job id: " ++ p.job.text] ++
    p.snapshot.toList.map ("  Rollback snapshot: " ++ ·) ++ [""]

end ExportPlan

namespace ExportResult

def summaryLines (job : JobId) (r : ExportResult) : List String :=
  let s := Summary.ofExecution r.execution
  ["", "📊 Export Summary:",
    "  Job: " ++ job.text ++ " (execution " ++ toString r.execution.id ++ ")",
    "  Status: " ++ s.status.name,
    "  Read: " ++ toString s.read,
    "  Written: " ++ toString s.written,
    "  Skipped: " ++ toString s.skipped,
    "  Duration: " ++ s.secondsText ++ "s",
    "  Success Rate: " ++ s.successRateText ++ "%"] ++
    s.files.map ("  Output: " ++ ·) ++ [""] ++
    (if s.errors.isEmpty then [] else "⚠️  Errors encountered:" :: s.errors.map ("  - " ++ ·) ++ [""])

/-- A stop always counts as an interruption; what else came of an interrupted export is not said. -/
def verdict (r : ExportResult) : List String × ExitCode :=
  let s := Summary.ofExecution r.execution
  if s.status = .stopped then (["⚠️  Export interrupted."], .interrupted)
  else if r.interrupted then ([], .interrupted)
  else if s.isSuccessful then (["✅ Export completed successfully!"], .success)
  else if s.status = .completed then (["⚠️  Export completed with skipped records"], .incomplete)
  else (["❌ Export failed"], .failure)

end ExportResult

namespace ExportArguments

variable {ω : Type}

def isYes (s : String) : Bool := ["y", "Y"].contains (Text.trim s)

def refuse (r : Refusal) : OnConsole ω (Option ExitCode) := do
  Console.complain r.message
  return r.code

def tellRollback : Option (Except Failure RollbackOutcome) → OnConsole ω Unit
  | none => pure ()
  | some (.ok outcome) => Console.printLine ("↩️  Rollback: " ++ outcome.message)
  | some (.error f) => Console.complain ("Rollback failed: " ++ f.message)

/-- Run a plan in a worker of its own. -/
def perform (host : Host ω) (fuel : Nat) (p : ExportPlan) (publisher : Publisher) :
    OnConsole ω (Option ExitCode) := do
  Console.printLines ["🚀 Starting export...", ""]
  let c ← get
  let worker : Worker ω :=
    { cache := .ofSettings p.config.cache, files := c.files, now := c.now, outside := c.outside }
  let (result?, worker) := p.run host publisher fuel worker
  set { c with files := worker.files, outside := worker.outside }
  match result? with
  | none => return none
  | some result =>
    tellRollback result.rollback
    let (words, code) := result.verdict
    Console.printLines (result.summaryLines p.job ++ words)
    return some code

/-- Without a publisher nothing starts. -/
def go (host : Host ω) (fuel : Nat) (p : ExportPlan) : OnConsole ω (Option ExitCode) :=
  match Publisher.ofSettings p.config.publisher p.config.remote with
  | .error f => refuse (.publisher f)
  | .ok publisher => perform host fuel p publisher

def cancel : OnConsole ω (Option ExitCode) := do
  Console.printLine "Export cancelled."
  return some .success

/-- Ask first, unless the answer has been given already. -/
def start (host : Host ω) (fuel : Nat) (fresh : JobId) (configPath : String) (a : ExportArguments) :
    OnConsole ω (Dialogue ω) := do
  let c ← get
  match ExportPlan.ofArguments a (Config.load c.env c.files configPath) fresh with
  | .error refusal => return .ended (← refuse refusal)
  | .ok plan =>
    if a.yes then return .ended (← go host fuel plan)
    Console.printLines plan.summary
    Console.print "Proceed with export? [y/N]: "
    return .asking fun answer => if isYes answer then go host fuel plan else cancel

end ExportArguments
end BatchExport
