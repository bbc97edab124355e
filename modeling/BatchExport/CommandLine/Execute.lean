import BatchExport.CommandLine.Inspect
import BatchExport.CommandLine.RunExport
import BatchExport.CommandLine.WriteSample
import BatchExport.Logging

/-! Commands on a console. -/
namespace BatchExport.CommandLine

variable {ω : Type}

/-- Go on to the end or to a question. -/
def start (host : Host ω) (fuel : Nat) (fresh : JobId) (l : CommandLine) : OnConsole ω (Dialogue ω) :=
  match l.command with
  | .exportSource a => a.start host fuel fresh l.configPath
  | .validateConfig => do return .ended (← Config.inspect l.configPath)
  | .writeSample a => do return .ended (← a.execute)

def execute (host : Host ω) (fuel : Nat) (fresh : JobId) (l : CommandLine) : OnConsole ω (Option ExitCode) := do
  (← l.start host fuel fresh).finish

/-- The log level of the command line goes before the one of the configuration, if that can be read. -/
def logging (env : Environment) (files : FileTree) (l : CommandLine) : String × LoggingSettings :=
  match Config.load env files l.configPath with
  | .ok c => (l.logLevel.getD c.application.logLevel, c.logging)
  | .error _ => (l.logLevel.getD "info", {})

/-- Prepare the log; without it no command starts. -/
def startLogged (host : Host ω) (fuel : Nat) (fresh : JobId) (l : CommandLine) : OnConsole ω (Dialogue ω) := do
  let c ← get
  let (level, settings) := l.logging c.env c.files
  match (Logging.prepare level settings).run c.files with
  | none => return .ended none
  | some (.error f, files) =>
    set { c with files }
    Console.complain ("Failed to initialize logging: " ++ f.message)
    return .ended (some .failure)
  | some (.ok (), files) =>
    set { c with files }
    l.start host fuel fresh

end BatchExport.CommandLine
