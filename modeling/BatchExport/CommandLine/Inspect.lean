import BatchExport.CommandLine.Console
import BatchExport.Config.Loading

/-! The command that checks a configuration and shows what it comes to. -/
namespace BatchExport

namespace PublisherSettings

def summary (p : PublisherSettings) : String :=
  match p.kind with
  | .log => "log"
  | .http => "http " ++ p.endpoint.getD "" ++ "/" ++ p.topic

end PublisherSettings

def SourceSettings.summary (s : SourceSettings) : String :=
  s.path ++ " (" ++ s.paging.label ++ ", page size " ++ toString s.pageSize ++ ")"

namespace Config

variable {ω : Type}

/-- The main settings; the token is not shown. -/
def summary (c : Config) : List String := [
  "Configuration Summary:",
  "  Application: " ++ c.application.name,
  "  Log Level: " ++ c.application.logLevel,
  "  Work Dir: " ++ c.application.workDir,
  "  Remote: " ++ c.remote.baseUrl,
  "  Tenant: " ++ c.remote.tenant.getD "<none>",
  "  Token: " ++ if c.remote.token.isSome then "set" else "<none>",
  "  Publisher: " ++ c.publisher.summary,
  "  Cache Capacity: " ++ toString c.cache.defaultCapacity,
  "  Output Dir: " ++ c.storage.outputDir,
  "  Restore Dir: " ++ c.rollback.restoreDir,
  "  Sources:"] ++ c.sources.map (fun (name, s) => "    - " ++ name ++ ": " ++ s.summary) ++ [""]

def inspect (path : String) : OnConsole ω ExitCode := do
  Console.printLines ["🔍 Validating configuration file: " ++ path, ""]
  let c ← get
  match Config.load c.env c.files path with
  | .error f =>
    Console.printLines ["❌ Failed to load configuration file", "   Error: " ++ f.message]
    return .configuration
  | .ok config =>
    Console.printLines <|
      ["✅ Configuration file loaded successfully", "✅ Configuration is valid", ""] ++ config.summary
    return .success

end Config
end BatchExport
