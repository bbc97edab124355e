import BatchExport.CommandLine.Command
import BatchExport.CommandLine.Console
import BatchExport.CommandLine.SampleConfig

/-! The command that writes a sample configuration. -/
namespace BatchExport.InitArguments

variable {ω : Type}

def sample (a : InitArguments) : String :=
  if a.withExamples then SampleConfig.explained else SampleConfig.minimal

def nextSteps (output : String) : List String := [
  "Next steps:",
  "  1. Edit " ++ output ++ " with your settings",
  "  2. Create a .env file with your credentials:",
  "     - Set FERRY_REMOTE_TENANT and FERRY_REMOTE_TOKEN",
  "  3. Validate configuration: ferry validate-config",
  "  4. Run export: ferry export <source>",
  ""]

/-- Nothing is overwritten unless that is wanted. -/
def execute (a : InitArguments) : OnConsole ω ExitCode := do
  Console.printLines ["📝 Initializing Ferry configuration", ""]
  let c ← get
  if c.files.isThere a.output && !a.force then
    Console.printLines ["❌ Configuration file already exists: " ++ a.output, "   Use --force to overwrite"]
    return .configuration
  let (result, files) := FileTree.write a.output a.sample.toList c.files
  set { c with files }
  match result with
  | .ok () =>
    Console.printLines (["✅ Configuration file created: " ++ a.output, ""] ++ nextSteps a.output)
    return .success
  | .error fault =>
    Console.printLines ["❌ Failed to write configuration file", "   Error: " ++ fault.message]
    return .failure

end BatchExport.InitArguments
