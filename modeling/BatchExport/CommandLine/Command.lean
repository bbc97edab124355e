import BatchExport.CommandLine.Grammar
import BatchExport.Environment

/-! The commands of the worker and how they are asked for. -/
namespace BatchExport

structure ExportArguments where
  source : String
  jobId : Option String
  rollbackSnapshot : Option String
  /-- Do not ask before the export. -/
  yes : Bool
  deriving DecidableEq, Repr

structure InitArguments where
  output : String
  withExamples : Bool
  force : Bool
  deriving DecidableEq, Repr

inductive Command where
  | exportSource (a : ExportArguments)
  | validateConfig
  | writeSample (a : InitArguments)
  deriving DecidableEq, Repr

structure CommandLine where
  configPath : String
  logLevel : Option String
  command : Command
  deriving DecidableEq, Repr

namespace CommandLine

def defaultConfigPath : String := "ferry.toml"

def helpOption : OptionForm := ⟨"help", some 'h', .help⟩

def topGrammar : Grammar where
  options := [⟨"config", some 'c', .value⟩, ⟨"log-level", some 'l', .value⟩, helpOption,
    ⟨"version", some 'V', .version⟩]
  subcommands := ["export", "validate-config", "init", "help"]

def exportGrammar : Grammar where
  options := [⟨"job-id", none, .value⟩, ⟨"rollback-snapshot", none, .value⟩, ⟨"yes", some 'y', .flag⟩, helpOption]
  positions := 1

def validateGrammar : Grammar where
  options := [helpOption]

def initGrammar : Grammar where
  options := [⟨"output", some 'o', .value⟩, ⟨"with-examples", none, .flag⟩, ⟨"force", none, .flag⟩, helpOption]

def readExport (args : List String) : Except UsageProblem Command := do
  let r ← exportGrammar.readAll args
  match r.positional with
  | [] => throw .missingArgument
  | source :: _ => return .exportSource {
      source, jobId := r.values.lookup "job-id", rollbackSnapshot := r.values.lookup "rollback-snapshot"
      yes := r.flags.contains "yes" }

def readValidate (args : List String) : Except UsageProblem Command := do
  let _ ← validateGrammar.readAll args
  return .validateConfig

def readInit (args : List String) : Except UsageProblem Command := do
  let r ← initGrammar.readAll args
  return .writeSample {
    output := (r.values.lookup "output").getD defaultConfigPath
    withExamples := r.flags.contains "with-examples", force := r.flags.contains "force" }

/-- Help is there for one subcommand at most. -/
def readHelp : List String → UsageProblem
  | [] => .help
  | [name] => if topGrammar.subcommands.contains name then .help else .unknownSubcommand
  | _ => .unknownSubcommand

def readCommand (name : String) (args : List String) : Except UsageProblem Command :=
  match name with
  | "export" => readExport args
  | "validate-config" => readValidate args
  | "init" => readInit args
  | _ => throw (readHelp args)

/-- Variables of the environment stand in for options that are not given. -/
def parse (env : Environment) (args : List String) : Except UsageProblem CommandLine := do
  let (r, rest) ← topGrammar.read {} args
  let setting (r : ReadArguments) (name key : String) : Option String :=
    r.values.lookup name <|> Entries.get? env key
  let config (r : ReadArguments) := setting r "config" "FERRY_CONFIG"
  let level (r : ReadArguments) := setting r "log-level" "FERRY_LOG_LEVEL"
  match rest with
  | some (name, args) =>
    let command ← readCommand name args
    let r ← r.resolve
    return { configPath := (config r).getD defaultConfigPath, logLevel := level r, command }
  | none =>
    let r ← r.resolve
    throw (if (config r).isNone && (level r).isNone then .nothingGiven else .missingSubcommand)

end CommandLine
end BatchExport
