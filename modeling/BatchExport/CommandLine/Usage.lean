import BatchExport.CommandLine.Grammar
import BatchExport.CommandLine.ExitCode
import BatchExport.Text.Pieces

/-! What is said when arguments are no command. -/
namespace BatchExport

def version : String := "ferry 0.1.0"

def usage : List String := [
  "Usage: ferry [OPTIONS] <COMMAND>",
  "",
  "Commands:",
  "  export           Export one configured source",
  "  validate-config  Validate configuration file",
  "  init             Initialize a new configuration file",
  "  help             Print this message",
  "",
  "Options:",
  "  -c, --config <CONFIG>        Path to configuration file",
  "  -l, --log-level <LOG_LEVEL>  Log level (trace, debug, info, warn, error)",
  "  -h, --help                   Print help",
  "  -V, --version                Print version"]

namespace UsageProblem

/-- Requests for help or for the version are answered, all else is an error. -/
def isRequest : UsageProblem → Bool
  | help | version => true
  | _ => false

def exitCode (p : UsageProblem) : ExitCode := if p.isRequest then .success else .configuration

def message : UsageProblem → List String
  | help => usage
  | version => [BatchExport.version]
  | nothingGiven => usage
  | missingSubcommand => "error: a subcommand is required" :: "" :: usage
  | missingArgument => "error: a required argument is missing" :: "" :: usage
  | missingValue => "error: an option needs a value" :: "" :: usage
  | unwantedValue => "error: an option takes no value" :: "" :: usage
  | unknownArgument => "error: unexpected argument" :: "" :: usage
  | unknownSubcommand => "error: unrecognized subcommand" :: "" :: usage
  | repeated => "error: an option is given twice" :: "" :: usage

end UsageProblem
end BatchExport
