import BatchExport.Config.Decode
import BatchExport.Config.Overrides
import BatchExport.Config.Problem
import BatchExport.Config.Substitution
import BatchExport.Failure
import BatchExport.Toml.Parser

/-! From configuration text to a valid configuration: substitute, parse, override, validate. -/
namespace BatchExport

inductive ReadingProblem where
  | missingVariables (names : List String)
  | malformed
  | override (problem : OverrideProblem)
  | invalid (problem : ConfigProblem)
  deriving DecidableEq, Repr

def ReadingProblem.message : ReadingProblem → String
  | missingVariables names => "Missing required environment variables: " ++ Text.joinWith ", " names
  | malformed => "Failed to parse TOML"
  | override problem => problem.message
  | invalid problem => "Configuration validation failed: " ++ problem.message

namespace Config

def validate (c : Config) : Except ConfigProblem Config :=
  match c.problem? with
  | none => .ok c
  | some problem => .error problem

def ofText (env : Environment) (text : String) : Except ReadingProblem Config := do
  let text ← (Substitution.apply env text).mapError .missingVariables
  let c ← ((Toml.parse? text >>= Config.ofJson? Toml.dialect env.tempDir).elim
    (.error .malformed) .ok : Except ReadingProblem Config)
  let c ← (c.override env).mapError .override
  c.validate.mapError .invalid

/-- As `ofText`, with the wording of the problem. -/
def parse (env : Environment) (text : String) : Except Failure Config :=
  (ofText env text).mapError fun p => .configuration p.message

end Config
end BatchExport
