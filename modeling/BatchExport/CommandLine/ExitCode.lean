/-! How commands end. -/
namespace BatchExport

inductive ExitCode where
  | success
  /-- Records were skipped. -/
  | incomplete
  /-- The configuration or an argument is of no use, or a file is in the way. -/
  | configuration
  /-- The export could not be set up. -/
  | setup
  | failure
  | interrupted
  deriving DecidableEq, Repr

def ExitCode.number : ExitCode → Nat
  | success => 0
  | incomplete => 1
  | configuration => 2
  | setup => 4
  | failure => 5
  | interrupted => 130

end BatchExport
