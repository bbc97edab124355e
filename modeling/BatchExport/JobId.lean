import BatchExport.Decimal.Power
import BatchExport.Text.Blank
import BatchExport.Text.Decimal
import BatchExport.Text.Pieces

/-! Names of jobs. -/
namespace BatchExport

structure JobId where
  text : String
  deriving DecidableEq, Repr, Inhabited

/-- Any text but a blank one names a job; white space around it does not count. -/
def JobId.ofText? (raw : String) : Option JobId :=
  if (Text.trim raw).isEmpty then none else some ⟨Text.trim raw⟩

/-- A name for a job that has none: the UUID, of the random kind, made from 128 bits. -/
def JobId.ofBits (bits : Nat) : JobId :=
  let hex (width low : Nat) : String :=
    String.ofList ((List.range width).reverse.map fun i => Text.hexDigit (bits / twoTo (low + 4 * i) % 16))
  let variant := String.singleton (Text.hexDigit (8 + bits / twoTo 60 % 4))
  ⟨Text.joinWith "-" [hex 8 96, hex 4 80, "4" ++ hex 3 64, variant ++ hex 3 48, hex 12 0]⟩

def JobId.blankMessage : String := "Job ID cannot be blank"

/-- The number of an execution; a runner counts them from one. -/
abbrev ExecutionId := Nat

end BatchExport
