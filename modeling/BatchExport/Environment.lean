import BatchExport.Entries
import BatchExport.Text.Pieces

/-! Environment variables. -/
namespace BatchExport

abbrev Environment := Entries String

/-- Variables in one text: each ends with a NUL, and an equals sign follows its name. -/
def Environment.ofBlock (block : List Char) : Environment :=
  Entries.ofList <| (Text.splitAt '\x00' block).filterMap fun entry =>
    match entry.dropWhile (· ≠ '=') with
    | [] => none
    | _ :: value => some (String.ofList (entry.takeWhile (· ≠ '=')), String.ofList value)

/-- Where temporary files live unless the environment says otherwise. -/
def Environment.tempDir (env : Environment) : String := (Entries.get? env "TMPDIR").getD "/tmp"

end BatchExport
