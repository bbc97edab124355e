import BatchExport.Execution
import BatchExport.Text.Blank
import BatchExport.Text.Pieces

/-! Lists of stored files in one text, separated by semicolons. -/
namespace BatchExport.OutputFiles

/-- Entries are trimmed and blank ones dropped. -/
def parse (raw : String) : List String :=
  ((Text.splitAt ';' raw.toList).map fun piece => Text.trim (String.ofList piece)).filter (!·.isEmpty)

def join (files : List String) : String := Text.joinWith ";" files

def ofExecution (e : Execution) : List String :=
  (Entries.get? e.context Key.outputFiles).elim [] parse

end BatchExport.OutputFiles
