import BatchExport.Files.Path
import BatchExport.JobId

/-! Where jobs stage their files: names start with the job id, so that they can be deleted by prefix. -/
namespace BatchExport.WorkPath

def jobIdSeparator : String := "-"

def recordsSuffix : String := ".jsonl"

def errorsSuffix : String := "_errors.csv"

def appDir (workDir appName : String) : String := Path.join workDir appName

/-- A name up to its last dot; a leading dot stays. -/
def withoutExtension (name : List Char) : List Char :=
  let stem := ((name.reverse.dropWhile (· ≠ '.')).drop 1).reverse
  if stem.isEmpty then name else stem

/-- The file name without directory and extension; a path without a file name stands for itself. -/
def baseName (fileName : String) : String :=
  String.ofList (withoutExtension ((Path.fileName? fileName).getD fileName).toList)

/-- What the staged files of a job start with. -/
def tempPath (workDir appName : String) (id : JobId) (fileName : String) : String :=
  Path.join (appDir workDir appName) (id.text ++ jobIdSeparator ++ baseName fileName)

def withSuffix (path suffix : String) : String := path ++ suffix

def records (temp : String) : String := withSuffix temp recordsSuffix

def errors (temp : String) : String := withSuffix temp errorsSuffix

end BatchExport.WorkPath
