import BatchExport.Files.Staged
import BatchExport.JobId

/-! Copies of files in other directories: stored output, and snapshots that are restored. -/
namespace BatchExport.Storage

def requireFileName (path : String) : Effect FileTree String :=
  match Path.fileName? path with
  | some name => pure name
  | none => throw (.storage ("No file name in " ++ path))

/-- Copy a file into a directory, which is made if it is missing. Answers the path of the copy. -/
def copyInto (source dir name : String) : Effect FileTree String := do
  (FileTree.makeDirs dir).effect fun fault =>
    .storage ("Failed to create directory " ++ dir ++ ": " ++ fault.message)
  let destination := Path.join dir name
  (FileTree.copy source destination).effect fun fault =>
    .storage ("Failed to copy " ++ source ++ " to " ++ destination ++ ": " ++ fault.message)
  return destination

/-- Keep a staged file under its own name. -/
def store (outputDir staged : String) : Effect FileTree String := do
  copyInto staged outputDir (← requireFileName staged)

def restoredName (id : JobId) (name : String) : String := id.text ++ "-" ++ name

/-- Copy a snapshot back, under a name that starts with the job id. -/
def restore (restoreDir : String) (id : JobId) (snapshot : String) : Effect FileTree String := do
  if !(← get).isThere snapshot then throw (.rollback ("Snapshot " ++ snapshot ++ " does not exist"))
  let name ← requireFileName snapshot
  copyInto snapshot restoreDir (restoredName id name)

end BatchExport.Storage
