import BatchExport.Files.Staged
import BatchExport.Text.Blank

/-! Deleting all files whose names start like a given path. -/
namespace BatchExport

structure CleanupReport where
  deleted : List String := []
  failed : List String := []
  deriving DecidableEq, Repr

namespace Cleanup

/-- The directory to look into, and what the names start with. -/
def scope? (path : String) : Option (String × String) := do
  let dir ← (Path.parent? path).filter (!·.isEmpty)
  let lead ← (Path.fileName? path).filter fun name => !Text.isBlank name
  return (dir, lead)

/-- The entries of a directory as they are read one by one. The reading may break off after some of them. -/
def read (names : List String) : Option (Nat × FileFault) → List (Except FileFault String)
  | none => names.map .ok
  | some (count, fault) => (names.take count).map .ok ++ [.error fault]

/-- Each entry is looked at and deleted before the next one is read. -/
def sweep (dir lead : String) :
    List (Except FileFault String) → CleanupReport → FileTree → Except FileFault CleanupReport × FileTree
  | [], report, t => (.ok report, t)
  | .error fault :: _, _, t => (.error fault, t)
  | .ok name :: rest, report, t =>
    if Text.startsWith lead.toList name.toList then
      let path := Path.join dir name
      match FileTree.remove path t with
      | (.ok (), t) => sweep dir lead rest { report with deleted := report.deleted ++ [path] } t
      | (.error _, t) => sweep dir lead rest { report with failed := report.failed ++ [path] } t
    else sweep dir lead rest report t

def cannotList (dir : String) (fault : FileFault) : Failure :=
  .cleanup ("Cannot list " ++ dir ++ ": " ++ fault.message)

/-- Without a scope or a directory there is nothing to do. -/
def run (path : String) (broken : Option (Nat × FileFault) := none) : Effect FileTree CleanupReport :=
  .ofStep fun t =>
    match scope? path with
    | none => (.ok {}, t)
    | some (dir, lead) =>
      match t.list dir with
      | .error .notFound => (.ok {}, t)
      | .error fault => (.error (cannotList dir fault), t)
      | .ok names =>
        let (r, t) := sweep dir lead (read names broken) {} t
        (r.mapError (cannotList dir), t)

end Cleanup
end BatchExport
