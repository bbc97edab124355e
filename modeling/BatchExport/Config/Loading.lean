import BatchExport.Config.Reading
import BatchExport.Files.Tree

/-! Configurations in files. -/
namespace BatchExport

def Config.load (env : Environment) (files : FileTree) (path : String) : Except Failure Config :=
  if !files.isThere path then .error (.configuration ("Configuration file not found: " ++ path))
  else match files.read path with
    | .error fault =>
      .error (.configuration ("Failed to read configuration file " ++ path ++ ": " ++ fault.message))
    | .ok text => Config.parse env (String.ofList text)

end BatchExport
