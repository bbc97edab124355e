import BatchExport.Config.Problem
import BatchExport.Files.Staged
import BatchExport.Text.Lower

/-! What has to be in order before log lines can be written: a known level, and a directory for log files. -/
namespace BatchExport.Logging

/-- Levels are known in any case. -/
def level? (s : String) : Option String := logLevels.find? (· == Text.lower s)

def levelFailure (s : String) : Failure :=
  .configuration ("Invalid log level: " ++ s ++ ". Must be one of: " ++ Text.joinWith ", " logLevels)

def directoryFailure (path : String) (fault : FileFault) : Failure :=
  .configuration ("Failed to create log directory " ++ path ++ ": " ++ fault.message)

/-- Check the level, and make the directory if log files are wanted. Any rotation will do. -/
def prepare (level : String) (settings : LoggingSettings) : Effect FileTree Unit := do
  if (level? level).isNone then throw (levelFailure level)
  if settings.localEnabled then
    (FileTree.makeDirs settings.localPath).effect (directoryFailure settings.localPath)

end BatchExport.Logging
