import BatchExport.CommandLine.Command
import BatchExport.Config.Settings
import BatchExport.Files.Tree
import BatchExport.Files.WorkPath

/-! What a command may touch in the file system. -/
namespace BatchExport

namespace Location

/-- Where a path leads if all its pieces are there. -/
def ofPath (current : Location) (path : String) : Location :=
  (Path.pieces path).foldl step (if Path.isAbsolute path then [] else current)
where
  step (location : Location) (piece : Path.Piece) : Location :=
    if piece = [] ∨ piece = ['.'] then location
    else if piece = ['.', '.'] then location.dropLast
    else location ++ [String.ofList piece]

def path (location : Location) : String := "/" ++ Text.joinWith "/" location

/-- The location and all above it, the outermost first. -/
def way (location : Location) : List Location :=
  (List.range location.length).map fun n => location.take (n + 1)

end Location

namespace CommandLine

/-- Files that a command reads or replaces. -/
def files (l : CommandLine) : List String :=
  l.configPath :: match l.command with
    | .exportSource a => a.rollbackSnapshot.toList
    | .writeSample a => [a.output]
    | .validateConfig => []

end CommandLine

namespace Config

/-- Directories that an export writes to. -/
def directories (c : Config) : List String := [c.storage.outputDir, c.rollback.restoreDir, c.logging.localPath]

/-- The directory of staged files; those in it may be deleted. -/
def stagingDir (c : Config) : String := WorkPath.appDir c.application.workDir c.application.name

end Config

namespace FileTree

/-- Nodes that are not as they were before. -/
def changes (before after : FileTree) : List (Location × FileNode) :=
  after.nodes.filter fun (location, node) => before.node? location ≠ some node

/-- Nodes that are gone. -/
def losses (before after : FileTree) : List Location :=
  (before.nodes.map (·.1)).filter fun location => (after.node? location).isNone

end FileTree
end BatchExport
