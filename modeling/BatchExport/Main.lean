import BatchExport.CommandLine.Execute
import BatchExport.CommandLine.Reach
import BatchExport.CommandLine.Usage
import Std.Time.DateTime.Timestamp

/-! The program. What a command may touch is read before it starts; what it has changed is written when it waits or
ends. There is no way to the network. -/
namespace BatchExport.Program

/-- More steps than any export takes. -/
def fuel : Nat := 1000000000

def host : Host Unit := { net := .unreachable Unit }

/-- What is at a location. The text of a file is read only if it is wanted. -/
def nodeAt? (withText : Bool) (location : Location) : IO (Option FileNode) := do
  let place := (← IO.currentDir) / Location.path location
  if ← place.isDir then return some .directory
  if !(← place.pathExists) then return none
  if withText then return some (.file (← IO.FS.readFile place).toList)
  return some (.file [])

def addNode (withText : Bool) (tree : FileTree) (location : Location) : IO FileTree := do
  match ← nodeAt? withText location with
  | some node => return tree.put location node
  | none => return tree

/-- A path with the directories above it. -/
def addPath (withText : Bool) (tree : FileTree) (path : String) : IO FileTree :=
  (Location.ofPath tree.current path).way.foldlM (addNode withText) tree

/-- All names below a directory. -/
partial def addBelow (tree : FileTree) (location : Location) : IO FileTree := do
  let place := (← IO.currentDir) / Location.path location
  if !(← place.isDir) then return tree
  (← place.readDir).foldlM (fun tree entry => do
    let inner := location ++ [entry.fileName]
    addBelow (← addNode false tree inner) inner) tree

def readTree (env : Environment) (l : CommandLine) : IO FileTree := do
  let tree := FileTree.empty (Location.ofPath [] (← IO.currentDir).toString)
  let tree ← l.files.foldlM (addPath true) tree
  match Config.load env tree l.configPath with
  | .error _ => return tree
  | .ok c =>
    let tree ← (c.stagingDir :: c.directories).foldlM (addPath false) tree
    addBelow tree (Location.ofPath tree.current c.stagingDir)

def writeTree (before after : FileTree) : IO Unit := do
  for location in before.losses after do
    IO.FS.removeFile (Location.path location)
  for (location, node) in before.changes after do
    match node with
    | .directory => IO.FS.createDirAll (Location.path location)
    | .file text => IO.FS.writeFile (Location.path location) (String.ofList text)

def now : IO Instant := do
  let t := (← Std.Time.Timestamp.now).toNanosecondsSinceUnixEpoch.val
  return ⟨t / 1000000000, (t % 1000000000).toNat⟩

/-- Put out what has been said and what has changed. -/
def flush (before : FileTree) (c : Console Unit) : IO (Console Unit) := do
  writeTree before c.files
  (← IO.getStdout).putStr c.out
  (← IO.getStdout).flush
  (← IO.getStderr).putStr c.err
  return { c with out := "", err := "" }

def execute (env : Environment) (l : CommandLine) : IO (Option ExitCode) := do
  let fresh := JobId.ofBits (twoTo 64 * (← IO.rand 0 maxWord) + (← IO.rand 0 maxWord))
  let files ← readTree env l
  let (dialogue, c) := (l.startLogged host fuel fresh).run { env, files, now := ← now, input := [], outside := () }
  let c ← flush files c
  match dialogue with
  | .ended code => return code
  | .asking answered =>
    let answer ← (← IO.getStdin).getLine
    let (code, after) := (answered answer).run { c with now := ← now }
    let _ ← flush c.files after
    return code

end BatchExport.Program

open BatchExport in
def main (args : List String) : IO UInt32 := do
  let env := Environment.ofBlock (← IO.FS.readFile "/proc/self/environ").toList
  match CommandLine.parse env args with
  | .ok l => return (((← Program.execute env l).getD .failure).number).toUInt32
  | .error problem =>
    let out ← if problem.isRequest then IO.getStdout else IO.getStderr
    problem.message.forM out.putStrLn
    return problem.exitCode.number.toUInt32
