import BatchExport.Files.Path

/-! Trees of directories and text files, and what can go wrong when a path leads nowhere. -/
namespace BatchExport

inductive FileFault where
  | notFound
  | exists
  | notDirectory
  | isDirectory
  | nameTooLong
  | nulInName
  | notRegular
  | inputOutput
  deriving DecidableEq, Repr

def FileFault.message : FileFault → String
  | notFound => "No such file or directory (os error 2)"
  | .exists => "File exists (os error 17)"
  | notDirectory => "Not a directory (os error 20)"
  | isDirectory => "Is a directory (os error 21)"
  | nameTooLong => "File name too long (os error 36)"
  | nulInName => "file name contained an unexpected NUL byte"
  | notRegular => "the source path is neither a regular file nor a symlink to a regular file"
  | inputOutput => "Input/output error (os error 5)"

inductive FileNode where
  | directory
  | file (text : List Char)
  deriving DecidableEq, Repr

/-- The names on the way from the root. -/
abbrev Location := List String

structure FileTree where
  /-- Everything but the root, each location once. -/
  nodes : List (Location × FileNode)
  /-- Where relative paths start. -/
  current : Location
  deriving Repr

namespace FileTree

/-- A tree in which only the way to the current directory exists. -/
def empty (current : Location) : FileTree :=
  { nodes := (List.range current.length).map fun n => (current.take (n + 1), .directory), current }

def node? (t : FileTree) (location : Location) : Option FileNode :=
  if location.isEmpty then some .directory else t.nodes.lookup location

/-- The only way in which nodes are set. -/
def put (t : FileTree) (location : Location) (node : FileNode) : FileTree :=
  { t with nodes := t.nodes.filter (·.1 ≠ location) ++ [(location, node)] }

def erase (t : FileTree) (location : Location) : FileTree := { t with nodes := t.nodes.filter (·.1 ≠ location) }

/-- The names in a directory, in the order in which they were made. -/
def names (t : FileTree) (dir : Location) : List String :=
  t.nodes.filterMap fun (location, _) => if location.dropLast = dir then location.getLast? else none

def maxName : Nat := 255

def maxPath : Nat := 4095

/-- One piece of a path further. Every piece needs a directory to start from. -/
def follow (t : FileTree) (location : Location) (piece : Path.Piece) : Except FileFault Location :=
  match t.node? location with
  | none => .error .notFound
  | some (.file _) => .error .notDirectory
  | some .directory =>
    if piece = [] ∨ piece = ['.'] then .ok location
    else if piece = ['.', '.'] then .ok location.dropLast
    else if (String.ofList piece).utf8ByteSize > maxName then .error .nameTooLong
    else .ok (location ++ [String.ofList piece])

def start (t : FileTree) (path : String) : Location := if Path.isAbsolute path then [] else t.current

/-- Texts that cannot be paths at all. -/
def checkPath (path : String) : Except FileFault Unit :=
  if path.toList.contains '\x00' then .error .nulInName
  else if path.isEmpty then .error .notFound
  else if path.utf8ByteSize > maxPath then .error .nameTooLong
  else .ok ()

/-- Where a path leads; nothing needs to be there. -/
def locate (t : FileTree) (path : String) : Except FileFault Location := do
  checkPath path
  (Path.pieces path).foldlM t.follow (t.start path)

def stat (t : FileTree) (path : String) : Except FileFault FileNode := do
  match t.node? (← t.locate path) with
  | some node => return node
  | none => throw .notFound

/-- Does the path lead to something? -/
def isThere (t : FileTree) (path : String) : Bool := (t.stat path).toOption.isSome

/-- Unlike `isThere` this fails where nobody can tell. -/
def exists? (t : FileTree) (path : String) : Except FileFault Bool :=
  match t.stat path with
  | .ok _ => .ok true
  | .error .notFound => .ok false
  | .error fault => .error fault

def isDirectory (t : FileTree) (path : String) : Bool :=
  match t.stat path with
  | .ok .directory => true
  | _ => false

/-- Where a new entry would go: the location of its directory, and its name. No name means that the path ends in
dots or in its root; slashes at the end do not count. -/
def target (t : FileTree) (path : String) : Except FileFault (Location × Option String) := do
  checkPath path
  let pieces := ((Path.pieces path).reverse.dropWhile (· = [])).reverse
  let dir ← pieces.dropLast.foldlM t.follow (t.start path)
  let location ← t.follow dir (pieces.getLastD [])
  match pieces.getLast? with
  | none | some [] | some ['.'] | some ['.', '.'] => return (location, none)
  | some piece => return (dir, some (String.ofList piece))

/-- An operation on the tree; what it did before it failed stays done. -/
abbrev Change (α : Type) := FileTree → Except FileFault α × FileTree

/-- Make one directory. -/
def makeDir (path : String) : Change Unit := fun t =>
  match t.target path with
  | .error fault => (.error fault, t)
  | .ok (_, none) => (.error .exists, t)
  | .ok (dir, some name) =>
    match t.node? (dir ++ [name]) with
    | some _ => (.error .exists, t)
    | none => (.ok (), t.put (dir ++ [name]) .directory)

/-- A directory that is there already is as good as a new one. -/
def settle (path : String) (fault : FileFault) (t : FileTree) : Except FileFault Unit × FileTree :=
  (if t.isDirectory path then .ok () else .error fault, t)

/-- Make a directory and those above it that are missing; `fuel` bounds how many. -/
def makeDirsWithin : Nat → String → Change Unit
  | 0, _ => fun t => (.error .notFound, t)
  | fuel + 1, path => fun t =>
    if path.isEmpty then (.ok (), t)
    else match makeDir path t with
      | (.ok (), t) => (.ok (), t)
      | (.error .notFound, t) =>
        match Path.parent? path with
        | none => (.error .notFound, t)
        | some parent =>
          match makeDirsWithin fuel parent t with
          | (.error fault, t) => (.error fault, t)
          | (.ok (), t) =>
            match makeDir path t with
            | (.ok (), t) => (.ok (), t)
            | (.error fault, t) => settle path fault t
      | (.error fault, t) => settle path fault t

def makeDirs (path : String) : Change Unit := makeDirsWithin (path.length + 1) path

/-- Make an empty file, or empty the one that is there. A slash at the end asks for a directory. -/
def create (path : String) : Change Location := fun t =>
  match t.target path with
  | .error fault => (.error fault, t)
  | .ok (_, none) => (.error .isDirectory, t)
  | .ok (dir, some name) =>
    match t.node? (dir ++ [name]) with
    | some .directory => (.error .isDirectory, t)
    | _ =>
      if path.toList.getLast? == some '/' then (.error .isDirectory, t)
      else (.ok (dir ++ [name]), t.put (dir ++ [name]) (.file []))

/-- Write over a file from a position on; the gap after a shorter content fills with NUL. A file that is gone
stays gone. -/
def writeAt (location : Location) (position : Nat) (text : List Char) (t : FileTree) : FileTree :=
  match t.node? location with
  | some (.file old) =>
    let before := old.take position ++ List.replicate (position - old.length) '\x00'
    t.put location (.file (before ++ text ++ old.drop (position + text.length)))
  | _ => t

/-- A file with this text and the directories above it. -/
def write (path : String) (text : List Char) : Change Unit := fun t =>
  match create path t with
  | (.error fault, t) => (.error fault, t)
  | (.ok location, t) => (.ok (), t.writeAt location 0 text)

def read (path : String) (t : FileTree) : Except FileFault (List Char) :=
  match t.stat path with
  | .error fault => .error fault
  | .ok .directory => .error .isDirectory
  | .ok (.file text) => .ok text

/-- Copy a file over another one, which is emptied first, also when it is the same one. -/
def copy (source destination : String) : Change Unit := fun t =>
  match t.locate source, t.stat source with
  | .error fault, _ => (.error fault, t)
  | _, .error fault => (.error fault, t)
  | _, .ok .directory => (.error .notRegular, t)
  | .ok origin, .ok (.file _) =>
    match create destination t with
    | (.error fault, t) => (.error fault, t)
    | (.ok location, t) =>
      match t.node? origin with
      | some (.file text) => (.ok (), t.writeAt location 0 text)
      | _ => (.ok (), t)

/-- The names in a directory. -/
def list (path : String) (t : FileTree) : Except FileFault (List String) := do
  match ← t.stat path with
  | .directory => return t.names (← t.locate path)
  | .file _ => throw .notDirectory

/-- Delete a file; directories stay. -/
def remove (path : String) : Change Unit := fun t =>
  match t.locate path, t.stat path with
  | .error fault, _ => (.error fault, t)
  | _, .error fault => (.error fault, t)
  | _, .ok .directory => (.error .isDirectory, t)
  | .ok location, .ok (.file _) => (.ok (), t.erase location)

end FileTree
end BatchExport
