import BatchExport.Text.Pieces

/-! Paths of files as texts: pieces between slashes, names, parents and joins. -/
namespace BatchExport.Path

abbrev Piece := List Char

inductive Component where
  | root
  /-- A leading dot. -/
  | here
  | up
  | name (s : String)
  deriving DecidableEq, Repr

def isAbsolute (path : String) : Bool := path.toList.head? == some '/'

def pieces (path : String) : List Piece := Text.splitAt '/' path.toList

/-- Empty pieces and dots name nothing, but a relative path may start with a dot. -/
def isMeaningful (piece : Piece) (isFirst : Bool) : Bool := piece ≠ [] && (piece ≠ ['.'] || isFirst)

def componentOf (piece : Piece) : Component :=
  if piece = ['.'] then .here
  else if piece = ['.', '.'] then .up
  else .name (String.ofList piece)

/-- Pieces from the last to the first, from the last one that names something. -/
def dropMeaningless : List Piece → List Piece
  | [] => []
  | piece :: before =>
    if isMeaningful piece before.isEmpty then piece :: before else dropMeaningless before

/-- The last component, if the path has one below its root. -/
def last? (path : String) : Option Component :=
  (dropMeaningless (pieces path).reverse).head?.map componentOf

/-- A path that ends in dots has no file name. -/
def fileName? (path : String) : Option String :=
  match last? path with
  | some (.name s) => some s
  | _ => none

/-- The path without its last component; the parent of a single name is the empty path. -/
def parent? (path : String) : Option String :=
  match dropMeaningless (pieces path).reverse with
  | [] => none
  | _ :: before =>
    match dropMeaningless before with
    | [] => some (if isAbsolute path then "/" else "")
    | kept => some (String.ofList (List.intercalate ['/'] kept.reverse))

/-- An absolute path replaces the directory. -/
def join (dir path : String) : String :=
  if isAbsolute path || dir.isEmpty then path
  else if dir.toList.getLast? == some '/' then dir ++ path
  else dir ++ "/" ++ path

end BatchExport.Path
