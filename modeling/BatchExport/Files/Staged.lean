import BatchExport.Effect
import BatchExport.Files.Tree
import BatchExport.Json.Printer
import BatchExport.Text.Csv

/-! Staged output: exported records as JSON lines, and skipped ones as rows of an errors file. -/
namespace BatchExport

/-- A failing change of the tree, as a failure of the worker. -/
def FileTree.Change.effect (change : FileTree.Change α) (describe : FileFault → Failure) : Effect FileTree α :=
  .ofStep fun t =>
    let (r, t) := change t
    (r.mapError describe, t)

/-- A file that is written from front to back through a buffer. -/
structure StagedFile where
  location : Location
  /-- Characters that have left the buffer. -/
  position : Nat
  buffer : List Char
  deriving DecidableEq, Repr

namespace StagedFile

/-- Bytes that the buffer holds. -/
def bufferSize : Nat := 8192

def byteSize (text : List Char) : Nat := text.foldr (fun c n => c.utf8Size + n) 0

def flush (f : StagedFile) (t : FileTree) : StagedFile × FileTree :=
  ({ f with position := f.position + f.buffer.length, buffer := [] }, t.writeAt f.location f.position f.buffer)

/-- What does not fit into the buffer goes out first; a text as large as the buffer goes around it. -/
def push (text : List Char) (f : StagedFile) (t : FileTree) : StagedFile × FileTree :=
  let (f, t) := if byteSize f.buffer + byteSize text > bufferSize then f.flush t else (f, t)
  if byteSize text ≥ bufferSize then
    ({ f with position := f.position + text.length }, t.writeAt f.location f.position text)
  else ({ f with buffer := f.buffer ++ text }, t)

end StagedFile

structure StagedOutput where
  recordsPath : String
  records : StagedFile
  errorsPath : String
  /-- Made when the first record is skipped. -/
  errors : Option StagedFile
  deriving DecidableEq, Repr

namespace StagedOutput

def createFailure (path : String) (fault : FileFault) : Failure :=
  .storage ("Failed to create " ++ path ++ ": " ++ fault.message)

def open_ (path : String) : Effect FileTree StagedFile := do
  let location ← (FileTree.create path).effect (createFailure path)
  return { location, position := 0, buffer := [] }

/-- The records file is there from the start, so that an export of nothing has an empty one. -/
def create (recordsPath errorsPath : String) : Effect FileTree StagedOutput := do
  match Path.parent? recordsPath with
  | some dir => (FileTree.makeDirs dir).effect (createFailure dir)
  | none => pure ()
  return { recordsPath, records := ← open_ recordsPath, errorsPath, errors := none }

def line (record : Json) : List Char := record.write ++ ['\n']

def header : List Char := Csv.writeRow ["record".toList, "error".toList]

/-- The row of a skipped record; a failure that does not name its record leaves the first field empty. -/
def row : Failure → List Char
  | .partialFailure record reason => Csv.writeRow [record.toList, reason.toList]
  | other => Csv.writeRow [[], other.message.toList]

def pushRecords (items : List Json) (o : StagedOutput) (t : FileTree) : StagedOutput × FileTree :=
  items.foldl (fun (o, t) item =>
    let (records, t) := o.records.push (line item) t
    ({ o with records }, t)) (o, t)

def write (items : List Json) : Effect (StagedOutput × FileTree) Unit :=
  .ofChange fun (o, t) => ((), pushRecords items o t)

/-- The errors file, made with its header if it is not there yet. -/
def errorsFile : Effect (StagedOutput × FileTree) StagedFile :=
  .ofRun fun (o, t) =>
    match o.errors with
    | some f => some (.ok f, o, t)
    | none => ((open_ o.errorsPath).run t).map fun
      | (.ok f, t) =>
        let (f, t) := f.push header t
        (.ok f, { o with errors := some f }, t)
      | (.error e, t) => (.error e, o, t)

def writeSkipped (failure : Failure) : Effect (StagedOutput × FileTree) Unit := do
  let f ← errorsFile
  .ofChange fun (o, t) =>
    let (f, t) := f.push (row failure) t
    ((), { o with errors := some f }, t)

/-- All that was written is in the files afterwards. -/
def flush (o : StagedOutput) (t : FileTree) : StagedOutput × FileTree :=
  let (records, t) := o.records.flush t
  match o.errors with
  | none => ({ o with records }, t)
  | some f =>
    let (f, t) := f.flush t
    ({ o with records, errors := some f }, t)

def close : Effect (StagedOutput × FileTree) Unit := .ofChange fun (o, t) => ((), flush o t)

end StagedOutput
end BatchExport
