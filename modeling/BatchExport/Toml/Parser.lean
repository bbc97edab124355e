import BatchExport.Json.Decode
import BatchExport.Toml.Scalar
import BatchExport.Toml.Table

/-! Reading TOML documents. Arrays, inline tables and dotted keys may nest 79 deep. -/
namespace BatchExport.Toml

def depthLimit : Nat := 80

def skipBlank (cs : List Char) : List Char := cs.dropWhile isBlank

/-- A comment runs to the end of its line. -/
def skipComment : List Char → List Char
  | '#' :: rest => rest.dropWhile isPlain
  | cs => cs

/-- Blanks, newlines and comments. -/
def skipLines : Nat → List Char → List Char
  | 0, cs => cs
  | n + 1, cs =>
    match skipBlank cs with
    | '#' :: rest => skipLines n (skipComment ('#' :: rest))
    | rest => match newline? rest with
      | some rest => skipLines n rest
      | none => rest

/-- The end of a line, after blanks and a comment. -/
def lineEnd (cs : List Char) : Option (List Char) :=
  match skipComment (skipBlank cs) with
  | [] => some []
  | rest => newline? rest

def isBareKeyChar (c : Char) : Bool := c.isAlphanum || c == '_' || c == '-'

def simpleKey (cs : List Char) : Option (String × List Char) :=
  match short? cs with
  | some (text, rest) => some (String.ofList text, rest)
  | none =>
    let run := cs.takeWhile isBareKeyChar
    if run.isEmpty then none else some (String.ofList run, cs.drop run.length)

/-- The parts of a dotted key, with blanks around them. -/
def keyParts : Nat → List Char → Option (List String × List Char)
  | 0, _ => none
  | n + 1, cs => do
    let (part, rest) ← simpleKey (skipBlank cs)
    match skipBlank rest with
    | '.' :: rest => do
      let (more, rest) ← keyParts n rest
      return (part :: more, rest)
    | rest => some ([part], rest)

/-- A key as the path to its table and its last part. -/
def key (cs : List Char) : Option ((List String × String) × List Char) := do
  let (parts, rest) ← keyParts (cs.length + 1) cs
  if parts.length ≥ depthLimit then none
  return ((parts.dropLast, ← parts.getLast?), rest)

mutual

/-- One value; `depth` counts the brackets around it. -/
def value : Nat → Nat → List Char → Option (Json × List Char)
  | 0, _, _ => none
  | n + 1, depth, cs =>
    match cs with
    | '[' :: rest => if depth + 1 ≥ depthLimit then none else do
      let (items, rest) ← items n (depth + 1) rest
      return (.array items, rest)
    | '{' :: rest => if depth + 1 ≥ depthLimit then none else
      match skipBlank rest with
      | '}' :: rest => some (.object [], rest)
      | _ => do
        let (t, rest) ← inlineMembers n (depth + 1) Table.empty rest
        return (t.toJson, rest)
    | '"' :: _ | '\'' :: _ => (quoted? cs).map fun (text, rest) => (.string (String.ofList text), rest)
    | _ => scalar? cs

/-- Items up to the closing bracket; a comma may stand after the last one. -/
def items : Nat → Nat → List Char → Option (List Json × List Char)
  | 0, _, _ => none
  | n + 1, depth, cs =>
    match skipLines cs.length cs with
    | ']' :: rest => some ([], rest)
    | cs => do
      let (item, rest) ← value n depth cs
      match skipLines rest.length rest with
      | ',' :: rest => do
        let (more, rest) ← items n depth rest
        return (item :: more, rest)
      | ']' :: rest => some ([item], rest)
      | _ => none

/-- Members up to the closing brace, on one line. -/
def inlineMembers : Nat → Nat → Table → List Char → Option (Table × List Char)
  | 0, _, _, _ => none
  | n + 1, depth, t, cs => do
    let ((path, last), rest) ← key cs
    match rest with
    | '=' :: rest => do
      let (v, rest) ← value n depth (skipBlank rest)
      let t ← t.insert path last v
      match skipBlank rest with
      | ',' :: rest => inlineMembers n depth t rest
      | '}' :: rest => some (t, rest)
      | _ => none
    | _ => none

end

/-- The table that key lines go to: the document itself, a table, or a new table of an array. -/
inductive Header where
  | document
  | table (path : List String) (key : String)
  | item (path : List String) (key : String)

/-- A document under construction: finished tables, and the open one with its header. -/
structure Draft where
  root : Table
  header : Header
  current : Table

namespace Draft

def start : Draft := ⟨.empty, .document, .empty⟩

/-- Put the open table in its place. -/
def finish (d : Draft) : Option Table :=
  match d.header with
  | .document => some d.current
  | .table path key => d.root.close path key d.current
  | .item path key => d.root.append path key d.current

def openTable (d : Draft) (path : List String) (key : String) : Option Draft := do
  let (current, root) ← (← d.finish).reopen path key
  return ⟨root, .table path key, current⟩

def openItem (d : Draft) (path : List String) (key : String) : Option Draft := do
  return ⟨← (← d.finish).announce path key, .item path key, .empty⟩

def insert (d : Draft) (path : List String) (key : String) (v : Json) : Option Draft := do
  return { d with current := ← d.current.insert path key v }

end Draft

/-- The lines of a document from here on. -/
def body : Nat → Draft → List Char → Option Draft
  | 0, _, _ => none
  | n + 1, d, cs =>
    match skipLines cs.length cs with
    | [] => some d
    | '[' :: '[' :: rest => do
      let ((path, last), rest) ← key rest
      match rest with
      | ']' :: ']' :: rest => do body n (← d.openItem path last) (← lineEnd rest)
      | _ => none
    | '[' :: rest => do
      let ((path, last), rest) ← key rest
      match rest with
      | ']' :: rest => do body n (← d.openTable path last) (← lineEnd rest)
      | _ => none
    | cs => do
      let ((path, last), rest) ← key cs
      match rest with
      | '=' :: rest => do
        let (v, rest) ← value (2 * rest.length + 2) 0 (skipBlank rest)
        body n (← d.insert path last v) (← lineEnd rest)
      | _ => none

/-- The table that a document describes. A byte order mark may stand in front. -/
def parse? (s : String) : Option Json := do
  let cs := match s.toList with
    | '\ufeff' :: rest => rest
    | cs => cs
  let d ← body (cs.length + 1) .start cs
  return (← d.finish).toJson

/-- A listed record may have more items than fields, and a name alone may carry an empty table or list. -/
def dialect : Json.Dialect where
  exactLength := false
  emptyPayload
    | .object [] | .array [] => true
    | _ => false

end BatchExport.Toml
