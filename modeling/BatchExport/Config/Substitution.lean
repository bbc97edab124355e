import BatchExport.Environment
import BatchExport.Text.Blank
import BatchExport.Text.Pieces

/-! Placeholders for environment variables in configuration texts: a name in braces after a dollar sign. -/
namespace BatchExport.Substitution

def isNameStart (c : Char) : Bool := ('A' ≤ c && c ≤ 'Z') || c == '_'

def isNameChar (c : Char) : Bool := isNameStart c || ('0' ≤ c && c ≤ '9')

/-- The name of the placeholder that starts here. -/
def placeholder? (cs : List Char) : Option (List Char) :=
  match cs with
  | '$' :: '{' :: rest =>
    let name := rest.takeWhile isNameChar
    match name, rest.drop name.length with
    | c :: _, '}' :: _ => if isNameStart c then some name else none
    | _, _ => none
  | _ => none

/-- The names of all placeholders, left to right. -/
def names (cs : List Char) : List (List Char) :=
  match cs with
  | [] => []
  | c :: rest =>
    match placeholder? (c :: rest) with
    | some name => name :: names rest
    | none => names rest

def placeholder (name : List Char) : List Char := '$' :: '{' :: name ++ ['}']

def isComment (line : List Char) : Bool := (Text.trimLeft line).head? == some '#'

/-- The names that a line asks for. -/
def lineNames (line : List Char) : List (List Char) := if isComment line then [] else names line

/-- One variable after the other takes the place of its placeholders. -/
def line (env : Environment) (cs : List Char) : List Char :=
  (lineNames cs).foldl (fun text name =>
    match Entries.get? env (String.ofList name) with
    | some value => Text.replaceAll (placeholder name) value.toList text
    | none => text) cs

/-- The names without a variable, each once, in the order of their first placeholders. -/
def missing (env : Environment) (lines : List (List Char)) : List String :=
  let asked := (lines.flatMap lineNames).map String.ofList
  (asked.filter fun name => (Entries.get? env name).isNone).foldl
    (fun seen name => if seen.contains name then seen else seen ++ [name]) []

/-- Every line ends in a newline afterwards. Fails with the names of the missing variables. -/
def apply (env : Environment) (text : String) : Except (List String) String :=
  let lines := Text.lines text.toList
  match missing env lines with
  | [] => .ok (String.ofList (lines.flatMap fun l => line env l ++ ['\n']))
  | names => .error names

end BatchExport.Substitution
