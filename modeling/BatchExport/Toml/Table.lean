import BatchExport.Json.Value

/-! Tables of a TOML document under construction: which of them may still grow, and how. -/
namespace BatchExport.Toml

mutual

inductive Node where
  /-- A finished value; arrays and inline tables do not grow. -/
  | leaf (value : Json)
  | table (t : Table)
  /-- An array of tables, the last one open. -/
  | tables (ts : List Table)

/-- A table that no header has named yet is implied; dotted keys make dotted tables. -/
inductive Table where
  | mk (implied dotted : Bool) (members : List (String × Node))

end

namespace Table

def isImplied : Table → Bool
  | mk implied _ _ => implied

def isDotted : Table → Bool
  | mk _ dotted _ => dotted

def members : Table → List (String × Node)
  | mk _ _ members => members

/-- A table named by a header, or the document itself. -/
def empty : Table := mk false false []

def find? (t : Table) (key : String) : Option Node := t.members.lookup key

/-- Set a member, in place if the key is there. -/
def set (t : Table) (key : String) (node : Node) : Table :=
  let replaced := t.members.map fun (k, old) => (k, if k = key then node else old)
  mk t.isImplied t.isDotted (if (t.find? key).isSome then replaced else t.members ++ [(key, node)])

def remove (t : Table) (key : String) : Table :=
  mk t.isImplied t.isDotted (t.members.filter fun (k, _) => k ≠ key)

/-- Change the table at a path and take something out of it. Missing tables are implied; through an array of
tables leads its last one. A dotted key does not enter tables that a header has named. -/
def withTable (dotted : Bool) (path : List String) (change : Table → Option (α × Table)) (t : Table) :
    Option (α × Table) :=
  match path with
  | [] => change t
  | key :: rest =>
    match t.find? key with
    | none => do
      let (a, child) ← withTable dotted rest change (mk true dotted [])
      return (a, t.set key (.table child))
    | some (.leaf _) => none
    | some (.tables ts) => do
      let (a, last) ← withTable dotted rest change (← ts.getLast?)
      return (a, t.set key (.tables (ts.dropLast ++ [last])))
    | some (.table child) =>
      if dotted && !child.isImplied then none
      else do
        let (a, child) ← withTable dotted rest change child
        return (a, t.set key (.table child))

def change (dotted : Bool) (path : List String) (f : Table → Option Table) (t : Table) : Option Table :=
  (t.withTable dotted path fun target => (f target).map ((), ·)).map (·.2)

/-- Add a value under a new key; its table must have been made by keys of the same kind, plain or dotted. -/
def insert (path : List String) (key : String) (value : Json) (t : Table) : Option Table :=
  t.change true path fun target =>
    if target.isDotted == path.isEmpty || (target.find? key).isSome then none
    else some (target.set key (.leaf value))

/-- Take out the table that a header continues: one that is implied and not dotted, or a new one. -/
def reopen (path : List String) (key : String) (t : Table) : Option (Table × Table) :=
  t.withTable false path fun target =>
    match target.find? key with
    | none => some (empty, target)
    | some (.table old) =>
      if old.isImplied && !old.isDotted then some (mk false false old.members, target.remove key) else none
    | some _ => none

/-- Close a table that a header has opened. -/
def close (t : Table) (path : List String) (key : String) (closed : Table) : Option Table :=
  t.change false path fun target =>
    match target.find? key with
    | none => some (target.set key (.table closed))
    | some (.table old) => if old.isImplied then some (target.set key (.table closed)) else none
    | some _ => none

/-- Announce an array of tables, so that its name is taken. -/
def announce (path : List String) (key : String) (t : Table) : Option Table :=
  t.change false path fun target =>
    match target.find? key with
    | none => some (target.set key (.tables []))
    | some (.tables _) => some target
    | some _ => none

/-- Add a finished table to an array of tables. -/
def append (t : Table) (path : List String) (key : String) (closed : Table) : Option Table :=
  t.change false path fun target =>
    match target.find? key with
    | none => some (target.set key (.tables [closed]))
    | some (.tables ts) => some (target.set key (.tables (ts ++ [closed])))
    | some _ => none

end Table

mutual

def Node.toJson : Node → Json
  | .leaf value => value
  | .table t => t.toJson
  | .tables ts => .array (listToJson ts)

def Table.toJson : Table → Json
  | .mk _ _ members => .ofMembers (membersToJson members)

def membersToJson : List (String × Node) → List (String × Json)
  | [] => []
  | (key, node) :: rest => (key, node.toJson) :: membersToJson rest

def listToJson : List Table → List Json
  | [] => []
  | t :: rest => t.toJson :: listToJson rest

end
end BatchExport.Toml
