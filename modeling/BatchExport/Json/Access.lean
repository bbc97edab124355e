import BatchExport.Json.Value

/-! Lenient readings of objects: a member that is missing or of another type takes a default. -/
namespace BatchExport.Json

def member (j : Json) (key : String) : Json := (j.get? key).getD .null

/-- A member that is there, and neither null nor false. -/
def has (j : Json) (key : String) : Bool :=
  match j.member key with
  | .null | .bool false => false
  | _ => true

def textAt? (j : Json) (key : String) : Option String := (j.member key).text?

def textAt (j : Json) (key : String) : String := (j.textAt? key).getD ""

def natAt? (j : Json) (key : String) : Option Nat := (j.member key).nat?

def natAt (j : Json) (key : String) (default : Nat) : Nat := (j.natAt? key).getD default

def listAt (j : Json) (key : String) : List Json := ((j.member key).items?).getD []

def textsAt (j : Json) (key : String) : List String := (j.listAt key).filterMap text?

def tableAt (j : Json) (key : String) : List (String × Json) := ((j.member key).members?).getD []

end BatchExport.Json
