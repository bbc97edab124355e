import BatchExport.Decimal.Power
import BatchExport.Json.Value

/-! Typed readings of JSON-like values. Unknown members are ignored. -/
namespace BatchExport.Json

/-- How a data format spells records that are not tables. -/
structure Dialect where
  /-- A record written as a list may not have more items than fields. -/
  exactLength : Bool
  /-- Payloads that a name without data may carry. -/
  emptyPayload : Json → Bool

/-- JSON: a listed record has exactly its fields, and a name alone may carry null. -/
def Dialect.json : Dialect where
  exactLength := true
  emptyPayload
    | .null => true
    | _ => false

/-- The members of a record: by name, or by position in the order of its fields. -/
structure Fields where
  named : Bool
  get : String → Option Json

def fields? (dialect : Dialect) (names : List String) : Json → Option Fields
  | .object members => some ⟨true, fun key => members.lookup key⟩
  | .array items =>
    if dialect.exactLength && names.length < items.length then none
    else some ⟨false, fun key => (names.zip items).lookup key⟩
  | _ => none

namespace Fields

def required (f : Fields) (key : String) (read : Json → Option α) : Option α := f.get key >>= read

/-- A missing member takes its default; one of the wrong type does not. -/
def withDefault (f : Fields) (key : String) (read : Json → Option α) (default : α) : Option α :=
  match f.get key with
  | some v => read v
  | none => some default

/-- A member that may be null; by name it may also be missing. -/
def nullable (f : Fields) (key : String) (read : Json → Option α) : Option (Option α) :=
  match f.get key with
  | some .null => some none
  | some v => (read v).map some
  | none => if f.named then some none else none

end Fields

/-- Null or a value. -/
def option? (read : Json → Option α) : Json → Option (Option α)
  | .null => some none
  | v => (read v).map some

def natUpTo? (bound : Nat) (j : Json) : Option Nat := j.nat?.filter (· ≤ bound)

/-- An unsigned number of 64 bits. -/
def word? (j : Json) : Option Nat := natUpTo? maxWord j

/-- Any number, as a double. -/
def real? : Json → Option Binary64
  | .number (.real x) => some x
  | .number (.integer n) => some (Binary64.ofFloat (if n < 0 then -(n.natAbs.toFloat) else n.natAbs.toFloat))
  | _ => none

def list? (read : Json → Option α) (j : Json) : Option (List α) := j.items? >>= List.mapM read

/-- The members of an object in key order. -/
def table? (read : Json → Option α) (j : Json) : Option (List (String × α)) :=
  j.members? >>= List.mapM fun (k, v) => (read v).map (k, ·)

/-- A name without data: a text, or a table of that one name with an empty payload. -/
def name? (dialect : Dialect) : Json → Option String
  | .string s => some s
  | .object [(s, payload)] => if dialect.emptyPayload payload then some s else none
  | _ => none

end BatchExport.Json
