import BatchExport.Reference.Cache

/-! Reference entities that are known in advance, and the calls that ask for them. -/
namespace BatchExport

inductive ReferenceTable where
  | byId
  | byQuery
  deriving DecidableEq, Repr

structure ReferenceScript where
  entities : List ((ReferenceKind × String) × Except Failure Json) := []
  answers : List ((ReferenceKind × String) × Except Failure (List Json)) := []
  calls : List (ReferenceTable × ReferenceKind × String) := []

namespace ReferenceScript

/-- The newest entry of a key counts. -/
def setEntity (s : ReferenceScript) (kind : ReferenceKind) (id : String) (e : Except Failure Json) : ReferenceScript :=
  { s with entities := ((kind, id), e) :: s.entities }

def setAnswer (s : ReferenceScript) (kind : ReferenceKind) (query : String) (a : Except Failure (List Json)) :
    ReferenceScript :=
  { s with answers := ((kind, query), a) :: s.answers }

def call (table : ReferenceTable) (kind : ReferenceKind) (key : String) (s : ReferenceScript) : ReferenceScript :=
  { s with calls := s.calls ++ [(table, kind, key)] }

/-- An unknown id is not found; an unknown query finds nothing. -/
def lookup : ReferenceLookup ReferenceScript where
  byId kind id := .ofStep fun s =>
    ((s.entities.lookup (kind, id)).getD (.error (.notFound kind.label id)), s.call .byId kind id)
  byQuery kind query := .ofStep fun s =>
    ((s.answers.lookup (kind, query)).getD (.ok []), s.call .byQuery kind query)

end ReferenceScript
end BatchExport
