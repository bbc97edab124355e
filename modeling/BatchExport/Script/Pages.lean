import BatchExport.Paging.Page

/-! Pages that are known in advance. -/
namespace BatchExport

structure PageScript (ρ : Type) where
  answers : List (Except Failure (Page ρ)) := []
  /-- If it is there, pages are parts of it. -/
  collection : Option (List ρ) := none
  requests : List PageRequest := []

namespace PageScript

variable {ρ : Type}

def exhausted : Failure := .remoteUnavailable (.connectionFailed "script exhausted")

/-- The part of a collection that a request asks for; a collection has no markers. -/
def part (records : List ρ) (r : PageRequest) : Page ρ :=
  let skip := match r.position with
    | .offset n => n
    | .cursor _ => 0
  ⟨(records.drop skip).take r.limit, none⟩

def fetch : Fetch (PageScript ρ) ρ := fun request => .ofStep fun s =>
  let s := { s with requests := s.requests ++ [request] }
  match s.collection, s.answers with
  | some records, _ => (.ok (part records request), s)
  | none, answer :: rest => (answer, { s with answers := rest })
  | none, [] => (.error exhausted, s)

end PageScript
end BatchExport
