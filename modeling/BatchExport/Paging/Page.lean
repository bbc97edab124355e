import BatchExport.Effect

/-! Pages of a remote collection and the requests for them. -/
namespace BatchExport

/-- Where a page starts. -/
inductive PagePosition where
  /-- So many records are skipped. -/
  | offset (n : Nat)
  /-- The upper bound of what remains. -/
  | cursor (marker : String)
  deriving DecidableEq, Repr

def PagePosition.label : PagePosition → String
  | offset n => s!"offset {n}"
  | cursor marker => "cursor " ++ marker

structure PageRequest where
  limit : Nat
  position : PagePosition
  rangeStart : Option String
  rangeEnd : Option String
  deriving DecidableEq, Repr

structure Page (ρ : Type) where
  records : List ρ
  /-- Without a marker nothing follows. -/
  next : Option String
  deriving Repr

/-- Answers page requests. -/
abbrev Fetch (σ ρ : Type) := PageRequest → Effect σ (Page ρ)

/-- A source never starts again once it has ended or failed. -/
inductive SourceState where
  | active
  | exhausted
  | aborted (reason : String)
  deriving DecidableEq, Repr

/-- What a pull answers without looking further. -/
def SourceState.settled? (ρ : Type) : SourceState → Option (Except Failure (Option ρ))
  | active => none
  | exhausted => some (.ok none)
  | aborted reason => some (.error (.sourceAborted reason))

end BatchExport
