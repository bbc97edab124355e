import BatchExport.Paging.Page

/-! Records pulled one by one through pages of a fixed stride. -/
namespace BatchExport

structure OffsetSource (ρ : Type) where
  label : String
  /-- The stride; longer pages are cut to it. -/
  pageSize : Nat
  /-- Where the next page starts. -/
  offset : UInt64
  maxItems : Option Nat
  rangeStart : Option String
  rangeEnd : Option String
  buffer : List ρ
  delivered : Nat
  /-- Successful fetches. -/
  fetches : Nat
  state : SourceState
  deriving Repr

namespace OffsetSource

variable {σ ρ : Type}

/-- A page holds at least one record. -/
def new (label : String) (pageSize : Nat) (offset : UInt64 := 0) (maxItems : Option Nat := none)
    (rangeStart rangeEnd : Option String := none) : OffsetSource ρ :=
  { label, pageSize := max pageSize 1, offset, maxItems, rangeStart, rangeEnd, buffer := [], delivered := 0
    fetches := 0, state := .active }

def request (s : OffsetSource ρ) : PageRequest :=
  { limit := s.pageSize, position := .offset s.offset.toNat, rangeStart := s.rangeStart, rangeEnd := s.rangeEnd }

/-- The offset moves by the stride whatever the page holds, and starts again from 0 past its greatest value. An empty
page ends the source. -/
def accept (s : OffsetSource ρ) (page : Page ρ) : OffsetSource ρ :=
  { s with
    offset := s.offset + .ofNat s.pageSize
    fetches := s.fetches + 1
    buffer := page.records.take s.pageSize
    state := if page.records.isEmpty then .exhausted else s.state }

def abort (s : OffsetSource ρ) (f : Failure) : OffsetSource ρ :=
  { s with state := .aborted (s.label ++ s!" failed at offset {s.offset}: " ++ f.message) }

/-- The next buffered record, or the end. -/
def pop (s : OffsetSource ρ) : Option ρ × OffsetSource ρ :=
  match s.buffer with
  | r :: rest => (some r, { s with buffer := rest, delivered := s.delivered + 1 })
  | [] => (none, { s with state := .exhausted })

def isFull (s : OffsetSource ρ) : Bool := s.maxItems.any (· ≤ s.delivered)

/-- The next record. A page is fetched only when all records before it are delivered. -/
def next (fetch : Fetch σ ρ) : Effect (OffsetSource ρ × σ) (Option ρ) :=
  .ofRun fun (s, w) =>
    match s.state.settled? ρ with
    | some answer => some (answer, s, w)
    | none =>
      if s.isFull then some (.ok none, { s with state := .exhausted, buffer := [] }, w)
      else if s.buffer.isEmpty then
        ((fetch s.request).run w).map fun
          | (.ok page, w) =>
            let (r, s) := (s.accept page).pop
            (.ok r, s, w)
          | (.error f, w) => (.error f, s.abort f, w)
      else
        let (r, s) := s.pop
        some (.ok r, s, w)

def isExhausted (s : OffsetSource ρ) : Bool := s.state == .exhausted

end OffsetSource
end BatchExport
