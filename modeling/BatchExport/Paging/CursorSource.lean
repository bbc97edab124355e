import BatchExport.Paging.Page

/-! Records pulled one by one through pages that name their continuation. -/
namespace BatchExport

structure CursorSource (ρ : Type) where
  label : String
  pageSize : Nat
  start : String
  /-- The marker of the next request; none after the last page. -/
  mark : Option String
  buffer : List ρ
  /-- Successful fetches. -/
  fetches : Nat
  state : SourceState
  deriving Repr

namespace CursorSource

variable {σ ρ : Type}

/-- The first marker is the upper end of the range. -/
def new (label : String) (pageSize : Nat) (start stop : String) : CursorSource ρ :=
  { label, pageSize := max pageSize 1, start, mark := some stop, buffer := [], fetches := 0, state := .active }

def request (s : CursorSource ρ) (marker : String) : PageRequest :=
  { limit := s.pageSize, position := .cursor marker, rangeStart := some s.start, rangeEnd := some marker }

/-- An empty page with the marker just asked for would repeat for ever, so it ends the source. -/
def accept (s : CursorSource ρ) (marker : String) (page : Page ρ) : CursorSource ρ :=
  let s := { s with fetches := s.fetches + 1 }
  if page.records.isEmpty && page.next == some marker then { s with mark := none, state := .exhausted }
  else { s with mark := page.next, buffer := page.records }

def abort (s : CursorSource ρ) (marker : String) (f : Failure) : CursorSource ρ :=
  { s with state := .aborted (s.label ++ " failed at marker " ++ marker ++ ": " ++ f.message) }

/-- Fetch until records arrive or nothing follows; `fuel` bounds the fetches. -/
def fill (fetch : Fetch σ ρ) : Nat → Effect (CursorSource ρ × σ) Unit
  | fuel => .ofRun fun (s, w) => go fuel s w
where
  go : Nat → CursorSource ρ → σ → Option (Effect.Outcome (CursorSource ρ × σ) Unit)
    | fuel, s, w =>
      if !s.buffer.isEmpty || s.state == .exhausted then some (.ok (), s, w)
      else match s.mark, fuel with
        | none, _ => some (.ok (), { s with state := .exhausted }, w)
        | some _, 0 => none
        | some marker, fuel + 1 =>
          match (fetch (s.request marker)).run w with
          | none => none
          | some (.error f, w) => some (.error f, s.abort marker f, w)
          | some (.ok page, w) => go fuel (s.accept marker page) w

def pop (s : CursorSource ρ) : Option ρ × CursorSource ρ :=
  match s.buffer with
  | r :: rest => (some r, { s with buffer := rest })
  | [] => (none, { s with state := .exhausted })

/-- The next record. -/
def next (fuel : Nat) (fetch : Fetch σ ρ) : Effect (CursorSource ρ × σ) (Option ρ) :=
  .ofRun fun (s, w) =>
    match s.state.settled? ρ with
    | some answer => some (answer, s, w)
    | none =>
      ((fill fetch fuel).run (s, w)).map fun
        | (.ok (), s, w) =>
          let (r, s) := s.pop
          (.ok r, s, w)
        | (.error f, s, w) => (.error f, s, w)

def isExhausted (s : CursorSource ρ) : Bool := s.state == .exhausted

end CursorSource
end BatchExport
