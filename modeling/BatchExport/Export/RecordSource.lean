import BatchExport.Config.Settings
import BatchExport.Json.Value
import BatchExport.Paging.CursorSource
import BatchExport.Paging.OffsetSource

/-! The records of a configured source, in either paging mode. -/
namespace BatchExport

inductive RecordSource where
  | offset (s : OffsetSource Json)
  | cursor (s : CursorSource Json)

namespace RecordSource

variable {σ : Type}

def missingRange (name : String) : Failure :=
  .configuration ("sources." ++ name ++ ": cursor pagination requires range_start and range_end")

/-- Only a cursor needs to know its range. -/
def ofSettings (name : String) (s : SourceSettings) : Except Failure RecordSource :=
  match s.paging, s.rangeStart, s.rangeEnd with
  | .offset, first, last => .ok (.offset (.new name s.pageSize s.startOffset s.maxItems first last))
  | .cursor, some first, some last => .ok (.cursor (.new name s.pageSize first last))
  | .cursor, _, _ => .error (missingRange name)

/-- The next record; `fuel` bounds the fetches for it. -/
def next (fuel : Nat) (fetch : Fetch σ Json) : Effect (RecordSource × σ) (Option Json) :=
  .ofRun fun
    | (offset s, w) => ((OffsetSource.next fetch).run (s, w)).map fun (r, s, w) => (r, offset s, w)
    | (cursor s, w) => ((CursorSource.next fuel fetch).run (s, w)).map fun (r, s, w) => (r, cursor s, w)

end RecordSource
end BatchExport
