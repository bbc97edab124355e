/-! Finite maps as lists of entries in key order. -/
namespace BatchExport

/-- Entries of distinct texts in increasing order. -/
abbrev Entries (α : Type) := List (String × α)

namespace Entries

/-- Set the value of a key. -/
def put (key : String) (value : α) : Entries α → Entries α
  | [] => [(key, value)]
  | (k, v) :: rest =>
    if key < k then (key, value) :: (k, v) :: rest
    else if key = k then (key, value) :: rest
    else (k, v) :: put key value rest

def get? (entries : Entries α) (key : String) : Option α := entries.lookup key

def ofList (pairs : List (String × α)) : Entries α := pairs.foldl (fun es (k, v) => put k v es) []

def keys (entries : Entries α) : List String := entries.map (·.1)

end Entries
end BatchExport
