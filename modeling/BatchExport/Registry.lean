/-! Finite tables with one value per key. Main statements: what a look-up finds after a change. -/
namespace BatchExport

structure Registry (κ α : Type) where
  entries : List (κ × α) := []
  deriving DecidableEq, Repr

namespace Registry

variable {κ α : Type} [DecidableEq κ]

def empty : Registry κ α := {}

def get? (r : Registry κ α) (key : κ) : Option α := r.entries.lookup key

def contains (r : Registry κ α) (key : κ) : Bool := (r.get? key).isSome

def erase (r : Registry κ α) (key : κ) : Registry κ α := ⟨r.entries.filter fun e => e.1 ≠ key⟩

/-- Set the value of a key; the old one is lost. -/
def put (r : Registry κ α) (key : κ) (value : α) : Registry κ α := ⟨(key, value) :: (r.erase key).entries⟩

def size (r : Registry κ α) : Nat := r.entries.length

@[simp] theorem get?_empty (key : κ) : (empty : Registry κ α).get? key = none := rfl

theorem get?_erase (r : Registry κ α) (key other : κ) :
    (r.erase key).get? other = if other = key then none else r.get? other := by
  obtain ⟨es⟩ := r
  simp only [get?, erase]
  induction es with
  | nil => simp
  | cons e es ih => grind

theorem get?_put (r : Registry κ α) (key other : κ) (value : α) :
    (r.put key value).get? other = if other = key then some value else r.get? other := by
  have h : (r.put key value).get? other
      = if other = key then some value else (r.erase key).get? other := by
    by_cases h : other = key
    · simp [get?, put, h]
    · have hb : (other == key) = false := by simpa using h
      simp [get?, put, List.lookup_cons, h, hb]
  rw [h, get?_erase]
  grind

end Registry
end BatchExport
