import BatchExport.Proofs.Paging.Fetches

/-! Servers that go by a script, and the answers of pulls one after the other. Main statement: which records the answers
hold, before and after the end. -/
namespace BatchExport

variable {ρ : Type}

/-- A server that goes by a script, whatever it is asked for. Its state is the number of fetches so far. -/
def Fetch.scripted (script : Nat → Except Failure (Page ρ)) : Fetch Nat ρ := fun _ => .ofStep fun n => (script n, n + 1)

/-- The records that the answer of a server holds. -/
def recordsOf : Except Failure (Page ρ) → List ρ
  | .ok page => page.records
  | .error _ => []

/-- The record that a pull answers. -/
def pulled? : Except Failure (Option ρ) → Option ρ
  | .ok record? => record?
  | .error _ => none

variable {records : List ρ}

/-- These records were answered one by one. -/
def answered (records : List ρ) : List (Except Failure (Option ρ)) := records.map fun record => .ok (some record)

theorem filterMap_answered (records : List ρ) : (answered records).filterMap pulled? = records := by
  rw [answered, List.filterMap_map]
  exact List.filterMap_some

theorem length_answered (records : List ρ) : (answered records).length = records.length := List.length_map _

theorem answered_snoc (records : List ρ) (record : ρ) :
    answered records ++ [.ok (some record)] = answered (records ++ [record]) := by
  rw [answered, answered, List.map_append]
  rfl

theorem exists_of_mem_answered {answer : Except Failure (Option ρ)} (h : answer ∈ answered records) :
    ∃ record, answer = .ok (some record) := by
  obtain ⟨record, -, rfl⟩ := List.mem_map.mp h
  exact ⟨record, rfl⟩

theorem none_not_mem_answered : .ok none ∉ answered records := by
  intro h
  obtain ⟨record, heq⟩ := exists_of_mem_answered h
  cases heq

theorem error_not_mem_answered : ¬ ∃ f, .error f ∈ answered records := by
  rintro ⟨f, h⟩
  obtain ⟨record, heq⟩ := exists_of_mem_answered h
  cases heq

theorem filterMap_ended (records : List ρ) (n : Nat) :
    (answered records ++ List.replicate n (Except.ok none)).filterMap pulled? = records := by
  rw [List.filterMap_append, filterMap_answered, List.filterMap_replicate_of_none rfl, List.append_nil]

theorem filterMap_aborted (records : List ρ) (n : Nat) (f f' : Failure) :
    (answered records ++ Except.error f :: List.replicate n (Except.error f')).filterMap pulled? = records := by
  rw [List.filterMap_append, filterMap_answered, List.filterMap_cons_none rfl,
    List.filterMap_replicate_of_none rfl, List.append_nil]

end BatchExport
