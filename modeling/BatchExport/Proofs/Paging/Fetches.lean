import BatchExport.Paging.Page
import BatchExport.Proofs.Effect

/-! Fetches with a log, and servers by what they answer. Main statement: a server of an unchanging collection gives a
reader that cuts its pages exactly the part that the reader asks for. -/
namespace BatchExport

variable {σ ρ : Type}

/-- A fetch as it happened, with what it found and what it left behind. -/
structure FetchRecord (σ ρ : Type) where
  request : PageRequest
  answer : Except Failure (Page ρ)
  before : σ
  after : σ

namespace Fetch

/-- The same fetches with a log beside the state. -/
def logged (fetch : Fetch σ ρ) : Fetch (List (FetchRecord σ ρ) × σ) ρ := fun request =>
  .ofRun fun (log, w) => ((fetch request).run w).map fun (answer, w') => (answer, log ++ [⟨request, answer, w, w'⟩], w')

theorem run_logged {fetch : Fetch σ ρ} {request : PageRequest} {answer : Except Failure (Page ρ)} {w w' : σ}
    (h : (fetch request).run w = some (answer, w')) (log : List (FetchRecord σ ρ)) :
    (fetch.logged request).run (log, w) = some (answer, log ++ [⟨request, answer, w, w'⟩], w') := by
  rw [logged, Effect.run_ofRun]
  dsimp only
  rw [h]
  rfl

theorem logged_some {fetch : Fetch σ ρ} {request : PageRequest} {answer : Except Failure (Page ρ)}
    {log log' : List (FetchRecord σ ρ)} {w w' : σ}
    (h : (fetch.logged request).run (log, w) = some (answer, log', w')) :
    log' = log ++ [⟨request, answer, w, w'⟩] := by
  obtain ⟨⟨answer', w₁⟩, -, heq⟩ := Option.map_eq_some_iff.mp h
  cases heq
  rfl

/-- Such a request is answered, at every offset, with what follows the offset: at least as much as is asked for, as long
as there is as much, and at most all of it. -/
def Serves (fetch : Fetch σ ρ) (collection : List ρ) (request : PageRequest) : Prop :=
  ∀ (offset : UInt64) w, ∃ page w',
    (fetch { request with position := .offset offset.toNat }).run w = some (.ok page, w') ∧
      page.records <+: collection.drop offset.toNat ∧
      min request.limit (collection.length - offset.toNat) ≤ page.records.length

/-- Cut to the size that was asked for, the answer of a server is the part that was asked for. -/
theorem take_of_serves {collection records : List ρ} {size offset : Nat} (hpart : records <+: collection.drop offset)
    (hlength : min size (collection.length - offset) ≤ records.length) :
    records.take size = (collection.drop offset).take size := by
  rw [List.prefix_iff_eq_take.mp hpart, List.take_take]
  by_cases hsize : size ≤ records.length
  · rw [Nat.min_eq_left hsize]
  · have hall : (collection.drop offset).length ≤ min size records.length := by
      rw [List.length_drop]
      omega
    have hcut : (collection.drop offset).length ≤ size := by omega
    rw [List.take_of_length_le hall, List.take_of_length_le hcut]

end Fetch
end BatchExport
