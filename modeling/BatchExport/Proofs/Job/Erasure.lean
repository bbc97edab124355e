import BatchExport.Job.ChunkStep
import BatchExport.Proofs.Effect

/-! Flows that keep more than others beside their state. Main statement: a step does the same with either. -/
namespace BatchExport

variable {σ τ α ι ο : Type} {part : τ → σ}

/-- On a part of its state the one flow does what the other one does. -/
structure ItemFlow.Erases (part : τ → σ) (big : ItemFlow τ ι ο) (small : ItemFlow σ ι ο) : Prop where
  stopRequested : ∀ t, big.stopRequested t = small.stopRequested (part t)
  next : big.next.Erases part small.next
  process : ∀ item, (big.process item).Erases part (small.process item)
  write : ∀ items, (big.write items).Erases part (small.write items)
  writeSkipped : ∀ f, (big.writeSkipped f).Erases part (small.writeSkipped f)
  close : big.close.Erases part small.close

namespace ChunkStep

variable {name : String} {chunkSize room : Nat} {big : ItemFlow τ ι ο} {small : ItemFlow σ ι ο}

private theorem erases_onFlow {big : Effect τ α} {small : Effect σ α} (h : big.Erases part small) :
    (onFlow big).Erases (Prod.map id part) (onFlow small) := by
  intro x
  unfold onFlow Effect.onPart
  rw [Effect.run_ofRun, Effect.run_ofRun]
  change _ = (small.run (part x.2)).map _
  rw [← h x.2]
  cases big.run x.2 <;> rfl

private theorem erases_count (f : StepRun → StepRun) :
    (count f : Effect (StepRun × τ) Unit).Erases (Prod.map id part) (count f) := fun _ => rfl

variable (h : big.Erases part small)
include h

private theorem erases_isStopped :
    (isStopped ⟨name, chunkSize, room, big⟩).Erases (Prod.map id part) (isStopped ⟨name, chunkSize, room, small⟩) := by
  intro x
  dsimp only [isStopped, Effect.ofChange, Effect.ofStep, Effect.run_ofRun, Option.map_some, Prod.map]
  rw [h.stopRequested]

private theorem erases_flush (chunk : List ο) :
    (flush ⟨name, chunkSize, room, big⟩ chunk).Erases (Prod.map id part) (flush ⟨name, chunkSize, room, small⟩ chunk) := by
  unfold flush
  split
  · exact .pure ()
  · exact .bind (erases_onFlow (h.write chunk)) fun _ => erases_count _

private theorem erases_handle (chunk : List ο) (item : ι) :
    (handle ⟨name, chunkSize, room, big⟩ chunk item).Erases (Prod.map id part)
      (handle ⟨name, chunkSize, room, small⟩ chunk item) := by
  rw [handle]
  refine .bind (erases_count _) fun _ => .bind (erases_onFlow (h.process item)).attempt fun outcome => ?_
  cases outcome with
  | ok output? =>
    cases output? with
    | some output => exact .pure _
    | none => exact .bind (erases_count _) fun _ => .pure _
  | error f =>
    dsimp only
    split
    · exact .bind (erases_count _) fun _ => .bind (erases_onFlow (h.writeSkipped f)) fun _ => .pure _
    · exact .throw f

private theorem erases_settle (chunk : List ο) :
    (settle ⟨name, chunkSize, room, big⟩ chunk).Erases (Prod.map id part) (settle ⟨name, chunkSize, room, small⟩ chunk) := by
  unfold settle size
  dsimp only
  split
  · exact .pure _
  · exact .bind (erases_flush h chunk) fun _ => .pure _

private theorem erases_drain (fuel : Nat) (chunk : List ο) :
    (drain ⟨name, chunkSize, room, big⟩ fuel chunk).Erases (Prod.map id part)
      (drain ⟨name, chunkSize, room, small⟩ fuel chunk) := by
  induction fuel generalizing chunk with
  | zero =>
    rw [drain, drain]
    refine .bind (erases_isStopped h) fun stopped => ?_
    cases stopped with
    | true => exact .bind (erases_flush h chunk) fun _ => .pure _
    | false => exact .endless
  | succ fuel ih =>
    rw [drain, drain]
    refine .bind (erases_isStopped h) fun stopped => ?_
    cases stopped with
    | true => exact .bind (erases_flush h chunk) fun _ => .pure _
    | false =>
      refine .bind (erases_onFlow h.next) fun item? => ?_
      cases item? with
      | none => exact .bind (erases_flush h chunk) fun _ => .pure _
      | some item =>
        exact .bind (erases_handle h chunk item) fun chunk => .bind (erases_settle h chunk) fun chunk => ih chunk

theorem erases_body (fuel : Nat) :
    (body ⟨name, chunkSize, room, big⟩ fuel).Erases (Prod.map id part) (body ⟨name, chunkSize, room, small⟩ fuel) := by
  rw [body]
  exact .bind (erases_drain h fuel []) fun _ => .bind (erases_onFlow h.close) fun _ => .pure _

theorem erases_execute (fuel : Nat) (now : Instant) :
    (execute ⟨name, chunkSize, room, big⟩ fuel now).Erases (Prod.map id part)
      (execute ⟨name, chunkSize, room, small⟩ fuel now) := by
  rintro ⟨e, x⟩
  dsimp only [Prod.map, id]
  have hbody : (body ⟨name, chunkSize, room, big⟩ fuel).Erases (Prod.map id part)
      (body ⟨name, chunkSize, room, small⟩ fuel) := erases_body h fuel
  have hbody := hbody ({ name }, x)
  dsimp only [Prod.map, id] at hbody
  by_cases hroom : size ⟨name, chunkSize, room, big⟩ ≤ room
  · rw [run_execute hroom, run_execute (s := ⟨name, chunkSize, room, small⟩) hroom, ← hbody]
    cases (body ⟨name, chunkSize, room, big⟩ fuel).run ({ name }, x) with
    | none => rfl
    | some answer =>
      obtain ⟨ending, run, t⟩ := answer
      cases ending <;> rfl
  · have hless : room < size ⟨name, chunkSize, room, big⟩ := Nat.lt_of_not_le hroom
    rw [run_execute_of_lt hless, run_execute_of_lt (s := ⟨name, chunkSize, room, small⟩) hless]
    rfl

end ChunkStep
end BatchExport
