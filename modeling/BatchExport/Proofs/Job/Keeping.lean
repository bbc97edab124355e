import BatchExport.Job.ChunkStep
import BatchExport.Proofs.Effect

/-! What a step leaves alone. Main statements: what all operations of its flow keep is kept by a step, and a step ends
early only if this was asked for. -/
namespace BatchExport

variable {σ ι ο : Type}

structure ItemFlow.Keeps (flow : ItemFlow σ ι ο) (rel : σ → σ → Prop) : Prop where
  next : flow.next.Keeps rel
  process : ∀ item, (flow.process item).Keeps rel
  write : ∀ items, (flow.write items).Keeps rel
  writeSkipped : ∀ f, (flow.writeSkipped f).Keeps rel
  close : flow.close.Keeps rel

/-- As `Keeps`, for pulls that are made where no stop is asked for. -/
structure ItemFlow.KeepsHeeding (flow : ItemFlow σ ι ο) (rel : σ → σ → Prop) : Prop where
  next : ∀ x, flow.stopRequested x = false → flow.next.Ensures x fun _ x' => rel x x'
  process : ∀ item, (flow.process item).Keeps rel
  write : ∀ items, (flow.write items).Keeps rel
  writeSkipped : ∀ f, (flow.writeSkipped f).Keeps rel
  close : flow.close.Keeps rel

theorem ItemFlow.Keeps.heeding {flow : ItemFlow σ ι ο} {rel : σ → σ → Prop} (h : flow.Keeps rel) :
    flow.KeepsHeeding rel where
  next := fun x _ => h.next x
  process := h.process
  write := h.write
  writeSkipped := h.writeSkipped
  close := h.close

namespace ChunkStep

variable {s : ChunkStep σ ι ο} {rel : σ → σ → Prop} {chunk : List ο} {run run' : StepRun} {x x' : σ}

private theorem onFlow_keeps {α : Type} {e : Effect σ α} (h : e.Keeps rel) :
    (onFlow e).Keeps fun x x' => rel x.2 x'.2 :=
  .onPart h fun _ _ hkeeps => hkeeps

variable (hrefl : ∀ x, rel x x)
include hrefl

private theorem count_keeps (f : StepRun → StepRun) :
    (count f : Effect (StepRun × σ) Unit).Keeps fun x x' => rel x.2 x'.2 := fun x =>
  .ofChange (hrefl x.2)

variable (htrans : ∀ {x y z}, rel x y → rel y z → rel x z)
include htrans

private theorem flush_keeps (hwrite : ∀ items, (s.flow.write items).Keeps rel) (chunk : List ο) :
    (s.flush chunk).Keeps fun x x' => rel x.2 x'.2 := by
  rw [flush]
  split
  · exact .pure (fun x => hrefl x.2) ()
  · exact .bind htrans (onFlow_keeps (hwrite chunk)) fun _ => count_keeps hrefl _

private theorem handle_keeps (h : s.flow.KeepsHeeding rel) (chunk : List ο) (item : ι) :
    (s.handle chunk item).Keeps fun x x' => rel x.2 x'.2 := by
  have hpure (chunk : List ο) : (pure chunk : Effect (StepRun × σ) (List ο)).Keeps fun x x' => rel x.2 x'.2 :=
    .pure (fun x => hrefl x.2) chunk
  rw [handle]
  refine .bind htrans (count_keeps hrefl _) fun _ => .bind htrans (onFlow_keeps (h.process item)).attempt fun outcome => ?_
  cases outcome with
  | ok output? =>
    cases output? with
    | some output => exact hpure _
    | none => exact .bind htrans (count_keeps hrefl _) fun _ => hpure chunk
  | error f =>
    dsimp only
    split
    · exact .bind htrans (count_keeps hrefl _) fun _ =>
        .bind htrans (onFlow_keeps (h.writeSkipped f)) fun _ => hpure chunk
    · exact .throw (fun x => hrefl x.2) f

private theorem settle_keeps (h : s.flow.KeepsHeeding rel) (chunk : List ο) :
    (s.settle chunk).Keeps fun x x' => rel x.2 x'.2 := by
  rw [settle]
  split
  · exact .pure (fun x => hrefl x.2) chunk
  · exact .bind htrans (flush_keeps hrefl htrans h.write chunk) fun _ => .pure (fun x => hrefl x.2) []

private theorem drain_keeps (h : s.flow.KeepsHeeding rel) (fuel : Nat) (chunk : List ο) :
    (s.drain fuel chunk).Keeps fun x x' => rel x.2 x'.2 := by
  have hend (ending : Ending) (chunk : List ο) :
      (do s.flush chunk; return ending).Keeps fun x x' => rel x.2 x'.2 :=
    .bind htrans (flush_keeps hrefl htrans h.write chunk) fun _ => .pure (fun x => hrefl x.2) ending
  have hasked (x : StepRun × σ) : s.isStopped.Ensures x fun r x' => r = .ok (s.flow.stopRequested x.2) ∧ x' = x :=
    .ofChange ⟨rfl, rfl⟩
  induction fuel generalizing chunk with
  | zero =>
    intro x
    rw [drain]
    refine .bind (hasked x) (fun stopped x' ⟨hstopped, hsame⟩ => ?_) fun _ _ ⟨hstopped, _⟩ => by cases hstopped
    split
    · rw [← hsame]
      exact hend .stopped chunk x'
    · intro r x' hrun
      cases hrun
  | succ fuel ih =>
    intro x
    rw [drain]
    refine .bind (hasked x) (fun stopped x' ⟨hstopped, hsame⟩ => ?_) fun _ _ ⟨hstopped, _⟩ => by cases hstopped
    cases hsame
    split
    · exact hend .stopped chunk x
    · -- A pull is made only here, where no stop is asked for.
      rename_i hgoing
      have hgo : s.flow.stopRequested x.2 = false := by
        cases hstopped
        exact Bool.not_eq_true _ ▸ hgoing
      have hpull : (onFlow s.flow.next).Ensures x fun _ x' => rel x.2 x'.2 := .onPart (h.next x.2 hgo)
      refine .bind hpull (fun item? y hxy => ?_) fun _ _ hxy => hxy
      refine Effect.Ensures.mono ?_ fun _ _ hrest => htrans hxy hrest
      cases item? with
      | none => exact hend .exhausted chunk y
      | some item =>
        have hitem : (s.handle chunk item >>= fun chunk => s.settle chunk >>= s.drain fuel).Keeps
            fun x x' => rel x.2 x'.2 :=
          .bind htrans (handle_keeps hrefl htrans h chunk item) fun chunk =>
            .bind htrans (settle_keeps hrefl htrans h chunk) ih
        exact hitem y

omit hrefl htrans

theorem body_keeps_heeding (rel : σ → σ → Prop) (hrefl : ∀ x, rel x x) (htrans : ∀ {x y z}, rel x y → rel y z → rel x z)
    (h : s.flow.KeepsHeeding rel) (fuel : Nat) : (s.body fuel).Keeps fun x x' => rel x.2 x'.2 :=
  .bind htrans (drain_keeps hrefl htrans h fuel []) fun ending =>
    .bind htrans (onFlow_keeps h.close) fun _ => .pure (fun x => hrefl x.2) ending

theorem body_keeps (rel : σ → σ → Prop) (hrefl : ∀ x, rel x x) (htrans : ∀ {x y z}, rel x y → rel y z → rel x z)
    (h : s.flow.Keeps rel) (fuel : Nat) : (s.body fuel).Keeps fun x x' => rel x.2 x'.2 :=
  body_keeps_heeding rel hrefl htrans h.heeding fuel

/-- Whoever was asked to stop still is. -/
def KeepsStop (s : ChunkStep σ ι ο) (x x' : σ) : Prop := s.flow.stopRequested x → s.flow.stopRequested x'

private theorem drain_stopped (hwrite : ∀ items, (s.flow.write items).Keeps s.KeepsStop) {fuel : Nat}
    (hrun : (s.drain fuel chunk).run (run, x) = some (.ok .stopped, run', x')) : s.flow.stopRequested x' := by
  have hflush := flush_keeps (s := s) (fun _ h => h) (fun h h' hs => h' (h hs)) hwrite
  induction fuel generalizing chunk run x with
  | zero =>
    rw [drain] at hrun
    obtain ⟨stopped, y, hstopped, hrest⟩ := Effect.bind_ok hrun
    cases hstopped
    split at hrest
    · obtain ⟨⟨⟩, z, hflushed, heq⟩ := Effect.bind_ok hrest
      cases heq
      exact hflush chunk _ _ _ hflushed ‹_›
    · cases hrest
  | succ fuel ih =>
    rw [drain] at hrun
    obtain ⟨stopped, y, hstopped, hrest⟩ := Effect.bind_ok hrun
    cases hstopped
    split at hrest
    · obtain ⟨⟨⟩, z, hflushed, heq⟩ := Effect.bind_ok hrest
      cases heq
      exact hflush chunk _ _ _ hflushed ‹_›
    · obtain ⟨item?, z, hnext, hrest⟩ := Effect.bind_ok hrest
      cases item? with
      | none =>
        obtain ⟨⟨⟩, z', hflushed, heq⟩ := Effect.bind_ok hrest
        cases heq
      | some item =>
        obtain ⟨chunk₁, z₁, hhandle, hrest⟩ := Effect.bind_ok hrest
        obtain ⟨chunk₂, ⟨run₂, x₂⟩, hsettle, hrest⟩ := Effect.bind_ok hrest
        exact ih hrest

/-- A step ends early only if this was asked for. -/
theorem body_stopped (hwrite : ∀ items, (s.flow.write items).Keeps s.KeepsStop)
    (hclose : s.flow.close.Keeps s.KeepsStop) {fuel : Nat}
    (hrun : (s.body fuel).run (run, x) = some (.ok .stopped, run', x')) : s.flow.stopRequested x' := by
  rw [body] at hrun
  obtain ⟨drained, ⟨run₁, x₁⟩, hdrain, hrest⟩ := Effect.bind_ok hrun
  obtain ⟨⟨⟩, ⟨run₂, x₂⟩, hclosed, heq⟩ := Effect.bind_ok hrest
  cases heq
  exact onFlow_keeps hclose _ _ _ hclosed (drain_stopped hwrite hdrain)

private theorem drain_exhausted {holds done : σ → Prop} (hflow : s.flow.Keeps fun x x' => holds x → holds x')
    (hend : ∀ x x', holds x → s.flow.next.run x = some (.ok none, x') → done x')
    (hwrite : ∀ items, (s.flow.write items).Keeps fun x x' => done x → done x') {fuel : Nat} (h : holds x)
    (hrun : (s.drain fuel chunk).run (run, x) = some (.ok .exhausted, run', x')) : done x' := by
  have hhandle := handle_keeps (s := s) (fun _ h => h) (fun h h' hx => h' (h hx)) hflow.heeding
  have hsettle := settle_keeps (s := s) (fun _ h => h) (fun h h' hx => h' (h hx)) hflow.heeding
  induction fuel generalizing chunk run x with
  | zero =>
    rw [drain] at hrun
    obtain ⟨stopped, y, hstopped, hrest⟩ := Effect.bind_ok hrun
    cases hstopped
    split at hrest
    · obtain ⟨⟨⟩, z, hflushed, heq⟩ := Effect.bind_ok hrest
      cases heq
    · cases hrest
  | succ fuel ih =>
    rw [drain] at hrun
    obtain ⟨stopped, y, hstopped, hrest⟩ := Effect.bind_ok hrun
    cases hstopped
    split at hrest
    · obtain ⟨⟨⟩, z, hflushed, heq⟩ := Effect.bind_ok hrest
      cases heq
    · obtain ⟨item?, z, hpull, hrest⟩ := Effect.bind_ok hrest
      obtain ⟨x₁, hnext, rfl⟩ := Effect.onPart_some hpull
      cases item? with
      | none =>
        obtain ⟨⟨⟩, z', hflushed, heq⟩ := Effect.bind_ok hrest
        cases heq
        exact flush_keeps (s := s) (fun _ h => h) (fun h h' hx => h' (h hx)) hwrite chunk _ _ _ hflushed
          (hend x x₁ h hnext)
      | some item =>
        obtain ⟨chunk₁, z₁, hhandled, hrest⟩ := Effect.bind_ok hrest
        obtain ⟨chunk₂, ⟨run₂, x₂⟩, hsettled, hrest⟩ := Effect.bind_ok hrest
        exact ih (hsettle chunk₁ _ _ _ hsettled (hhandle chunk item _ _ _ hhandled (hflow.next x _ _ hnext h))) hrest

/-- A step ends of itself only when it has asked for an item and got none. -/
theorem body_exhausted (holds done : σ → Prop) (hflow : s.flow.Keeps fun x x' => holds x → holds x')
    (hend : ∀ x x', holds x → s.flow.next.run x = some (.ok none, x') → done x')
    (hwrite : ∀ items, (s.flow.write items).Keeps fun x x' => done x → done x')
    (hclose : s.flow.close.Keeps fun x x' => done x → done x') {fuel : Nat} (h : holds x)
    (hrun : (s.body fuel).run (run, x) = some (.ok .exhausted, run', x')) : done x' := by
  rw [body] at hrun
  obtain ⟨drained, ⟨run₁, x₁⟩, hdrain, hrest⟩ := Effect.bind_ok hrun
  obtain ⟨⟨⟩, ⟨run₂, x₂⟩, hclosed, heq⟩ := Effect.bind_ok hrest
  cases heq
  exact onFlow_keeps hclose _ _ _ hclosed (drain_exhausted hflow hend hwrite h hdrain)

end ChunkStep
end BatchExport
