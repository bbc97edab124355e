import BatchExport.Job.ChunkStep
import BatchExport.Proofs.Effect

/-! What a step comes to whose flow does not block. Main statement: it ends once no items are left, and it fails only with
a failure that its flow may fail with. -/
namespace BatchExport

variable {σ α β ι ο : Type}

/-- What is known of a flow: the states that it can be in, how many items are left then at most, and how it may fail. -/
structure Prospect (σ : Type) where
  holds : σ → Prop
  left : σ → Nat
  blames : Failure → Prop

theorem Prospect.blames_error {p : Prospect σ} {f f' : Failure} (h : p.blames f)
    (hf : (.error f : Except Failure α) = .error f') : p.blames f' := by
  cases hf
  exact h

/-- The computation ends; afterwards no more items are left than before. -/
def Effect.Meets (e : Effect σ α) (p : Prospect σ) : Prop :=
  ∀ x, p.holds x → e.Returns x fun r x' => p.holds x' ∧ p.left x' ≤ p.left x ∧ ∀ f, r = .error f → p.blames f

namespace Effect.Meets

variable {p : Prospect σ} {e : Effect σ α}

theorem pure (a : α) : (Pure.pure a : Effect σ α).Meets p :=
  fun _ hx => .pure ⟨hx, Nat.le_refl _, fun _ hf => by cases hf⟩

theorem throw {f : Failure} (h : p.blames f) : (throw f : Effect σ α).Meets p :=
  fun _ hx => .throw ⟨hx, Nat.le_refl _, fun _ => p.blames_error h⟩

theorem bind {f : α → Effect σ β} (h : e.Meets p) (hf : ∀ a, (f a).Meets p) : (e >>= f).Meets p := by
  refine fun x hx => .bind (h x hx) ?_ ?_
  · rintro a t ⟨ht, hleft, -⟩
    exact (hf a t ht).mono fun r u ⟨hu, hless, hblamed⟩ => ⟨hu, Nat.le_trans hless hleft, hblamed⟩
  · rintro f t ⟨ht, hleft, hblamed⟩
    exact ⟨ht, hleft, fun _ => p.blames_error (hblamed f rfl)⟩

end Effect.Meets

/-- Every call of the flow ends, and an item that comes is one of those that are left. -/
structure ItemFlow.Meets (flow : ItemFlow σ ι ο) (p : Prospect σ) : Prop where
  next : ∀ x, p.holds x → flow.next.Returns x fun answer x' =>
    p.holds x' ∧ p.left x' ≤ p.left x ∧ (∀ item, answer = .ok (some item) → p.left x' < p.left x) ∧
      ∀ f, answer = .error f → p.blames f
  process : ∀ item, (flow.process item).Meets { p with blames := fun f => f.isSkippable ∨ p.blames f }
  write : ∀ items, (flow.write items).Meets p
  writeSkipped : ∀ f, (flow.writeSkipped f).Meets p
  close : flow.close.Meets p

namespace ChunkStep

/-- The same of a flow with its counters. -/
private def counting (p : Prospect σ) : Prospect (StepRun × σ) := ⟨fun t => p.holds t.2, fun t => p.left t.2, p.blames⟩

variable {s : ChunkStep σ ι ο} {p : Prospect σ} {x : σ}

private theorem onFlow_meets {e : Effect σ α} (h : e.Meets p) : (onFlow e).Meets (counting p) :=
  fun t ht => .onPart (h t.2 ht)

private theorem count_meets (f : StepRun → StepRun) : (count f : Effect (StepRun × σ) Unit).Meets (counting p) :=
  fun _ ht => .ofChange ⟨ht, Nat.le_refl _, fun _ hf => by cases hf⟩

variable (hflow : s.flow.Meets p)
include hflow

private theorem flush_meets (chunk : List ο) : (s.flush chunk).Meets (counting p) := by
  rw [flush]
  split
  · exact .pure ()
  · exact .bind (onFlow_meets (hflow.write chunk)) fun _ => count_meets _

private theorem handle_meets (chunk : List ο) (item : ι) : (s.handle chunk item).Meets (counting p) := by
  have hprocess (t : StepRun × σ) (ht : p.holds t.2) : (onFlow (s.flow.process item)).attempt.Returns t
      fun r t' => p.holds t'.2 ∧ p.left t'.2 ≤ p.left t.2 ∧
        ∃ outcome, r = .ok outcome ∧ ∀ f, outcome = .error f → f.isSkippable ∨ p.blames f := by
    refine .attempt (.onPart ((hflow.process item t.2 ht).mono ?_))
    rintro outcome x' ⟨hx', hleft, hblamed⟩
    exact ⟨hx', hleft, outcome, rfl, hblamed⟩
  rw [handle]
  refine .bind (count_meets _) fun _ t ht => .bind (hprocess t ht) ?_ ?_
  · rintro outcome t' ⟨ht', hleft, _, ⟨⟩, hblamed⟩
    -- What is done with the outcome leaves no more items than the processing has left.
    have hrest {e : Effect (StepRun × σ) (List ο)} (he : e.Meets (counting p)) : e.Returns t'
        fun r u => (counting p).holds u ∧ (counting p).left u ≤ (counting p).left t ∧
          ∀ f, r = .error f → p.blames f :=
      (he t' ht').mono fun _ _ ⟨hu, hless, hf⟩ => ⟨hu, Nat.le_trans hless hleft, hf⟩
    cases outcome with
    | ok output? =>
      cases output? with
      | some output => exact hrest (.pure _)
      | none => exact hrest (.bind (count_meets _) fun _ => .pure chunk)
    | error f =>
      dsimp only
      split
      · exact hrest (.bind (count_meets _) fun _ =>
          .bind (onFlow_meets (hflow.writeSkipped f)) fun _ => .pure chunk)
      · exact hrest (.throw ((hblamed f rfl).resolve_left ‹_›))
  · rintro f t' ⟨-, -, _, ⟨⟩, -⟩

private theorem settle_meets (chunk : List ο) : (s.settle chunk).Meets (counting p) := by
  rw [settle]
  split
  · exact .pure _
  · exact .bind (flush_meets hflow chunk) fun _ => .pure _

/-- Every pull that brings an item leaves fewer of them. -/
private theorem drain_meets {fuel : Nat} (hx : p.holds x) (hfuel : p.left x < fuel) (chunk : List ο) (run : StepRun) :
    (s.drain fuel chunk).Returns (run, x) fun r t => p.holds t.2 ∧ ∀ f, r = .error f → p.blames f := by
  have hlast (chunk : List ο) (ending : Ending) (t : StepRun × σ) (ht : p.holds t.2) :
      (s.flush chunk >>= fun _ => pure ending).Returns t fun r t => p.holds t.2 ∧ ∀ f, r = .error f → p.blames f :=
    (Effect.Meets.bind (flush_meets hflow chunk) (fun _ => .pure ending) t ht).mono fun _ _ ⟨ht, _, hf⟩ => ⟨ht, hf⟩
  induction fuel generalizing chunk run x with
  | zero => exact absurd hfuel (Nat.not_lt_zero _)
  | succ fuel ih =>
    have hstopped : s.isStopped.Returns (run, x) fun r t => (∃ stopped, r = .ok stopped) ∧ t = (run, x) :=
      .ofChange ⟨⟨_, rfl⟩, rfl⟩
    rw [drain]
    refine .bind hstopped ?_ fun f t ⟨⟨_, hok⟩, _⟩ => by cases hok
    rintro stopped t ⟨-, rfl⟩
    cases stopped with
    | true => exact hlast chunk .stopped (run, x) hx
    | false =>
      have hnext : (onFlow s.flow.next).Returns (run, x) fun answer t =>
          p.holds t.2 ∧ p.left t.2 ≤ p.left x ∧ (∀ item, answer = .ok (some item) → p.left t.2 < p.left x) ∧
            ∀ f, answer = .error f → p.blames f :=
        .onPart (hflow.next x hx)
      refine .bind hnext ?_ ?_
      · rintro item? t ⟨ht, hleft, hless, -⟩
        cases item? with
        | none => exact hlast chunk .exhausted t ht
        | some item =>
          have hfewer : p.left t.2 < p.left x := hless item rfl
          refine .bind (handle_meets hflow chunk item t ht) ?_ fun f u ⟨hu, _, hf⟩ =>
            ⟨hu, fun _ => p.blames_error (hf f rfl)⟩
          rintro chunk' u ⟨hu, hhandled, -⟩
          refine .bind (settle_meets hflow chunk' u hu) ?_ fun f v ⟨hv, _, hf⟩ =>
            ⟨hv, fun _ => p.blames_error (hf f rfl)⟩
          rintro chunk'' v ⟨hv, hsettled, -⟩
          dsimp only [counting] at hhandled hsettled
          exact ih hv (by omega) chunk'' v.1
      · rintro f t ⟨ht, -, -, hf⟩
        exact ⟨ht, fun _ => p.blames_error (hf f rfl)⟩

/-- With more fuel than items are left, a step ends, and fails as its flow may fail. -/
theorem body_meets {fuel : Nat} (hx : p.holds x) (hfuel : p.left x < fuel) (run : StepRun) :
    (s.body fuel).Returns (run, x) fun r t => p.holds t.2 ∧ ∀ f, r = .error f → p.blames f := by
  rw [body]
  refine .bind (drain_meets hflow hx hfuel [] run) ?_ ?_
  · rintro ending t ⟨ht, -⟩
    exact (Effect.Meets.bind (onFlow_meets hflow.close) (fun _ => .pure ending) t ht).mono
      fun _ _ ⟨ht, _, hf⟩ => ⟨ht, hf⟩
  · rintro f t ⟨ht, hf⟩
    exact ⟨ht, fun _ => p.blames_error (hf f rfl)⟩

end ChunkStep
end BatchExport
