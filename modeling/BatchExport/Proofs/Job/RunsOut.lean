import BatchExport.Proofs.Job.Progress
import BatchExport.Script.Step

/-! Flows that run out of items. Main statement: a step over such a flow ends. -/
namespace BatchExport

variable {σ ι ο : Type}

/-- Every call of the flow ends, and no more items come than are left. -/
structure ItemFlow.RunsOut (flow : ItemFlow σ ι ο) (left : σ → Nat) : Prop where
  next : ∀ x, flow.next.Returns x fun answer x' => left x' ≤ left x ∧ ∀ item, answer = .ok (some item) → left x' < left x
  process : ∀ item, (flow.process item).Ends fun x x' => left x' ≤ left x
  write : ∀ items, (flow.write items).Ends fun x x' => left x' ≤ left x
  writeSkipped : ∀ f, (flow.writeSkipped f).Ends fun x x' => left x' ≤ left x
  close : flow.close.Ends fun x x' => left x' ≤ left x

/-- Whatever the state, and however the flow fails. -/
private theorem ItemFlow.RunsOut.meets {flow : ItemFlow σ ι ο} {left : σ → Nat} (h : flow.RunsOut left) :
    flow.Meets ⟨fun _ => True, left, fun _ => True⟩ := by
  have hends {α : Type} {e : Effect σ α} {blames : Failure → Prop} (h : e.Ends fun x x' => left x' ≤ left x)
      (hblames : ∀ f, blames f) : e.Meets ⟨fun _ => True, left, blames⟩ :=
    fun x _ => (h x).mono fun _ _ hleft => ⟨trivial, hleft, fun f _ => hblames f⟩
  constructor
  · exact fun x _ => (h.next x).mono fun _ _ ⟨hleft, hless⟩ => ⟨trivial, hleft, hless, fun _ _ => trivial⟩
  · exact fun item => hends (h.process item) fun _ => .inr trivial
  · exact fun items => hends (h.write items) fun _ => trivial
  · exact fun f => hends (h.writeSkipped f) fun _ => trivial
  · exact hends h.close fun _ => trivial

theorem ChunkStep.execute_returns {s : ChunkStep σ ι ο} {x : σ} {left : σ → Nat} (hroom : s.size ≤ s.room)
    (hflow : s.flow.RunsOut left) {fuel : Nat} (hfuel : left x < fuel) (now : Instant) (e : Execution) :
    (s.execute fuel now).Returns (e, x) fun _ _ => True := by
  obtain ⟨ending, ⟨run, x'⟩, hrun, -⟩ := body_meets hflow.meets (x := x) trivial hfuel { name := s.name }
  rw [Effect.Returns, run_execute hroom, hrun]
  cases ending with
  | error f => exact ⟨_, _, rfl, trivial⟩
  | ok ending => exact ⟨_, _, rfl, trivial⟩

theorem StepScript.flow_runsOut (listens : Bool) : (StepScript.flow listens).RunsOut (·.items.length) := by
  have hact (s : StepScript) (plan : Option WriterAct) : (s.act plan).2.items.length ≤ s.items.length := by
    cases plan with
    | none => exact Nat.le_refl _
    | some act => cases act <;> exact Nat.le_refl _
  constructor
  · intro s
    have hnext : s.next.2.items.length ≤ s.items.length ∧
        ∀ item, s.next.1 = .ok (some item) → s.next.2.items.length < s.items.length := by
      obtain ⟨items, onWrite, onSkip, onClose, stop, events⟩ := s
      cases items with
      | nil =>
        refine ⟨Nat.le_refl _, ?_⟩
        intro item hitem
        cases hitem
      | cons first items =>
        have hitems : (StepScript.next ⟨first :: items, onWrite, onSkip, onClose, stop, events⟩).2.items = items := by
          rw [StepScript.next]
          dsimp only
          split <;> rfl
        rw [hitems, List.length_cons]
        exact ⟨Nat.le_succ _, fun _ _ => Nat.lt_succ_self _⟩
    exact ⟨_, _, rfl, hnext⟩
  · intro item
    exact .ofStep fun s => Nat.le_refl _
  · intro items
    exact .ofStep fun s => hact _ _
  · intro f
    exact .ofStep fun s => hact _ _
  · exact .ofStep fun s => hact _ _

end BatchExport
