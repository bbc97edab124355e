import BatchExport.Proofs.Lifecycle.Ending
import Mathlib.Data.List.Forall2

/-! Surroundings that keep more outside of the process than others. Main statement: a run goes the same way in either. -/
namespace BatchExport

variable {τ ω : Type} {part : τ → ω}

/-- The same process with something else outside of it. -/
def Worker.withOutside (w : Worker ω) (outside : τ) : Worker τ := { w with outside }

/-- The process, with a part of what is outside of it. -/
def Worker.on (w : Worker τ) (part : τ → ω) : Worker ω := w.withOutside (part w.outside)

/-- On a part of the outside, the one surroundings do to a run what the other ones do. -/
structure Surroundings.Erases (part : τ → ω) (big : Surroundings τ) (small : Surroundings ω) : Prop where
  publish : ∀ job record t, part ((big.publish job record).aftermath t) = (small.publish job record).aftermath (part t)
  acknowledge : ∀ a t, part (big.acknowledge a t) = small.acknowledge a (part t)
  observe : ∀ moment name e t, part (big.observe moment name e t) = small.observe moment name e (part t)
  others : ∀ w, (big.others w).on part = small.others (w.on part)

structure JobPart.Erases (part : τ → ω) (big : JobPart τ) (small : JobPart ω) : Prop where
  ready : ∀ e w, big.ready e w = small.ready e (w.on part)
  act : big.act.Erases (fun t => (t.1, t.2.on part)) small.act

inductive RunPhase.Erases (part : τ → ω) : RunPhase τ → RunPhase ω → Prop
  | starting : Erases part .starting .starting
  | before (hooks : List Hook) : Erases part (.before hooks) (.before hooks)
  | deciding : Erases part .deciding .deciding
  | working {big : List (JobPart τ)} {small : List (JobPart ω)} (parts : List.Forall₂ (JobPart.Erases part) big small) :
      Erases part (.working big) (.working small)
  | concluding (result : Except Failure Unit) : Erases part (.concluding result) (.concluding result)
  | leaving : Erases part .leaving .leaving
  | after (hooks : List Hook) : Erases part (.after hooks) (.after hooks)
  | ended : Erases part .ended .ended

structure Run.Erases (part : τ → ω) (big : Run τ) (small : Run ω) : Prop where
  listeners : big.listeners = small.listeners
  job : List.Forall₂ (JobPart.Erases part) big.job small.job
  execution : big.execution = small.execution
  phase : big.phase.Erases part small.phase

section

variable {big : Surroundings τ} {small : Surroundings ω} (hs : big.Erases part small)
include hs

namespace Hook

theorem act_erases (hook : Hook) (e : Execution) (w : Worker τ) :
    (hook.act big e w).1 = (hook.act small e (w.on part)).1 ∧
      (hook.act big e w).2.on part = (hook.act small e (w.on part)).2 := by
  cases hook with
  | observe moment name =>
    refine ⟨rfl, ?_⟩
    simp only [act, Worker.on, Worker.withOutside, hs.observe]
  | publish described =>
    unfold act
    cases e.jobId? with
    | none => exact ⟨rfl, rfl⟩
    | some job =>
      refine ⟨rfl, ?_⟩
      simp only [Worker.on, Worker.withOutside, hs.publish]
  | acknowledge =>
    unfold act
    cases e.jobId? with
    | none => exact ⟨rfl, rfl⟩
    | some job =>
      refine ⟨rfl, ?_⟩
      simp only [acknowledgeJob, Worker.unpark, Worker.on, Worker.withOutside]
      cases w.parked.get? job with
      | none => rfl
      | some a => simp only [hs.acknowledge]
  | cleanUp =>
    unfold act
    cases e.jobId? with
    | none => exact ⟨rfl, rfl⟩
    | some job =>
      refine ⟨rfl, ?_⟩
      simp only [cleanUpFiles]
      cases e.parameters.nonBlank? Key.tempOutputPath <;> rfl
  | forgetBinding =>
    unfold act
    cases e.status <;> cases e.jobId? <;> exact ⟨rfl, rfl⟩
  | forgetSnapshot =>
    unfold act
    cases e.jobId? <;> exact ⟨rfl, rfl⟩

end Hook

namespace Run

/-- A step of the one run is a step of the other. -/
theorem step?_erases {bigRun : Run τ} {smallRun : Run ω} (hr : bigRun.Erases part smallRun) (w : Worker τ) :
    Option.Rel (fun x y => x.1.Erases part y.1 ∧ x.2.on part = y.2) (bigRun.step? big w)
      (smallRun.step? small (w.on part)) := by
  obtain ⟨listeners, bigJob, e, bigPhase⟩ := bigRun
  obtain ⟨_, smallJob, _, smallPhase⟩ := smallRun
  obtain ⟨hlisteners, hjob, hexecution, hphase⟩ := hr
  dsimp only at hlisteners hjob hexecution hphase
  subst hlisteners hexecution
  cases hphase with
  | starting => exact .some ⟨⟨rfl, hjob, rfl, .before _⟩, rfl⟩
  | before hooks =>
    cases hooks with
    | nil => exact .some ⟨⟨rfl, hjob, rfl, .deciding⟩, rfl⟩
    | cons hook rest =>
      obtain ⟨hmore, hworker⟩ := hook.act_erases hs e w
      have hphase : RunPhase.Erases part (.before ((hook.act big e w).1 ++ rest))
          (.before ((hook.act small e (w.on part)).1 ++ rest)) := by
        rw [hmore]
        exact .before _
      exact .some ⟨⟨rfl, hjob, rfl, hphase⟩, hworker⟩
  | deciding =>
    refine .some ⟨⟨rfl, hjob, rfl, ?_⟩, rfl⟩
    dsimp only
    have hstop : (w.on part).stopRequested e.id = w.stopRequested e.id := rfl
    rw [hstop]
    split
    · exact .concluding _
    · exact .working hjob
  | working parts =>
    cases parts with
    | nil => exact .some ⟨⟨rfl, hjob, rfl, .concluding _⟩, rfl⟩
    | @cons bigPart smallPart bigRest smallRest first rest =>
      have hact := first.act (e, w)
      dsimp only at hact
      simp only [step?, work]
      rw [← first.ready e w, ← hact]
      split
      · exact .none
      · cases bigPart.act.run (e, w) with
        | none => exact .none
        | some outcome =>
          obtain ⟨result, e', w'⟩ := outcome
          cases result with
          | error f => exact .some ⟨⟨rfl, hjob, rfl, .concluding _⟩, rfl⟩
          | ok _ => exact .some ⟨⟨rfl, hjob, rfl, .working rest⟩, rfl⟩
  | concluding result => exact .some ⟨⟨rfl, hjob, rfl, .leaving⟩, rfl⟩
  | leaving => exact .some ⟨⟨rfl, hjob, rfl, .after _⟩, rfl⟩
  | after hooks =>
    cases hooks with
    | nil => exact .some ⟨⟨rfl, hjob, rfl, .ended⟩, rfl⟩
    | cons hook rest =>
      obtain ⟨hmore, hworker⟩ := hook.act_erases hs e w
      have hphase : RunPhase.Erases part (.after ((hook.act big e w).1 ++ rest))
          (.after ((hook.act small e (w.on part)).1 ++ rest)) := by
        rw [hmore]
        exact .after _
      exact .some ⟨⟨rfl, hjob, rfl, hphase⟩, hworker⟩
  | ended => exact .none

theorem goOn_erases {bigRun : Run τ} {smallRun : Run ω} (hr : bigRun.Erases part smallRun) (w : Worker τ)
    (isTimeToLeave : Worker ω → Bool) (fuel : Nat) :
    (bigRun.goOn big (fun w => isTimeToLeave (w.on part)) fuel w).1.Erases part
        (smallRun.goOn small isTimeToLeave fuel (w.on part)).1 ∧
      (bigRun.goOn big (fun w => isTimeToLeave (w.on part)) fuel w).2.on part =
        (smallRun.goOn small isTimeToLeave fuel (w.on part)).2 := by
  induction fuel generalizing bigRun smallRun w with
  | zero => exact ⟨hr, rfl⟩
  | succ fuel ih =>
    rw [goOn, goOn]
    split
    · exact ⟨hr, rfl⟩
    · have hstep := step?_erases hs hr w
      generalize bigRun.step? big w = bigStep at hstep ⊢
      generalize smallRun.step? small (w.on part) = smallStep at hstep ⊢
      cases hstep with
      | none => exact ⟨hr, rfl⟩
      | @some x y hxy =>
        obtain ⟨r', w'⟩ := x
        obtain ⟨q', v'⟩ := y
        obtain ⟨hrun, hworker⟩ := hxy
        dsimp only at hrun hworker ⊢
        subst hworker
        rw [← hs.others]
        exact ih hrun (big.others w')

theorem Leads.erases {bigStart bigRun : Run τ} {smallStart : Run ω} {w₀ w : Worker τ}
    (hr : bigStart.Erases part smallStart) (h : Leads big bigStart w₀ bigRun w) :
    ∃ smallRun, Leads small smallStart (w₀.on part) smallRun (w.on part) ∧ bigRun.Erases part smallRun := by
  induction h with
  | refl => exact ⟨smallStart, .refl, hr⟩
  | @step r r' w w' before step ih =>
    obtain ⟨q, hleads, hq⟩ := ih
    have hstep := step?_erases hs hq w
    rw [step] at hstep
    generalize hsmall : q.step? small (w.on part) = smallStep at hstep
    cases hstep with
    | @some _ y hxy =>
      obtain ⟨q', v'⟩ := y
      obtain ⟨hrun, hworker⟩ := hxy
      dsimp only at hrun hworker
      subst hworker
      rw [hs.others]
      exact ⟨q', hleads.step hsmall, hrun⟩

end Run
end
end BatchExport
