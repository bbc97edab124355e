import BatchExport.Proofs.Lifecycle.Moments

/-! That runs end. Main statement: a run whose parts answer ends after so many steps. -/
namespace BatchExport

variable {ω : Type}

/-- Whatever it finds, the part is ready and answers. -/
def JobPart.Answers (p : JobPart ω) : Prop := ∀ e w, p.ready e w = true ∧ ∃ outcome, p.act.run (e, w) = some outcome

/-- How many steps a hook may take; a binding that is forgotten takes its snapshot with it. -/
def Hook.cost : Hook → Nat
  | forgetBinding => 2
  | _ => 1

def Hook.costs : List Hook → Nat
  | [] => 0
  | hook :: rest => hook.cost + costs rest

theorem Hook.costs_append (hooks rest : List Hook) : costs (hooks ++ rest) = costs hooks + costs rest := by
  induction hooks with
  | nil => exact (Nat.zero_add _).symm
  | cons hook hooks ih =>
    rw [List.cons_append, costs, costs, ih]
    omega

theorem Hook.costs_act (s : Surroundings ω) (e : Execution) (w : Worker ω) (hook : Hook) (rest : List Hook) :
    costs ((hook.act s e w).1 ++ rest) < costs (hook :: rest) := by
  have hmore : costs (hook.act s e w).1 < hook.cost := by
    obtain hnone | ⟨rfl, hone⟩ := hook.act_more s e w
    · rw [hnone]
      cases hook with
      | forgetBinding => exact Nat.zero_lt_two
      | _ => exact Nat.zero_lt_one
    · rw [hone]
      decide
  rw [costs_append, costs]
  omega

namespace Run

variable {s : Surroundings ω} {r r' : Run ω} {w w' : Worker ω}

/-- How many steps a run may still take. -/
def left (r : Run ω) : Nat :=
  match r.phase with
  | .ended => 0
  | .after hooks => Hook.costs hooks + 1
  | .leaving => Hook.costs (r.listeners.flatMap Listener.after) + 2
  | .concluding _ => Hook.costs (r.listeners.flatMap Listener.after) + 3
  | .working parts => Hook.costs (r.listeners.flatMap Listener.after) + parts.length + 4
  | .deciding => Hook.costs (r.listeners.flatMap Listener.after) + r.job.length + 5
  | .before hooks => Hook.costs hooks + Hook.costs (r.listeners.flatMap Listener.after) + r.job.length + 6
  | .starting =>
    Hook.costs (r.listeners.flatMap Listener.before) + Hook.costs (r.listeners.flatMap Listener.after) + r.job.length + 7

/-- A step that is made leaves fewer of them. -/
theorem left_lt_of_step (h : r.step? s w = some (r', w')) : r'.left < r.left := by
  obtain ⟨listeners, job, e, phase⟩ := r
  cases phase with
  | ended => cases h
  | starting =>
    cases h
    exact Nat.lt_succ_self _
  | before hooks =>
    cases hooks with
    | nil =>
      cases h
      dsimp only [left]
      omega
    | cons hook rest =>
      rw [step?_before] at h
      cases h
      have hcosts := hook.costs_act s e w rest
      dsimp only [left]
      omega
  | deciding =>
    cases h
    dsimp only [left]
    cases w.stopRequested e.id with
    | true =>
      rw [if_pos rfl]
      dsimp only
      omega
    | false =>
      rw [if_neg Bool.false_ne_true]
      dsimp only
      omega
  | working parts =>
    cases parts with
    | nil =>
      cases h
      exact Nat.lt_succ_self _
    | cons part rest =>
      obtain ⟨e', -, rfl⟩ | ⟨f, e', -, rfl⟩ := step_working h
      · dsimp only [left, List.length_cons]
        omega
      · dsimp only [left, List.length_cons]
        omega
  | concluding result =>
    cases h
    exact Nat.lt_succ_self _
  | leaving =>
    cases h
    exact Nat.lt_succ_self _
  | after hooks =>
    cases hooks with
    | nil =>
      cases h
      exact Nat.lt_succ_self _
    | cons hook rest =>
      rw [step?_after] at h
      cases h
      have hcosts := hook.costs_act s e w rest
      dsimp only [left]
      omega

/-- Only a part of the job can keep a run from going on. -/
theorem step?_isSome (hended : r.isEnded = false) (hworking : ∀ parts, r.phase ≠ .working parts) (w : Worker ω) :
    (r.step? s w).isSome = true := by
  obtain ⟨listeners, job, e, phase⟩ := r
  cases phase with
  | ended => cases hended
  | working parts => exact absurd rfl (hworking parts)
  | before hooks => cases hooks <;> rfl
  | after hooks => cases hooks <;> rfl
  | _ => rfl

/-- A run that has not ended goes on, and has fewer steps left then. -/
theorem step_left (hanswers : ∀ p ∈ r.parts, p.Answers) (hended : r.isEnded = false) (w : Worker ω) :
    ∃ r' w', r.step? s w = some (r', w') ∧ r'.left < r.left := by
  have hgoes : ∃ next, r.step? s w = some next := by
    by_cases hworking : ∃ parts, r.phase = .working parts
    · obtain ⟨parts, hphase⟩ := hworking
      obtain ⟨listeners, job, e, phase⟩ := r
      dsimp only at hphase
      subst hphase
      cases parts with
      | nil => exact ⟨_, rfl⟩
      | cons part rest =>
        obtain ⟨hready, ⟨result, e', w'⟩, hact⟩ := hanswers part (List.mem_append_right _ List.mem_cons_self) e w
        simp only [step?, work, hready, Bool.not_true, Bool.false_eq_true, if_false, hact]
        exact ⟨_, rfl⟩
    · exact Option.isSome_iff_exists.mp (step?_isSome hended (not_exists.mp hworking) w)
  obtain ⟨⟨r', w'⟩, hstep⟩ := hgoes
  exact ⟨r', w', hstep, left_lt_of_step hstep⟩

theorem goOn_ends {fuel : Nat} (hanswers : ∀ p ∈ r.parts, p.Answers) (hfuel : r.left ≤ fuel) (w : Worker ω) :
    (r.goOn s (fun _ => false) fuel w).1.isEnded = true := by
  induction fuel generalizing r w with
  | zero =>
    cases hended : r.isEnded with
    | true => exact hended
    | false =>
      obtain ⟨r', w', -, hless⟩ := step_left (s := s) hanswers hended w
      omega
  | succ fuel ih =>
    rw [goOn, if_neg Bool.false_ne_true]
    cases hended : r.isEnded with
    | true =>
      have hphase := phase_of_isEnded hended
      have hlast : r.step? s w = none := by rw [step?, hphase]
      rw [hlast]
      exact hended
    | false =>
      obtain ⟨r', w', hstep, hless⟩ := step_left (s := s) hanswers hended w
      rw [hstep]
      exact ih (fun p hp => hanswers p (step_parts hstep hp)) (by omega) (s.others w')

end Run
end BatchExport
