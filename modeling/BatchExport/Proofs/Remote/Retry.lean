import BatchExport.Proofs.Effect
import BatchExport.Remote.Retry
import Mathlib.Data.Nat.Find

/-! Attempts, one after the other. Main statement: attempts go on while they fail for a time and the policy allows
another one; the outcome is that of the last attempt, and the pauses between them are those of the policy. -/
namespace BatchExport.Retry

variable {σ α ρ : Type}

/-- All outcomes but transient failures. -/
def IsFinal : Except Failure α → Prop
  | .ok _ => True
  | .error f => f.isTransient = false

/-- Attempt `k` is the first that is final, or else the last that is allowed. Attempts are counted from one. -/
structure IsLast (final : Nat → Prop) (most k : Nat) : Prop where
  pos : 1 ≤ k
  le : k ≤ most
  earlier : ∀ j, 1 ≤ j → j < k → ¬ final j
  stops : k < most → final k

section IsLast

variable {final final' : Nat → Prop} {most k k' : Nat}

theorem IsLast.le_of_final (h : IsLast final most k) {j : Nat} (hj : 1 ≤ j) (hfinal : final j) : k ≤ j := by
  refine Nat.le_of_not_lt fun hlt => ?_
  exact h.earlier j hj hlt hfinal

/-- There is only one last attempt. -/
theorem IsLast.unique (h : IsLast final most k) (h' : IsLast final most k') : k = k' := by
  have aux {a b : Nat} (ha : IsLast final most a) (hb : IsLast final most b) : a ≤ b := by
    rcases Nat.lt_or_ge b most with hlt | hge
    · exact ha.le_of_final hb.pos (hb.stops hlt)
    · exact Nat.le_trans ha.le hge
  exact Nat.le_antisymm (aux h h') (aux h' h)

theorem IsLast.congr (h : IsLast final most k) (hiff : ∀ j, final j ↔ final' j) : IsLast final' most k where
  pos := h.pos
  le := h.le
  earlier j hj hlt hfinal := h.earlier j hj hlt ((hiff j).mpr hfinal)
  stops hlt := (hiff k).mp (h.stops hlt)

theorem exists_isLast (final : Nat → Prop) (hmost : 1 ≤ most) : ∃ k, IsLast final most k := by
  classical
  by_cases h : ∃ j, 1 ≤ j ∧ j < most ∧ final j
  · obtain ⟨hpos, hlt, hfinal⟩ := Nat.find_spec h
    refine ⟨Nat.find h, hpos, Nat.le_of_lt hlt, fun j hj hless hfinal' => ?_, fun _ => hfinal⟩
    exact Nat.find_min h hless ⟨hj, Nat.lt_trans hless hlt, hfinal'⟩
  · refine ⟨most, hmost, Nat.le_refl most, fun j hj hlt hfinal => h ⟨j, hj, hlt, hfinal⟩, fun hlt => ?_⟩
    exact absurd hlt (Nat.lt_irrefl most)

end IsLast

/-- The states before and after the attempts, if they went on for ever. -/
structure Course (policy : RetryPolicy) (pause : Nat → σ → σ) (operation : Effect σ α)
    (outcome : Nat → Except Failure α) (before after : Nat → σ) : Prop where
  tried : ∀ j, 1 ≤ j → operation.run (before j) = some (outcome j, after j)
  paused : ∀ j, 1 ≤ j → pause (policy.delay j) (after j) = before (j + 1)

section Course

variable {policy : RetryPolicy} {pause : Nat → σ → σ} {operation : Effect σ α} {outcome : Nat → Except Failure α}
  {before after : Nat → σ} {k : Nat}

/-- From attempt `n` on, with so many left after it. -/
private theorem Course.attempts (h : Course policy pause operation outcome before after) {n left : Nat} (hn : 1 ≤ n)
    (hlast : IsLast (fun j => IsFinal (outcome j)) (n + left) k) (hnk : n ≤ k) :
    (attempts policy pause operation n left).run (before n) = some (outcome k, after k) := by
  induction left generalizing n with
  | zero =>
    obtain rfl : n = k := Nat.le_antisymm hnk hlast.le
    exact h.tried n hn
  | succ left ih =>
    rw [Retry.attempts, Effect.run_bind, Effect.run_attempt (h.tried n hn), Option.bind_some]
    by_cases hfinal : IsFinal (outcome n)
    · obtain rfl : n = k := Nat.le_antisymm hnk (hlast.le_of_final hn hfinal)
      cases houtcome : outcome n with
      | ok a => rfl
      | error f =>
        rw [houtcome] at hfinal
        have htransient : f.isTransient = false := hfinal
        simp only [htransient, Bool.not_false, if_true]
        rfl
    · -- the failure may pass, so this is not the last attempt
      have hlt : n < k := by
        refine Nat.lt_of_le_of_ne hnk fun heq => hfinal ?_
        subst heq
        exact hlast.stops (by omega)
      cases houtcome : outcome n with
      | ok a => exact absurd (houtcome ▸ trivial) hfinal
      | error f =>
        have htransient : f.isTransient = true := by
          rw [houtcome] at hfinal
          simpa [IsFinal] using hfinal
        have hrest := ih (n := n + 1) (by omega) (by rwa [Nat.add_right_comm, Nat.add_assoc]) hlt
        simp only [htransient, Bool.not_true, Bool.false_eq_true, if_false]
        rw [← h.paused n hn] at hrest
        exact hrest

/-- The outcome is that of the last attempt, and nothing happens after it. -/
theorem Course.run (h : Course policy pause operation outcome before after)
    (hlast : IsLast (fun j => IsFinal (outcome j)) (max 1 policy.attempts) k) :
    (run policy pause operation).run (before 1) = some (outcome k, after k) := by
  refine h.attempts (Nat.le_refl 1) ?_ hlast.pos
  have hmost : 1 + (max policy.attempts 1 - 1) = max 1 policy.attempts := by omega
  rwa [hmost]

end Course

/-- What can be seen of the attempts from outside. -/
inductive Act (ρ : Type) where
  | tried (request : ρ)
  | paused (delay : Nat)
  deriving DecidableEq, Repr

namespace Act

def isTry : Act ρ → Bool
  | tried _ => true
  | paused _ => false

/-- A pause leaves nothing but its length. -/
def pause (delay : Nat) (log : List (Act ρ)) : List (Act ρ) := log ++ [paused delay]

end Act

/-- An operation with these outcomes, one after the other. -/
def scripted (outcome : Nat → Except Failure α) : Effect (List (Act Unit)) α :=
  .ofStep fun log => (outcome (log.countP Act.isTry + 1), log ++ [.tried ()])

/-- So many attempts of one request, and between them the pauses of the policy. -/
def history (policy : RetryPolicy) (request : ρ) : Nat → List (Act ρ)
  | 0 => []
  | 1 => [.tried request]
  | k + 2 => history policy request (k + 1) ++ [.paused (policy.delay (k + 1)), .tried request]

/-- The history up to the pause before an attempt. -/
private def historyBefore (policy : RetryPolicy) (request : ρ) : Nat → List (Act ρ)
  | k + 2 => history policy request (k + 1) ++ [.paused (policy.delay (k + 1))]
  | _ => []

section History

variable {policy : RetryPolicy} {request : ρ}

private theorem historyBefore_try (k : Nat) :
    historyBefore policy request (k + 1) ++ [.tried request] = history policy request (k + 1) := by
  cases k with
  | zero => rfl
  | succ k => simp [historyBefore, history]

/-- As many attempts as are counted. -/
theorem countP_history (policy : RetryPolicy) (request : ρ) (k : Nat) :
    (history policy request k).countP Act.isTry = k := by
  induction k using history.induct with
  | case1 => rfl
  | case2 => rfl
  | case3 k ih =>
    rw [history, List.countP_append, ih]
    rfl

/-- Only this request is tried, and it is tried unless there is no attempt. -/
theorem tried_mem_history {other : ρ} (k : Nat) :
    .tried other ∈ history policy request k ↔ other = request ∧ 1 ≤ k := by
  induction k using history.induct with
  | case1 => simp [history]
  | case2 => simp [history]
  | case3 k ih => simp [history, ih]

private theorem countP_historyBefore (k : Nat) : (historyBefore policy request (k + 1)).countP Act.isTry = k := by
  cases k with
  | zero => rfl
  | succ k =>
    rw [historyBefore, List.countP_append, countP_history]
    rfl

/-- An operation that goes by a script is tried as often as the outcomes of the script demand. -/
theorem run_of_script (policy : RetryPolicy) (request : ρ) (operation : Effect (List (Act ρ)) α)
    (outcome : Nat → Except Failure α)
    (h : ∀ log, operation.run log = some (outcome (log.countP Act.isTry + 1), log ++ [.tried request])) :
    ∃ k, IsLast (fun j => IsFinal (outcome j)) (max 1 policy.attempts) k ∧
      (run policy Act.pause operation).run [] = some (outcome k, history policy request k) := by
  obtain ⟨k, hlast⟩ := exists_isLast (fun j => IsFinal (outcome j)) (Nat.le_max_left 1 policy.attempts)
  have hcourse : Course policy Act.pause operation outcome (historyBefore policy request) (history policy request) := {
    tried := fun j hj => by
      obtain ⟨i, rfl⟩ := Nat.exists_eq_add_of_le' hj
      rw [h, countP_historyBefore, historyBefore_try]
    paused := fun j hj => by
      obtain ⟨i, rfl⟩ := Nat.exists_eq_add_of_le' hj
      rfl }
  exact ⟨k, hlast, hcourse.run hlast⟩

end History
end BatchExport.Retry
