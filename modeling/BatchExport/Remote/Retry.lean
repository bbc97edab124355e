import BatchExport.Effect
import BatchExport.Remote.RetryPolicy

/-! Repeated attempts with growing pauses. -/
namespace BatchExport.Retry

variable {σ α : Type}

/-- Attempt number `n`, with so many left after it. Only transient failures are tried again. -/
def attempts (policy : RetryPolicy) (pause : Nat → σ → σ) (operation : Effect σ α) (n : Nat) : Nat → Effect σ α
  | 0 => operation
  | left + 1 => do
    match ← operation.attempt with
    | .ok a => return a
    | .error f =>
      if !f.isTransient then throw f
      .ofChange fun w => ((), pause (policy.delay n) w)
      attempts policy pause operation (n + 1) left

/-- At least one attempt, at most as many as the policy allows. -/
def run (policy : RetryPolicy) (pause : Nat → σ → σ) (operation : Effect σ α) : Effect σ α :=
  attempts policy pause operation 1 (max policy.attempts 1 - 1)

end BatchExport.Retry
