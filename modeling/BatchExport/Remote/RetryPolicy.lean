import BatchExport.Decimal.Binary64

/-! How often and after which delays a request is sent again. -/
namespace BatchExport

structure RetryPolicy where
  /-- Attempts, the first one included; none counts as one. -/
  attempts : Nat := 3
  initialDelay : Nat := 1000
  maxDelay : Nat := 30000
  multiplier : Binary64 := .ofFloat 2.0
  deriving DecidableEq, Repr

namespace RetryPolicy

/-- Milliseconds before retry number `n`: the initial delay times a power of the multiplier, within bounds. -/
def delay (p : RetryPolicy) (n : Nat) : Nat :=
  let factor := p.multiplier.toFloat.pow (n - 1).toFloat
  min (p.initialDelay.toFloat * factor).toUInt64.toNat p.maxDelay

theorem delay_le_maxDelay (p : RetryPolicy) (n : Nat) : p.delay n ≤ p.maxDelay :=
  Nat.min_le_right _ _

end RetryPolicy
end BatchExport
