import BatchExport.Text.Decimal
import BatchExport.Decimal.Binary64

/-! Decimal texts with a fixed number of places. -/
namespace BatchExport.Decimal

/-- The quotient rounded to the nearest whole number, a half to the even neighbour. -/
def roundDiv (num den : Nat) : Nat :=
  let q := num / den
  let r := num % den
  if 2 * r > den || (2 * r = den && q % 2 = 1) then q + 1 else q

/-- Two places of a finite number. -/
def twoPlaces (x : Binary64) : String :=
  let scaled := roundDiv (100 * x.significand * twoTo x.exponent.toNat) (twoTo (-x.exponent).toNat)
  (if x.isNegative then "-" else "") ++ toString (scaled / 100) ++ "." ++ Text.padded 2 (scaled % 100)

end BatchExport.Decimal
