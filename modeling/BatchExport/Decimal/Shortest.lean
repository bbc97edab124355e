import BatchExport.Decimal.Binary64

/-! The fewest decimal digits that read back as the same double, the nearest of those if there are two. -/
namespace BatchExport.Decimal

/-- Positive numbers are `digits * 10 ^ exponent`. -/
structure Scaled where
  digits : Nat
  exponent : Int
  deriving DecidableEq, Repr

/-- Compare `a * 10 ^ e` with `b * 2 ^ q`. -/
def compareScaled (a : Nat) (e : Int) (b : Nat) (q : Int) : Ordering :=
  let left := a * tenTo e.toNat * twoTo (-q).toNat
  let right := b * twoTo q.toNat * tenTo (-e).toNat
  compare left right

/-- The greatest `d` with `d * 10 ^ e ≤ b * 2 ^ q`. -/
def floorAt (e : Int) (b : Nat) (q : Int) : Nat :=
  (b * twoTo q.toNat * tenTo (-e).toNat) / (tenTo e.toNat * twoTo (-q).toNat)

/-- The reals that round to `m * 2 ^ q`, as quarters of its unit; the ends belong to an even `m`. -/
structure Rounding where
  low : Nat
  mid : Nat
  high : Nat
  exponent : Int
  closed : Bool

def Rounding.ofBinary (m : Nat) (q : Int) (binadeStart : Bool) : Rounding :=
  { low := if binadeStart then 4 * m - 1 else 4 * m - 2
    mid := 4 * m
    high := 4 * m + 2
    exponent := q - 2
    closed := m % 2 = 0 }

def Rounding.contains (r : Rounding) (d : Nat) (e : Int) : Bool :=
  let above := compareScaled d e r.low r.exponent
  let below := compareScaled d e r.high r.exponent
  (above == .gt || (r.closed && above == .eq)) && (below == .lt || (r.closed && below == .eq))

/-- Of the two neighbours of the value on a decimal grid, one that reads back, the nearer first. -/
def Rounding.pick (r : Rounding) (e : Int) : Option Nat :=
  let d := floorAt e r.mid r.exponent
  let hits := [d, d + 1].filter fun c => c > 0 && r.contains c e
  match hits with
  | [] => none
  | [c] => some c
  | _ =>
    match compareScaled (2 * d + 1) e (2 * r.mid) r.exponent with
    | .gt => some d
    | .lt => some (d + 1)
    | .eq => some (if d % 2 = 0 then d else d + 1)

/-- Grids from coarse to fine; the first with a hit has the fewest digits. -/
def Rounding.search (r : Rounding) : Nat → Int → Option Scaled
  | 0, _ => none
  | n + 1, e =>
    match r.pick e with
    | some d => some ⟨d, e⟩
    | none => r.search n (e - 1)

/-- Trailing zeros move into the exponent. -/
def Scaled.strip (s : Scaled) : Scaled :=
  go 20 s
where
  go : Nat → Scaled → Scaled
    | 0, s => s
    | n + 1, s => if s.digits % 10 = 0 && s.digits ≠ 0 then go n ⟨s.digits / 10, s.exponent + 1⟩ else s

/-- Decimal exponents above that of any double with this binary exponent. -/
private def topExponent (m : Nat) (q : Int) : Int :=
  ((q + m.log2 + 1) * 30103) / 100000 + 2

def shortest (x : Binary64) : Scaled :=
  if x.significand = 0 then ⟨0, 0⟩
  else
    let r := Rounding.ofBinary x.significand x.exponent x.isBinadeStart
    ((r.search 25 (topExponent x.significand x.exponent)).getD ⟨0, 0⟩).strip

end BatchExport.Decimal
