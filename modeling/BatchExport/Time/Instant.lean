import BatchExport.Decimal.Power
import BatchExport.Text.Blank
import BatchExport.Text.Decimal
import BatchExport.Time.Calendar

/-! Instants of universal time, written and read as RFC 3339 texts. -/
namespace BatchExport

/-- Seconds since 1970 and nanoseconds into the second; a leap second has 10^9 of them or more. -/
structure Instant where
  seconds : Int
  nanos : Nat
  deriving DecidableEq, Repr, Inhabited

namespace Instant

def epoch : Instant := ⟨0, 0⟩

/-- No fraction, milliseconds, microseconds or nanoseconds: the fewest groups that are exact. -/
def fractionText (nanos : Nat) : String :=
  if nanos = 0 then ""
  else if nanos % 1000000 = 0 then "." ++ Text.padded 3 (nanos / 1000000)
  else if nanos % 1000 = 0 then "." ++ Text.padded 6 (nanos / 1000)
  else "." ++ Text.padded 9 nanos

/-- Four digits, or a sign and at least four. -/
def yearText (y : Int) : String :=
  if 0 ≤ y && y ≤ 9999 then Text.padded 4 y.toNat
  else (if y < 0 then "-" else "+") ++ Text.padded 4 y.natAbs

def render (t : Instant) : String :=
  let date := Date.ofDays (t.seconds / 86400)
  let clock := (t.seconds % 86400).toNat
  let leap := t.nanos / 1000000000
  yearText date.year ++ "-" ++ Text.padded 2 date.month ++ "-" ++ Text.padded 2 date.day ++ "T" ++
    Text.padded 2 (clock / 3600) ++ ":" ++ Text.padded 2 (clock / 60 % 60) ++ ":" ++
    Text.padded 2 (clock % 60 + leap) ++ fractionText (t.nanos % 1000000000) ++ "Z"

/-- Up to `most` digits, at least one. -/
def takeNumber (most : Nat) (cs : List Char) : Option (Nat × List Char) :=
  let run := (cs.takeWhile Char.isDigit).take most
  (Text.natOfDigits? run).map (·, cs.drop run.length)

def expect (c : Char) (cs : List Char) : Option (List Char) :=
  match cs with
  | d :: rest => if d = c then some rest else none
  | [] => none

def spaced (cs : List Char) : List Char := Text.trimLeft cs

/-- A year has up to four digits, any number of them after a sign. -/
def takeYear (cs : List Char) : Option (Int × List Char) :=
  match spaced cs with
  | '-' :: rest => (takeNumber rest.length rest).map fun (n, r) => (-(n : Int), r)
  | '+' :: rest => (takeNumber rest.length rest).map fun (n, r) => ((n : Int), r)
  | rest => (takeNumber 4 rest).map fun (n, r) => ((n : Int), r)

def takePair (cs : List Char) : Option (Nat × List Char) := takeNumber 2 (spaced cs)

/-- Digits past the ninth place are dropped. -/
def takeFraction (cs : List Char) : Option (Nat × List Char) :=
  match cs with
  | '.' :: rest => do
    let run := rest.takeWhile Char.isDigit
    let kept := run.take 9
    let n ← Text.natOfDigits? kept
    return (n * tenTo (9 - kept.length), rest.drop run.length)
  | _ => some (0, cs)

def twoDigits : List Char → Option (Nat × List Char)
  | a :: b :: rest => do
    let x ← Text.digitValue? a
    let y ← Text.digitValue? b
    return (10 * x + y, rest)
  | _ => none

/-- Seconds east of Greenwich: `Z`, `UTC`, or a sign, hours and minutes. -/
def takeOffset (cs : List Char) : Option (Int × List Char) :=
  let utc := (cs.take 3).map Char.toLower
  if utc = ['u', 't', 'c'] then some (0, cs.drop 3)
  else match cs with
    | [] => none
    | c :: rest =>
      if c = 'Z' || c = 'z' then some (0, rest)
      else if c = '+' || c = '-' || c = '−' then do
        let (hours, rest) ← twoDigits rest
        let rest := rest.dropWhile fun c => c = ':' || Text.isBlankChar c
        let (minutes, rest) ← twoDigits rest
        if minutes ≥ 60 then none
        let east : Int := hours * 3600 + minutes * 60
        some (if c = '+' then east else -east, rest)
      else none

/-- Years that instants may have. -/
def yearInRange (y : Int) : Bool := -262143 ≤ y && y ≤ 262142

/-- Date, `T`, `t` or a blank, time and offset; spaces may stand around the numbers. -/
def parse? (s : String) : Option Instant := do
  let (year, cs) ← takeYear s.toList
  let cs ← expect '-' (spaced cs)
  let (month, cs) ← takePair cs
  let cs ← expect '-' (spaced cs)
  let (day, cs) ← takePair cs
  let cs ← match cs with
    | c :: rest => if c = 'T' || c = 't' || c = ' ' then some rest else none
    | [] => none
  let (hour, cs) ← takePair cs
  let cs ← expect ':' (spaced cs)
  let (minute, cs) ← takePair cs
  let cs ← expect ':' (spaced cs)
  let (second, cs) ← takePair cs
  let (nanos, cs) ← takeFraction cs
  let (east, cs) ← takeOffset (spaced cs)
  let date : Date := ⟨year, month, day⟩
  if !(spaced cs).isEmpty || !date.isValid || !yearInRange year || hour > 23 || minute > 59 ||
      second > 60 || east.natAbs ≥ 86400 then none
  let clock : Nat := hour * 3600 + minute * 60 + min second 59
  some ⟨date.toDays * 86400 + clock - east, nanos + (if second = 60 then 1000000000 else 0)⟩

/-- Nanoseconds from one instant to another. -/
def nanosUntil (start stop : Instant) : Int :=
  (stop.seconds - start.seconds) * 1000000000 + (stop.nanos - start.nanos)

end Instant
end BatchExport
