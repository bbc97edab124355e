import BatchExport.Decimal.Power
import BatchExport.Json.Value
import BatchExport.Time.Calendar
import BatchExport.Toml.Quoted

/-! Unquoted values of TOML: truth values, numbers, dates and times. -/
namespace BatchExport.Toml

abbrev Reader (α : Type) := List Char → Option (α × List Char)

/-- Digits of a base, with single underscores between them; the underscores are dropped. -/
def digitRun (isDigit : Char → Bool) (cs : List Char) : Option (List Char × List Char) :=
  match go cs with
  | ([], _) => none
  | found => some found
where
  go : List Char → List Char × List Char
    | [] => ([], [])
    | c :: rest =>
      if isDigit c then
        let (ds, rest) := after rest
        (c :: ds, rest)
      else ([], c :: rest)
  after : List Char → List Char × List Char
    | '_' :: c :: rest =>
      if isDigit c then
        let (ds, rest) := after rest
        (c :: ds, rest)
      else ([], '_' :: c :: rest)
    | c :: rest =>
      if isDigit c then
        let (ds, rest) := after rest
        (c :: ds, rest)
      else ([], c :: rest)
    | [] => ([], [])

def sign : List Char → Bool × List Char
  | '-' :: rest => (true, rest)
  | '+' :: rest => (false, rest)
  | cs => (false, cs)

/-- Whole digits without a leading zero, unless they are a zero. -/
def wholeDigits : Reader (List Char)
  | '0' :: rest => some (['0'], rest)
  | cs => digitRun Char.isDigit cs

private def valueIn (base : Nat) (ds : List Char) : Nat :=
  ds.foldl (fun n c => base * n + (Text.hexValue? c).getD 0) 0

/-- Integers have 64 bits. -/
def integerInRange (n : Int) : Bool := -(twoTo 63 : Int) ≤ n && n < twoTo 63

private def based (base : Nat) (isDigit : Char → Bool) (cs : List Char) : Option (Json × List Char) := do
  let (ds, rest) ← digitRun isDigit cs
  let n : Int := valueIn base ds
  if integerInRange n then some (.number (.integer n), rest) else none

def integer : Reader Json
  | '0' :: 'x' :: rest => based 16 (fun c => (Text.hexValue? c).isSome) rest
  | '0' :: 'o' :: rest => based 8 (fun c => '0' ≤ c && c ≤ '7') rest
  | '0' :: 'b' :: rest => based 2 (fun c => c == '0' || c == '1') rest
  | cs => do
    let (negative, cs) := sign cs
    let (ds, rest) ← wholeDigits cs
    let n : Int := if negative then -(valueIn 10 ds : Int) else valueIn 10 ds
    if integerInRange n then some (.number (.integer n), rest) else none

private def fractionDigits : Reader (List Char)
  | '.' :: rest => digitRun Char.isDigit rest
  | _ => none

private def exponentValue (cs : List Char) : Option (Int × List Char) :=
  match cs with
  | c :: rest =>
    if c == 'e' || c == 'E' then do
      let (negative, rest) := sign rest
      let (ds, rest) ← digitRun Char.isDigit rest
      let n : Int := valueIn 10 ds
      return (if negative then -n else n, rest)
    else none
  | [] => none

/-- The double nearest to `m * 10 ^ e`. -/
def nearestReal (m : Nat) (e : Int) : Float :=
  let size : Int := (Nat.toDigits 10 m).length
  if m = 0 || e + size < -400 then 0.0
  else if e + size > 400 then 1.0 / 0.0
  else Float.ofScientific m (e < 0) e.natAbs

/-- A number with a fraction or an exponent; one that is too large is refused. -/
def decimalReal (cs : List Char) : Option (Json × List Char) := do
  let (negative, cs) := sign cs
  let (whole, cs) ← wholeDigits cs
  let (fraction, cs) := (fractionDigits cs).getD ([], cs)
  let (exponent, rest) := (exponentValue cs).getD (0, cs)
  if fraction.isEmpty && (exponentValue cs).isNone then none
  let magnitude := nearestReal (valueIn 10 (whole ++ fraction)) (exponent - fraction.length)
  if magnitude.isInf && !negative then none
  return (.number (.real (.ofFloat (if negative then -magnitude else magnitude))), rest)

/-- Infinity and not-a-number, with an optional sign. -/
def specialReal (cs : List Char) : Option (Json × List Char) :=
  let (negative, cs) := sign cs
  let real (x : Float) (rest : List Char) : Option (Json × List Char) :=
    some (.number (.real (.ofFloat (if negative then -x else x))), rest)
  match cs with
  | 'i' :: 'n' :: 'f' :: rest => real (1.0 / 0.0) rest
  | 'n' :: 'a' :: 'n' :: rest => real (0.0 / 0.0) rest
  | _ => none

private def fixedDigits (width : Nat) (cs : List Char) : Option (Nat × List Char) :=
  let ds := cs.take width
  if ds.length = width && ds.all Char.isDigit then some (valueIn 10 ds, cs.drop width) else none

private def expectChar (c : Char) : List Char → Option (List Char)
  | d :: rest => if d == c then some rest else none
  | [] => none

/-- A date, normalised. -/
private def dateText (cs : List Char) : Option (String × List Char) := do
  let (year, cs) ← fixedDigits 4 cs
  let (month, cs) ← fixedDigits 2 (← expectChar '-' cs)
  let (day, cs) ← fixedDigits 2 (← expectChar '-' cs)
  if Date.isValid ⟨year, month, day⟩ then
    some (Text.padded 4 year ++ "-" ++ Text.padded 2 month ++ "-" ++ Text.padded 2 day, cs)
  else none

/-- Digits of a second's fraction, at most nine, without zeros at the end. -/
private def secondFraction (cs : List Char) : String × List Char :=
  match cs with
  | '.' :: rest =>
    let ds := rest.takeWhile Char.isDigit
    let kept := ((ds.take 9).reverse.dropWhile (· == '0')).reverse
    if ds.isEmpty then ("", cs)
    else (if kept.isEmpty then "" else "." ++ String.ofList kept, rest.drop ds.length)
  | _ => ("", cs)

private def timeText (cs : List Char) : Option (String × List Char) := do
  let (hour, cs) ← fixedDigits 2 cs
  let (minute, cs) ← fixedDigits 2 (← expectChar ':' cs)
  let (second, cs) ← fixedDigits 2 (← expectChar ':' cs)
  let (fraction, cs) := secondFraction cs
  if hour ≤ 23 && minute ≤ 59 && second ≤ 60 then
    some (Text.padded 2 hour ++ ":" ++ Text.padded 2 minute ++ ":" ++ Text.padded 2 second ++ fraction, cs)
  else none

private def offsetText (cs : List Char) : Option (String × List Char) :=
  match cs with
  | 'Z' :: rest | 'z' :: rest => some ("Z", rest)
  | c :: rest =>
    if c == '+' || c == '-' then do
      let (hour, rest) ← fixedDigits 2 rest
      let (minute, rest) ← fixedDigits 2 (← expectChar ':' rest)
      if hour ≤ 23 && minute ≤ 59 then
        some (String.ofList [c] ++ Text.padded 2 hour ++ ":" ++ Text.padded 2 minute, rest)
      else none
    else none
  | [] => none

/-- The member under which a date or a time stands when it is read as a table. -/
def momentKey : String := "$__toml_private_datetime"

/-- A date, a time, or both with an optional offset. -/
def moment (cs : List Char) : Option (Json × List Char) :=
  let found (text : String) (rest : List Char) : Option (Json × List Char) :=
    some (.object [(momentKey, .string text)], rest)
  match dateText cs with
  | none => timeText cs >>= fun (time, rest) => found time rest
  | some (date, rest) =>
    let timed : Option (String × List Char) :=
      match rest with
      | c :: rest => if c == 'T' || c == 't' || c == ' ' then timeText rest else none
      | [] => none
    match timed with
    | none => found date rest
    | some (time, rest) =>
      let (offset, rest) := (offsetText rest).getD ("", rest)
      found (date ++ "T" ++ time ++ offset) rest

/-- The readings of a text that starts with a digit or a sign are tried in this order. -/
def scalar? (cs : List Char) : Option (Json × List Char) :=
  match cs with
  | 't' :: 'r' :: 'u' :: 'e' :: rest => some (.bool true, rest)
  | 'f' :: 'a' :: 'l' :: 's' :: 'e' :: rest => some (.bool false, rest)
  | _ => moment cs <|> decimalReal cs <|> specialReal cs <|> integer cs

end BatchExport.Toml
