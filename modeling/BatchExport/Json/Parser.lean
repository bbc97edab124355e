import BatchExport.Decimal.Power
import BatchExport.Json.Value
import BatchExport.Text.Decimal

/-! Reading JSON text. -/
namespace BatchExport.Json.Parser

def isSpace (c : Char) : Bool := c == ' ' || c == '\n' || c == '\t' || c == '\r'

def skipSpace (cs : List Char) : List Char := cs.dropWhile isSpace

/-- Four hexadecimal digits. -/
def unit? (a b c d : Char) : Option Nat := do
  let a ← Text.hexValue? a
  let b ← Text.hexValue? b
  let c ← Text.hexValue? c
  let d ← Text.hexValue? d
  return ((a * 16 + b) * 16 + c) * 16 + d

def isLeadSurrogate (n : Nat) : Bool := 0xD800 ≤ n && n < 0xDC00

def isTrailSurrogate (n : Nat) : Bool := 0xDC00 ≤ n && n < 0xE000

/-- The single-letter escapes. -/
def shortEscape? : Char → Option Char
  | '"' => some '"'
  | '\\' => some '\\'
  | '/' => some '/'
  | 'b' => some '\x08'
  | 'f' => some '\x0c'
  | 'n' => some '\n'
  | 'r' => some '\r'
  | 't' => some '\t'
  | _ => none

/-- One escape after its backslash. Surrogates must come in pairs. -/
def escape : List Char → Option (Char × List Char)
  | 'u' :: a :: b :: c :: d :: rest => do
    let n ← unit? a b c d
    if isTrailSurrogate n then none
    else if isLeadSurrogate n then
      match rest with
      | '\\' :: 'u' :: e :: f :: g :: h :: rest => do
        let m ← unit? e f g h
        if isTrailSurrogate m then some (Char.ofNat (0x10000 + (n - 0xD800) * 0x400 + (m - 0xDC00)), rest)
        else none
      | _ => none
    else some (Char.ofNat n, rest)
  | c :: rest => (shortEscape? c).map (·, rest)
  | [] => none

/-- The rest of a string after its opening quote. -/
def stringTail : Nat → List Char → Option (List Char × List Char)
  | 0, _ => none
  | _ + 1, [] => none
  | n + 1, c :: rest =>
    if c = '"' then some ([], rest)
    else if c = '\\' then do
      let (e, rest) ← escape rest
      let (text, rest) ← stringTail n rest
      return (e :: text, rest)
    else if c.toNat < 0x20 then none
    else do
      let (text, rest) ← stringTail n rest
      return (c :: text, rest)

def string (cs : List Char) : Option (String × List Char) := do
  let (text, rest) ← stringTail (cs.length + 1) cs
  return (String.ofList text, rest)

def digits (cs : List Char) : List Nat × List Char :=
  (cs.takeWhile Char.isDigit |>.filterMap Text.digitValue?, cs.dropWhile Char.isDigit)

/-- Digits are taken up while the number stays below 2^64; later ones only count. -/
def significand : Nat → List Nat → Nat × Nat
  | n, [] => (n, 0)
  | n, d :: ds =>
    if n * 10 + d ≤ maxWord then significand (n * 10 + d) ds else (n, ds.length + 1)

/-- A decimal as a double: the significand times or divided by powers of ten, at most 1e308 at a time. -/
def scale : Nat → Float → Int → Option Float
  | 0, f, _ => some f
  | n + 1, f, e =>
    if e.natAbs ≤ 308 then
      let power := Float.ofScientific 1 false e.natAbs
      if 0 ≤ e then
        let g := f * power
        if g.isInf then none else some g
      else some (f / power)
    else if f == 0.0 then some f
    else if 0 ≤ e then none
    else scale n (f / Float.ofScientific 1 false 308) (e + 308)

def real (negative : Bool) (m : Nat) (e : Int) : Option JsonNumber := do
  let f ← scale (e.natAbs + 1) m.toUInt64.toFloat e
  return .real (Binary64.ofFloat (if negative then -f else f))

/-- The exponent part, if there is one. -/
def power : List Char → Option (Option Int × List Char)
  | c :: rest =>
    if c = 'e' || c = 'E' then
      let (negative, rest) := match rest with
        | '-' :: r => (true, r)
        | '+' :: r => (false, r)
        | r => (false, r)
      match digits rest with
      | ([], _) => none
      | (ds, rest) =>
        let n : Nat := ds.foldl (fun n d => 10 * n + d) 0
        some (some (if negative then -(n : Int) else n), rest)
    else some (none, c :: rest)
  | [] => some (none, [])

/-- A number. Without fraction and exponent it is an integer if it fits 64 bits. -/
def number (cs : List Char) : Option (JsonNumber × List Char) := do
  let (negative, cs) := match cs with
    | '-' :: r => (true, r)
    | r => (false, r)
  let (whole, rest) := digits cs
  if whole.isEmpty || (whole.head? == some 0 && whole.length > 1) then none
  let (m, dropped) := significand 0 whole
  let (fraction, rest) ← match rest with
    | '.' :: r => match digits r with
      | ([], _) => none
      | (ds, r) => some (some ds, r)
    | r => some (none, r)
  let (exponent, rest) ← power rest
  if fraction.isNone && exponent.isNone then
    if dropped = 0 && !negative then return (.integer m, rest)
    else if dropped = 0 && 0 < m && m ≤ twoTo 63 then return (.integer (-(m : Int)), rest)
    else return (← real negative m dropped, rest)
  else
    let ds := fraction.getD []
    let (m', unread) := significand m ds
    let scaleBy : Int := (dropped : Int) - (ds.length - unread : Nat) + exponent.getD 0
    if m' = 0 then return (.real (Binary64.ofFloat (if negative then -0.0 else 0.0)), rest)
    else return (← real negative m' scaleBy, rest)

mutual

/-- One value; `depth` bounds how far arrays and objects nest. -/
def value : Nat → Nat → List Char → Option (Json × List Char)
  | 0, _, _ => none
  | n + 1, depth, cs =>
    match skipSpace cs with
    | '"' :: rest => do
      let (s, rest) ← string rest
      return (.string s, rest)
    | '[' :: rest => if depth ≤ 1 then none else do
      let (items, rest) ← match skipSpace rest with
        | ']' :: r => some ([], r)
        | r => elements n (depth - 1) r
      return (.array items, rest)
    | '{' :: rest => if depth ≤ 1 then none else do
      let (members, rest) ← match skipSpace rest with
        | '}' :: r => some ([], r)
        | r => members n (depth - 1) r
      return (.ofMembers members, rest)
    | 't' :: 'r' :: 'u' :: 'e' :: rest => some (.bool true, rest)
    | 'f' :: 'a' :: 'l' :: 's' :: 'e' :: rest => some (.bool false, rest)
    | 'n' :: 'u' :: 'l' :: 'l' :: rest => some (.null, rest)
    | rest => do
      let (x, rest) ← number rest
      return (.number x, rest)

/-- Values up to the closing bracket. -/
def elements : Nat → Nat → List Char → Option (List Json × List Char)
  | 0, _, _ => none
  | n + 1, depth, cs => do
    let (item, rest) ← value n depth cs
    match skipSpace rest with
    | ',' :: r => do
      let (more, r) ← elements n depth r
      return (item :: more, r)
    | ']' :: r => some ([item], r)
    | _ => none

/-- Members up to the closing brace. -/
def members : Nat → Nat → List Char → Option (List (String × Json) × List Char)
  | 0, _, _ => none
  | n + 1, depth, cs =>
    match skipSpace cs with
    | '"' :: rest => do
      let (key, rest) ← string rest
      match skipSpace rest with
      | ':' :: rest => do
        let (item, rest) ← value n depth rest
        match skipSpace rest with
        | ',' :: r => do
          let (more, r) ← members n depth r
          return ((key, item) :: more, r)
        | '}' :: r => some ([(key, item)], r)
        | _ => none
      | _ => none
    | _ => none

end

end Parser

/-- Containers may nest 127 deep. -/
def parseChars? (cs : List Char) : Option Json := do
  let (v, rest) ← Parser.value (2 * cs.length + 2) 128 cs
  if (Parser.skipSpace rest).isEmpty then some v else none

/-- The value a whole text holds. -/
def parse? (s : String) : Option Json := parseChars? s.toList

end BatchExport.Json
