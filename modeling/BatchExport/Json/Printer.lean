import BatchExport.Decimal.Shortest
import BatchExport.Json.Value
import BatchExport.Text.Decimal

/-! Compact JSON text: no spaces, the fewest escapes, and shortest doubles. -/
namespace BatchExport.Json

/-- Doubles are positional from 1e-5 up to 1e16 and keep a fraction; outside, the exponent is signed. -/
def realText (x : Binary64) : String :=
  let sign := if x.isNegative then "-" else ""
  if !x.isFinite then "null"
  else if x.significand = 0 then sign ++ "0.0"
  else
    let s := Decimal.shortest x
    let ds := Nat.toDigits 10 s.digits
    let point := ds.length + s.exponent
    let body : List Char :=
      if 0 ≤ s.exponent && point ≤ 16 then ds ++ List.replicate s.exponent.toNat '0' ++ ['.', '0']
      else if 0 < point && point ≤ 16 then ds.take point.toNat ++ '.' :: ds.drop point.toNat
      else if -5 < point && point ≤ 0 then '0' :: '.' :: List.replicate (-point).toNat '0' ++ ds
      else
        let fraction := if ds.length = 1 then [] else '.' :: ds.drop 1
        let power := point - 1
        ds.take 1 ++ fraction ++ 'e' :: (if power < 0 then '-' else '+') :: Nat.toDigits 10 power.natAbs
    sign ++ String.ofList body

def integerText (n : Int) : List Char :=
  if n < 0 then '-' :: Nat.toDigits 10 n.natAbs else Nat.toDigits 10 n.natAbs

def numberText : JsonNumber → List Char
  | .integer n => integerText n
  | .real x => (realText x).toList

def escapeChar (c : Char) : List Char :=
  if c = '"' then ['\\', '"']
  else if c = '\\' then ['\\', '\\']
  else if c = '\n' then ['\\', 'n']
  else if c = '\r' then ['\\', 'r']
  else if c = '\t' then ['\\', 't']
  else if c = '\x08' then ['\\', 'b']
  else if c = '\x0c' then ['\\', 'f']
  else if c.toNat < 0x20 then
    ['\\', 'u', '0', '0', Text.hexDigit (c.toNat / 16), Text.hexDigit (c.toNat % 16)]
  else [c]

def quote (s : String) : List Char := '"' :: s.toList.flatMap escapeChar ++ ['"']

mutual

def write : Json → List Char
  | .null => ['n', 'u', 'l', 'l']
  | .bool true => ['t', 'r', 'u', 'e']
  | .bool false => ['f', 'a', 'l', 's', 'e']
  | .number n => numberText n
  | .string s => quote s
  | .array items => '[' :: writeItems items ++ [']']
  | .object members => '{' :: writeMembers members ++ ['}']

def writeItems : List Json → List Char
  | [] => []
  | [item] => write item
  | item :: more => write item ++ ',' :: writeItems more

def writeMembers : List (String × Json) → List Char
  | [] => []
  | [(k, v)] => quote k ++ ':' :: write v
  | (k, v) :: more => quote k ++ ':' :: write v ++ ',' :: writeMembers more

end

def render (j : Json) : String := String.ofList j.write

end BatchExport.Json
