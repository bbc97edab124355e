import BatchExport.Text.Decimal

/-! Quoted texts of TOML: basic ones with escapes, literal ones without, each on one line or on several. -/
namespace BatchExport.Toml

def isBlank (c : Char) : Bool := c == ' ' || c == '\t'

/-- Characters that stand for themselves: tabs and all that is no control character. -/
def isPlain (c : Char) : Bool := c == '\t' || (0x20 ≤ c.toNat && c.toNat ≠ 0x7F)

/-- The newline at the start, if there is one. -/
def newline? : List Char → Option (List Char)
  | '\n' :: rest => some rest
  | '\r' :: '\n' :: rest => some rest
  | _ => none

private def codePoint? (digits : List Char) : Option Char := do
  let n ← digits.foldlM (fun n c => (Text.hexValue? c).map (16 * n + ·)) 0
  if n < 0xD800 || (0xE000 ≤ n && n ≤ 0x10FFFF) then some (Char.ofNat n) else none

private def hexEscape (width : Nat) (cs : List Char) : Option (Char × List Char) :=
  if (cs.take width).length < width then none
  else (codePoint? (cs.take width)).map (·, cs.drop width)

/-- One escape after its backslash. -/
def escape : List Char → Option (Char × List Char)
  | 'b' :: rest => some ('\x08', rest)
  | 't' :: rest => some ('\t', rest)
  | 'n' :: rest => some ('\n', rest)
  | 'f' :: rest => some ('\x0c', rest)
  | 'r' :: rest => some ('\r', rest)
  | '"' :: rest => some ('"', rest)
  | '\\' :: rest => some ('\\', rest)
  | 'u' :: rest => hexEscape 4 rest
  | 'U' :: rest => hexEscape 8 rest
  | _ => none

/-- The rest of a basic text on one line. -/
def basicTail : Nat → List Char → Option (List Char × List Char)
  | 0, _ => none
  | _, [] => none
  | _ + 1, '"' :: rest => some ([], rest)
  | n + 1, '\\' :: rest => do
    let (c, rest) ← escape rest
    let (text, rest) ← basicTail n rest
    return (c :: text, rest)
  | n + 1, c :: rest =>
    if isPlain c then (basicTail n rest).map fun (text, rest) => (c :: text, rest) else none

/-- A literal text on one line ends at the next apostrophe. -/
def literalTail (cs : List Char) : Option (List Char × List Char) :=
  let text := cs.takeWhile fun c => isPlain c && c != '\''
  match cs.drop text.length with
  | '\'' :: rest => some (text, rest)
  | _ => none

/-- A backslash at the end of a line swallows all white space up to the next character. -/
private def continued? (cs : List Char) : Option (List Char) :=
  (newline? (cs.dropWhile isBlank)).map fun rest =>
    rest.dropWhile fun c => isBlank c || c == '\n' || c == '\r'

/-- The quotes at the end of a text on several lines: the last three close it, up to two before belong to it. -/
private def closing? (quote : Char) (cs : List Char) : Option (List Char × List Char) :=
  let run := (cs.takeWhile (· == quote)).length
  if run < 3 then none
  else
    let own := min (run - 3) 2
    some (List.replicate own quote, cs.drop (own + 3))

/-- The rest of a text on several lines, with escapes or without. -/
def longTail (quote : Char) (escapes : Bool) : Nat → List Char → Option (List Char × List Char)
  | 0, _ => none
  | _, [] => none
  | n + 1, c :: rest =>
    match closing? quote (c :: rest) with
    | some found => some found
    | none =>
      if escapes && c == '\\' then
        match continued? rest with
        | some rest => longTail quote escapes n rest
        | none => do
          let (e, rest) ← escape rest
          let (text, rest) ← longTail quote escapes n rest
          return (e :: text, rest)
      else match newline? (c :: rest) with
        | some rest => (longTail quote escapes n rest).map fun (text, rest) => ('\n' :: text, rest)
        | none =>
          if isPlain c then (longTail quote escapes n rest).map fun (text, rest) => (c :: text, rest)
          else none

/-- A newline right after the opening quotes is not part of the text. -/
def long (quote : Char) (escapes : Bool) (cs : List Char) : Option (List Char × List Char) :=
  longTail quote escapes (cs.length + 1) ((newline? cs).getD cs)

/-- A quoted text of one line, as in keys. -/
def short? : List Char → Option (List Char × List Char)
  | '"' :: rest => basicTail (rest.length + 1) rest
  | '\'' :: rest => literalTail rest
  | _ => none

/-- Any quoted text; three quotes open one of several lines. -/
def quoted? : List Char → Option (List Char × List Char)
  | '"' :: '"' :: '"' :: rest => long '"' true rest
  | '\'' :: '\'' :: '\'' :: rest => long '\'' false rest
  | cs => short? cs

end BatchExport.Toml
