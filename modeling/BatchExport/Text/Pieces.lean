/-! Text cut at a separator, put together again, and read as lines. -/
namespace BatchExport.Text

/-- The pieces between the separators; a text without one is a single piece. -/
def splitAt (sep : Char) : List Char → List (List Char)
  | [] => [[]]
  | c :: rest =>
    if c = sep then [] :: splitAt sep rest
    else match splitAt sep rest with
      | piece :: more => (c :: piece) :: more
      | [] => [[c]]

/-- Lines end at a newline; a carriage return before it belongs to the line end. A last line needs no end. -/
def lines (cs : List Char) : List (List Char) :=
  let stripReturn (line : List Char) : List Char :=
    match line.reverse with
    | '\r' :: r => r.reverse
    | _ => line
  match (splitAt '\n' cs).reverse with
  | [] => []
  | [] :: ended => (ended.map stripReturn).reverse
  | last :: ended => (last :: ended.map stripReturn).reverse

/-- Does the text begin with these characters? -/
def startsWith (lead : List Char) (cs : List Char) : Bool := lead.isPrefixOf cs

/-- Every occurrence of a non-empty text replaced, left to right without overlap. -/
def replaceAll (old new : List Char) (cs : List Char) : List Char :=
  go cs.length cs
where
  go : Nat → List Char → List Char
    | 0, rest => rest
    | _ + 1, [] => []
    | n + 1, c :: rest =>
      if !old.isEmpty && startsWith old (c :: rest) then new ++ go n ((c :: rest).drop old.length)
      else c :: go n rest

def joinWith (sep : String) (parts : List String) : String := String.intercalate sep parts

end BatchExport.Text
