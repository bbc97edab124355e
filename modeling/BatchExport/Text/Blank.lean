/-! White space of the Unicode standard, and text stripped of it. -/
namespace BatchExport.Text

/-- The characters with the property White_Space. -/
def isBlankChar (c : Char) : Bool :=
  let n := c.toNat
  (9 ≤ n && n ≤ 13) || n == 0x20 || n == 0x85 || n == 0xA0 || n == 0x1680 ||
    (0x2000 ≤ n && n ≤ 0x200A) || n == 0x2028 || n == 0x2029 || n == 0x202F ||
    n == 0x205F || n == 0x3000

def trimLeft (cs : List Char) : List Char := cs.dropWhile isBlankChar

def trimRight (cs : List Char) : List Char := (trimLeft cs.reverse).reverse

/-- The text without its leading and trailing white space. -/
def trim (s : String) : String := String.ofList (trimRight (trimLeft s.toList))

/-- Only white space, or nothing at all. -/
def isBlank (s : String) : Bool := s.toList.all isBlankChar

end BatchExport.Text
