/-! Rows of comma-separated values. Fields are quoted only where they need it. -/
namespace BatchExport.Csv

def needsQuotes (field : List Char) : Bool :=
  field.any fun c => c == ',' || c == '"' || c == '\n' || c == '\r'

/-- A quote inside a quoted field is written twice. -/
def doubled : List Char → List Char
  | [] => []
  | c :: rest => if c = '"' then '"' :: '"' :: doubled rest else c :: doubled rest

def writeField (field : List Char) : List Char :=
  if needsQuotes field then '"' :: doubled field ++ ['"'] else field

/-- A row of one empty field is quoted, so that it is not an empty line. -/
def writeRow (fields : List (List Char)) : List Char :=
  if fields = [[]] then ['"', '"', '\n']
  else List.intercalate [','] (fields.map writeField) ++ ['\n']

end BatchExport.Csv
