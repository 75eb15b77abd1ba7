import JsonShapes.Text.PrintableTable

/-!
# Texts shown in messages

Messages show a text between quotes. The quote is a single one unless the text holds single quotes
and no double ones. A backslash and the chosen quote are escaped, the common controls have short
escapes, and whatever else cannot be printed is written as a hexadecimal number.
-/

namespace JsonShapes

def CodePoint.isPrintable (c : CodePoint) : Bool :=
  PrintableTable.ranges.any fun (first, last) => first ≤ c.val && c.val ≤ last

namespace Text

/-- One code point of a text shown between the given quotes. -/
def displayPoint (quote c : CodePoint) : Text :=
  if c = quote || c = '\\' then ['\\', c]
  else if c = '\n' then "\\n"
  else if c = '\r' then "\\r"
  else if c = '\t' then "\\t"
  else if c.isPrintable then [c]
  else if c.val < 0x100 then "\\x" ++ hex 2 c.val
  else if c.val < 0x10000 then "\\u" ++ hex 4 c.val
  else "\\U" ++ hex 8 c.val

/-- A text between quotes, as messages show it. -/
def display (t : Text) : Text :=
  let holds (c : CodePoint) := t.contains c
  let quote : CodePoint := if holds '\'' && !holds '"' then '"' else '\''
  quote :: t.flatMap (displayPoint quote) ++ [quote]

/-- A list of texts between brackets, as messages show it. -/
def displayList (ts : List Text) : Text := "[" ++ join ", " (ts.map display) ++ "]"

end Text

end JsonShapes
