import JsonShapes.Emit.Writer
import JsonShapes.Text.Case

/-!
# Markdown pages

The documentation of endpoints: for each a heading, a table of the fields of a record type, and the
type as TypeScript in a code block.
-/

namespace JsonShapes

/-- The inferred type of one endpoint. -/
structure Endpoint where
  method : Text
  path : Text
  typeName : Text
  shape : Shape

namespace Markdown

/-- A row of a field table. -/
structure FieldRow where
  name : Text
  type : Text
  required : Bool
deriving DecidableEq

/-- The rows for the properties of a record, whose types are written on one line. -/
def rows : List (Text × Shape) → Except Fault (List FieldRow)
  | [] => .ok []
  | (key, s) :: rest => do
    let type ← Emit.emit .typescript { minify := true } s.unwrap
    return ⟨key.escapeSurrogates, type, !s.isOptional⟩ :: (← rows rest)

/-- The fields of a record type; other types have none. -/
def describeFields (s : Shape) : Except Fault (List FieldRow) := rows (s.fields?.getD [])

/-- A text inside a table cell, where a bar would end the cell. -/
def escapeBars (t : Text) : Text :=
  t.flatMap fun c : CodePoint => if c = '|' then ['\\', '|'] else [c]

/-- The line of a row without its end: the cell of the name, and behind it the other two. -/
def rowText (row : FieldRow) : Text :=
  "| `" ++ row.name ++ "` |" ++ (" `" ++ escapeBars row.type ++ "` | " ++
    (if row.required then Text.ofString "yes" else "no") ++ " |")

/-- A line of a field table. -/
def rowLine (row : FieldRow) : Text := rowText row ++ [CodePoint.ofChar '\n']

/-- The two lines on top of a field table. -/
def tableHead : Text := "| Field | Type | Required |\n|---|---|---|\n"

/-- The field table, if there are fields. -/
def table (fields : List FieldRow) : Text :=
  if fields.isEmpty then [] else tableHead ++ (fields.flatMap rowLine ++ [CodePoint.ofChar '\n'])

/-- What the page says of an endpoint before it lists the fields. -/
def heading (endpoint : Endpoint) : Text :=
  "## " ++ endpoint.method.upper ++ " `" ++ endpoint.path.escapeSurrogates ++ "`\n\n" ++
    "Response type: `" ++ endpoint.typeName ++ "`\n\n"

/-- The declaration of a type in a block of code. -/
def codeBlock (typeName declaration : Text) : Text :=
  "```ts\nexport type " ++ typeName ++ " = " ++ declaration ++ ";\n```\n\n"

/-- What an endpoint contributes to the page. -/
def endpointText (indent : Text) (endpoint : Endpoint) : Except Fault Text := do
  let declaration ← Emit.emit .typescript { indent := indent } endpoint.shape
  let fields ← describeFields endpoint.shape
  return heading endpoint ++ table fields ++ codeBlock endpoint.typeName declaration

def sections (indent : Text) : List Endpoint → Except Fault Text
  | [] => .ok []
  | endpoint :: rest => do
    let text ← endpointText indent endpoint
    return text ++ (← sections indent rest)

/-- The heading of a page when none is asked for. -/
def defaultTitle : Text := "API Documentation"

/-- The page for a list of endpoints. -/
def page (title indent : Text) (endpoints : List Endpoint) : Except Fault Text := do
  return "# " ++ title ++ "\n\n" ++ (← sections indent endpoints)

end Markdown

end JsonShapes
