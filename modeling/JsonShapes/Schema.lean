import JsonShapes.Emit.Writer
import JsonShapes.Error
import JsonShapes.Json.Printer

/-!
# JSON Schemas

A shape as a JSON Schema document of draft 2020-12. A property that may be absent has the schema of
its inner type and is left out of the list of required ones. A tagged union is a choice of exactly
one, with its discriminator as an annotation.
-/

namespace JsonShapes

namespace Schema

/-- The draft that documents declare. -/
def draft : Text := "https://json-schema.org/draft/2020-12/schema"

def typed (name : Text) (rest : List (Text × Json)) : Json := .obj (("type", .str name) :: rest)

def ofScalar : Scalar → Json
  | .unknown => .obj []
  | kind => typed kind.name []

/-- A pinned value. Unless it is a string its text has to be a JSON document. -/
def ofLiteral (value jsonType : Text) : Except Error Json :=
  if jsonType = Text.ofString "string" then .ok (typed jsonType [("const", .str value)])
  else
    match Json.parse value with
    | .ok j => .ok (typed jsonType [("const", j)])
    | .error e => .error (.json e)

/-- The keys of the properties that have to be present. -/
def requiredKeys (fields : List (Text × Shape)) : List Text :=
  Fields.keys (fields.filter fun field => !field.2.isOptional)

/-- A record schema, given the schemas of its properties. -/
def ofRecord (fields : List (Text × Shape)) (properties : List (Text × Json)) : Json :=
  let required := requiredKeys fields
  typed "object" (("properties", .obj properties) ::
    if required.isEmpty then [] else [("required", .arr (required.map Json.str))])

/-- A union schema, given the schemas of its variants. -/
def ofUnion (discriminator : Option Text) (variants : List Json) : Json :=
  match discriminator with
  | some field =>
    .obj [("oneOf", .arr variants), ("discriminator", .obj [("propertyName", .str field)])]
  | none => .obj [("anyOf", .arr variants)]

mutual

/-- The schema of a shape as part of a document. -/
def fragment : Shape → Except Error Json
  | .scalar kind => .ok (ofScalar kind)
  | .literal value jsonType => ofLiteral value jsonType
  | .optional inner => fragment inner
  | .object fields => do
    return ofRecord fields (← fragmentFields fields)
  | .array element => do
    return typed "array" [("items", ← fragment element)]
  | .union discriminator variants => do
    return ofUnion discriminator (← fragmentAll variants)
  | .foreign kind => .error (.shape (.unexpectedNode kind "json schema"))

def fragmentFields : List (Text × Shape) → Except Error (List (Text × Json))
  | [] => .ok []
  | (key, s) :: rest => do
    let schema ← fragment s
    return (key, schema) :: (← fragmentFields rest)

def fragmentAll : List Shape → Except Error (List Json)
  | [] => .ok []
  | s :: rest => do
    let schema ← fragment s
    return schema :: (← fragmentAll rest)

end

/-- The document with a schema; an empty title is left out. -/
def document (title : Text) (schema : Json) : Json :=
  let titled : List (Text × Json) := if title.isEmpty then [] else [("title", .str title)]
  .obj (("$schema", .str draft) :: (titled ++ schema.members?.getD []))

/-- The schema document of a shape. -/
def ofShape (title : Text) (s : Shape) : Except Error Json := do
  return document title (← fragment s)

/-- The text of a schema document. -/
def dump (o : Emit.Options) (schema : Json) : Text :=
  (schema.print (if o.minify then .compact else .indented o.indent)).escapeSurrogates

end Schema

end JsonShapes
