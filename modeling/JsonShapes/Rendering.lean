import JsonShapes.Markdown
import JsonShapes.Schema

/-!
# Rendering on request

What is asked of the output may be incomplete: an indentation or a name can be left without a
value. Rendering is an error only where the missing value is needed.
-/

namespace JsonShapes

/-- What is asked of the layout. -/
structure Preferences where
  indent : Option Text := some "  "
  minify : Bool := false

namespace Preferences

/-- The layout asked for. Where the indentation is missing, it does not matter. -/
def options (p : Preferences) : Emit.Options where
  indent := p.indent.getD []
  minify := p.minify

/-- The line of a shape that needs the missing indentation, if there is one. -/
def lacking? (p : Preferences) (g : Emit.Grammar) (s : Shape) : Option Emit.IndentedLine :=
  if p.minify || p.indent.isSome then none else Emit.indentedLine? g s

/-- The module that exports a shape. The name is needed after the shape is written. -/
def moduleText (p : Preferences) (target : Emit.Target) (name : Option Text) (s : Shape) :
    Except Error Text :=
  match p.lacking? target.grammar s with
  | some line => .error (.noIndent line)
  | none =>
    match name with
    | none => .error .noName
    | some name => Error.ofFault (Emit.emitModule target p.options name s)

/-- The schema document of a shape, with a title. -/
def schemaText (p : Preferences) (title : Text) (s : Shape) : Except Error Text :=
  match Schema.ofShape title s with
  | .error e => .error e
  | .ok schema =>
    if p.minify || p.indent.isSome then .ok (Schema.dump p.options schema)
    else .error .noSchemaIndent

/-- The page about endpoints, which is never minified. -/
def pageText (p : Preferences) (endpoints : List Endpoint) : Except Error Text :=
  let lines : Preferences := { p with minify := false }
  match endpoints.findSome? fun e => lines.lacking? Emit.typescript e.shape with
  | some line => .error (.noIndent line)
  | none => Error.ofFault (Markdown.page Markdown.defaultTitle lines.options.indent endpoints)

end Preferences

end JsonShapes
