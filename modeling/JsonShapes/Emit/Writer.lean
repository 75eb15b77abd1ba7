import JsonShapes.Emit.Grammar
import JsonShapes.Json.Quoted
import JsonShapes.Naming
import JsonShapes.Shape.Fault

/-!
# Writing shapes

A shape is written by one walk over the tree. Members of records and alternatives of block unions
stand on lines of their own, indented by their depth; minified output has no line breaks, no
indentation and no blanks but those inside tokens. A module exports one expression under a name.
-/

namespace JsonShapes

namespace Emit

/-- How output is laid out. -/
structure Options where
  indent : Text := "  "
  minify : Bool := false

namespace Options

def newline (o : Options) : Text := if o.minify then [] else ['\n']

def pad (o : Options) (depth : Nat) : Text := if o.minify then [] else Text.times depth o.indent

def keySeparator (o : Options) : Text := if o.minify then Text.ofString ":" else ": "

end Options

/-- Lines between an opening and a closing line, in output that is not minified. -/
def block (o : Options) (depth : Nat) (b : Brackets) (separator : Text) (items : List Text) :
    Text :=
  b.opening ++ o.newline ++
    Text.join (separator ++ o.newline) (items.map fun item => o.pad (depth + 1) ++ item) ++
    o.newline ++ o.pad depth ++ b.closing

mutual

/-- A shape whose first line is already indented to its depth. A foreign leaf is written as
nothing; `emit` refuses trees that have one. -/
def write (g : Grammar) (o : Options) (depth : Nat) : Shape → Text
  | .scalar kind => g.scalar kind
  | .literal value _ => g.literal.around value.quote
  | .optional inner => g.optional.around (write g o depth inner)
  | .object fields =>
    if fields.isEmpty then g.emptyRecord
    else block o depth g.record g.memberSeparator (writeMembers g o (depth + 1) fields)
  | .array element => g.array.around (write g o depth element)
  | .union discriminator variants =>
    let opening := g.unionOpening (discriminator.map Text.quote)
    if g.unionBlock then
      block o depth ⟨opening, g.unionClosing⟩ g.alternativeSeparator
        (writeAll g o (depth + 1) variants)
    else
      let separator := if o.minify then g.tightSeparator else g.alternativeSeparator
      opening ++ Text.join separator (writeAll g o depth variants) ++ g.unionClosing
  | .foreign _ => []

/-- The members of a record, each without its indentation. -/
def writeMembers (g : Grammar) (o : Options) (depth : Nat) : List (Text × Shape) → List Text
  | [] => []
  | (key, s) :: rest =>
    (key.quote ++ o.keySeparator ++ write g o depth s) :: writeMembers g o depth rest

/-- The alternatives of a union, each without its indentation. -/
def writeAll (g : Grammar) (o : Options) (depth : Nat) : List Shape → List Text
  | [] => []
  | s :: rest => write g o depth s :: writeAll g o depth rest

end

/-- The expression for a tree without foreign leaves. -/
def emit (target : Target) (o : Options) (s : Shape) : Except Fault Text :=
  match s.check target.grammar.name with
  | .error e => .error e
  | .ok _ => .ok (write target.grammar o 0 s)

/-- The text of a module that exports an expression. -/
def moduleText (g : Grammar) (o : Options) (name expression : Text) : Text :=
  let header := (g.header.map fun h => h ++ o.newline ++ o.newline).getD []
  header ++ g.declaration ++ Naming.safeIdentifier name ++ " = " ++ expression ++ ";" ++ o.newline

/-- The module that exports a shape under a name. -/
def emitModule (target : Target) (o : Options) (name : Text) (s : Shape) : Except Fault Text :=
  match emit target o s with
  | .error e => .error e
  | .ok expression => .ok (moduleText target.grammar o name expression)

end Emit

end JsonShapes
