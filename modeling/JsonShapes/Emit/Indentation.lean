import JsonShapes.Emit.Writer

/-!
# Shapes that need an indentation

The indentation of the output may be asked for without saying what it is. A shape can then be
written as long as none of its lines is indented. Shapes are written from the inside out, so the
first line that needs an indentation is the innermost one, from the left.
-/

namespace JsonShapes

namespace Emit

/-- A line that needs an indentation. -/
inductive IndentedLine where
  /-- The closing line of a record or a union. -/
  | closing
  /-- The line of an alternative of a union. -/
  | alternative
deriving DecidableEq

mutual

/-- The first line of a shape that needs an indentation in output that is not minified. -/
def indentedLine? (g : Grammar) : Shape → Option IndentedLine
  | .scalar _ => none
  | .literal _ _ => none
  | .optional inner => indentedLine? g inner
  | .object fields =>
    if fields.isEmpty then none else (indentedLineOfFields? g fields).or (some .closing)
  | .array element => indentedLine? g element
  | .union _ variants =>
    if g.unionBlock then blockLine? g variants else indentedLineOfAll? g variants
  | .foreign _ => none

def indentedLineOfFields? (g : Grammar) : List (Text × Shape) → Option IndentedLine
  | [] => none
  | (_, s) :: rest => (indentedLine? g s).or (indentedLineOfFields? g rest)

def indentedLineOfAll? (g : Grammar) : List Shape → Option IndentedLine
  | [] => none
  | s :: rest => (indentedLine? g s).or (indentedLineOfAll? g rest)

/-- The first such line of a union whose alternatives stand on lines of their own: inside its first
alternative, or that alternative itself. -/
def blockLine? (g : Grammar) : List Shape → Option IndentedLine
  | [] => some .closing
  | s :: _ => (indentedLine? g s).or (some .alternative)

end

end Emit

end JsonShapes
