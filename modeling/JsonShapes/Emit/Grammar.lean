import JsonShapes.Shape.Basic

/-!
# Target grammars

A grammar is the table of tokens with which shapes are written in one output language: TypeScript
type expressions, or Zod schema builders.
-/

namespace JsonShapes

namespace Emit

/-- What stands before and after something. -/
structure Brackets where
  opening : Text
  closing : Text

def Brackets.around (b : Brackets) (inner : Text) : Text := b.opening ++ inner ++ b.closing

structure Grammar where
  name : Text
  scalar : Scalar → Text
  literal : Brackets
  optional : Brackets
  record : Brackets
  emptyRecord : Text
  memberSeparator : Text
  array : Brackets
  /-- The opening of a union, given the quoted discriminator of a tagged one. -/
  unionOpening : Option Text → Text
  unionClosing : Text
  alternativeSeparator : Text
  /-- The separator of alternatives in minified output. -/
  tightSeparator : Text
  /-- Whether each alternative has a line of its own. -/
  unionBlock : Bool
  /-- What a module starts with, on a line of its own and followed by an empty one. -/
  header : Option Text
  /-- What comes before the exported name. -/
  declaration : Text
  /-- The name of the layout of a module. -/
  template : Text
  fileExtension : Text

def typescript : Grammar where
  name := "typescript"
  scalar := Scalar.name
  literal := ⟨[], []⟩
  optional := ⟨[], " | undefined"⟩
  record := ⟨"\x7b", "\x7d"⟩
  emptyRecord := "\x7b\x7d"
  memberSeparator := ";"
  array := ⟨[], "[]"⟩
  unionOpening := fun _ => "("
  unionClosing := ")"
  alternativeSeparator := " | "
  tightSeparator := "|"
  unionBlock := false
  header := none
  declaration := "export type "
  template := "templates/typescript.ts.jinja"
  fileExtension := ".ts"

def zod : Grammar where
  name := "zod"
  scalar := fun kind => "z." ++ kind.name ++ "()"
  literal := ⟨"z.literal(", ")"⟩
  optional := ⟨[], ".optional()"⟩
  record := ⟨"z.object(\x7b", "\x7d)"⟩
  emptyRecord := "z.object(\x7b\x7d)"
  memberSeparator := ","
  array := ⟨"z.array(", ")"⟩
  unionOpening := fun discriminator =>
    match discriminator with
    | none => "z.union(["
    | some quoted => "z.discriminatedUnion(" ++ quoted ++ ", ["
  unionClosing := "])"
  alternativeSeparator := ","
  tightSeparator := ","
  unionBlock := true
  header := some "import \x7b z \x7d from 'zod';"
  declaration := "export const "
  template := "templates/zod.ts.jinja"
  fileExtension := ".ts"

/-- The output languages. -/
inductive Target where
  | typescript
  | zod
deriving DecidableEq

def Target.grammar : Target → Grammar
  | .typescript => Emit.typescript
  | .zod => Emit.zod

/-- The names by which targets are asked for, in alphabetical order. -/
def Target.names : List (Text × Target) :=
  [("schema-builder", .zod), ("type-expression", .typescript), ("typescript", .typescript),
   ("zod", .zod)]

def Target.ofName? (name : Text) : Option Target := Fields.get? Target.names name

end Emit

end JsonShapes
