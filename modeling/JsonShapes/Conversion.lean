import JsonShapes.Rendering
import JsonShapes.Samples

/-!
# Converting samples

Infers the shape of the samples in some inputs and writes it to a file: as a TypeScript or Zod
module that exports it under a name, or as a JSON Schema with that name as its title.
-/

namespace JsonShapes

namespace Conversion

/-- What a conversion writes. -/
inductive Format where
  | emitted (target : Emit.Target)
  | schema
deriving DecidableEq

/-- The name of the type when none is asked for. -/
def defaultName : Text := "Document"

/-- What is asked of a conversion; a setting may be left without a value. -/
structure Settings where
  name : Option Text := some defaultName
  preferences : Preferences := {}
  /-- The most samples to use; all of them if it is not positive. -/
  limit : Option Int := some 0

/-- The text that a conversion writes for a shape. -/
def render (format : Format) (settings : Settings) (s : Shape) : Except Error Text :=
  match format with
  | .emitted target => settings.preferences.moduleText target settings.name s
  | .schema =>
    match settings.name with
    | none => .error .noName
    | some name => settings.preferences.schemaText (Naming.safeIdentifier name) s

/-- Makes the directory of a path, unless it is there. -/
def makeFolder (path : Text) : Run Unit := do
  let directory := Path.directory path
  if !directory.isEmpty && !(← get).files.pathExists directory then
    Run.makeDirectories false directory.length directory

/-- Writes a text to a file, making the directories that it needs. -/
def writeOutput (path text : Text) : Run Unit := do
  makeFolder path
  Run.writeText path text
  Run.log .info .conversion ("Wrote " ++ path)

/-- The text for the samples in the inputs. -/
def textOf (format : Format) (settings : Settings) (inputs : List Samples.Input) : Run Text := do
  let s ← Samples.inferInputs settings.limit inputs
  Run.ofOutcome (render format settings s)

/-- Infers the samples in the inputs and writes their shape to a file. -/
def convert (format : Format) (settings : Settings) (inputs : List Samples.Input)
    (output : Text) : Run Unit := do
  writeOutput output (← textOf format settings inputs)

end Conversion

end JsonShapes
