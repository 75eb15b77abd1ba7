import JsonShapes.Emit.Indentation
import JsonShapes.Files.Tree
import JsonShapes.Json.Reader
import JsonShapes.Shape.Fault

/-!
# Errors

Everything that can end an operation on samples, files or probe documents. The causes are the
constructors and the wording is in `Error.message`.
-/

namespace JsonShapes

/-- The kinds of output that a discovery can write. -/
inductive Flavor where
  | zod
  | typescript
  | json
  | markdown
deriving DecidableEq

namespace Flavor

/-- The flavors by name, in the order in which messages list them. -/
def names : List (Text × Flavor) :=
  [("zod", .zod), ("typescript", .typescript), ("json", .json), ("markdown", .markdown)]

def ofName? (name : Text) : Option Flavor := Fields.get? names name

end Flavor

inductive Error where
  | shape (fault : Fault)
  | json (error : Json.ReadError)
  | file (failure : FileTree.Failure)
  | undecodable (error : Utf8.DecodeError)
  | unencodable (error : Utf8.EncodeError)
  | unknownTarget (name : Text)
  | unknownGenerator (name : Text)
  | noInputFiles
  | noValues
  | probeNotObject
  | unsupportedMethod (method : Text)
  | endpointsNotObject (method : Text)
  | samplesNotList (method path : Text)
  /-- A line has to be indented and no indentation is given. -/
  | noIndent (line : Emit.IndentedLine)
  /-- A schema has to be indented and no indentation is given. -/
  | noSchemaIndent
  /-- No name is given for a type. -/
  | noName
  /-- No limit is given for the number of samples. -/
  | noLimit
  /-- No directory is given for the output. -/
  | noDirectory
deriving DecidableEq

namespace Error

def message : Error → Text
  | .shape fault => fault.message
  | .json error => error.message
  | .file failure => failure.message
  | .undecodable error => error.message
  | .unencodable error => error.message
  | .unknownTarget name =>
    "Unknown target '" ++ name ++ "', expected one of " ++
      Text.join ", " (Fields.keys Emit.Target.names)
  | .unknownGenerator name =>
    "Unknown generator '" ++ name ++ "', expected one of " ++
      Text.join ", " (Fields.keys Flavor.names)
  | .noInputFiles => "At least one input file is required"
  | .noValues => "No valid JSON data found in input files"
  | .probeNotObject => "Probe results must map HTTP methods to endpoints"
  | .unsupportedMethod method => "Unsupported HTTP method '" ++ method ++ "'"
  | .endpointsNotObject method => "Endpoints for method '" ++ method ++ "' must be an object"
  | .samplesNotList method path => "Samples for " ++ method ++ " " ++ path ++ " must be a list"
  | .noIndent .closing => "can only concatenate str (not \"list\") to str"
  | .noIndent .alternative => "can only concatenate list (not \"str\") to list"
  | .noSchemaIndent => "can't multiply sequence by non-int of type 'list'"
  | .noName => "expected string or bytes-like object, got 'list'"
  | .noLimit => "'>' not supported between instances of 'list' and 'int'"
  | .noDirectory => "expected str, bytes or os.PathLike object, not list"

/-- A fault of shapes as an error. -/
def ofFault {α : Type} : Except Fault α → Except Error α
  | .ok a => .ok a
  | .error fault => .error (.shape fault)

/-- A reading error as an error. -/
def ofReadError {α : Type} : Except Json.ReadError α → Except Error α
  | .ok a => .ok a
  | .error e => .error (.json e)

end Error

/-- The target asked for by a name. -/
def Emit.Target.named (name : Text) : Except Error Emit.Target :=
  match Emit.Target.ofName? name with
  | some target => .ok target
  | none => .error (.unknownTarget name)

end JsonShapes
