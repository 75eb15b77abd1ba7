import JsonShapes.Error
import JsonShapes.Inference
import JsonShapes.Text.Lines

/-!
# Runs

A run reads and changes a file tree, keeps a log and may end in an error; what was logged and
written before the error stays. A run that only logs is a `Logged` one: its type shows that it
cannot touch a file.
-/

namespace JsonShapes

/-- How much a log entry matters. -/
inductive Level where
  | debug
  | info
  | warning
deriving DecidableEq

namespace Level

def rank : Level → Nat
  | .debug => 10
  | .info => 20
  | .warning => 30

def name : Level → Text
  | .debug => "DEBUG"
  | .info => "INFO"
  | .warning => "WARNING"

end Level

/-- The part of the program that an entry comes from. -/
inductive Source where
  | inference
  | conversion
  | discovery
deriving DecidableEq

def Source.name : Source → Text
  | .inference => "autodisco.schema_inference"
  | .conversion => "autodisco.jsontotypes"
  | .discovery => "autodisco.discover"

structure LogEntry where
  level : Level
  source : Source
  message : Text
deriving DecidableEq

/-- The entries at or above a level. -/
def LogEntry.atLeast (level : Level) (log : List LogEntry) : List LogEntry :=
  log.filter fun entry => level.rank ≤ entry.level.rank

/-- What a run reads and changes. -/
structure World where
  files : FileTree
  log : List LogEntry

/-- A computation that logs and may fail. -/
abbrev Logged := ExceptT Error (StateM (List LogEntry))

/-- A computation that works on files, logs and may fail. -/
abbrev Run := ExceptT Error (StateM World)

namespace Logged

def log (level : Level) (source : Source) (message : Text) : Logged Unit :=
  modify fun entries => entries ++ [⟨level, source, message⟩]

def logAll (added : List LogEntry) : Logged Unit := modify fun entries => entries ++ added

/-- The shape of several samples, with the decisions behind it logged. -/
def inferSamples (samples : List Json) : Logged Shape :=
  match Shape.explainSamples samples with
  | .error fault => throw (.shape fault)
  | .ok (shape, decisions) => do
    logAll (decisions.map fun d => ⟨.debug, .inference, d.message⟩)
    return shape

end Logged

namespace Run

/-- A computation that only logs, as a run. -/
def ofLogged {α : Type} (x : Logged α) : Run α := fun world =>
  let (outcome, log) := x.run.run world.log
  (outcome, { world with log })

def log (level : Level) (source : Source) (message : Text) : Run Unit :=
  ofLogged (Logged.log level source message)

/-- An outcome as a run that changes nothing. -/
def ofOutcome {α : Type} : Except Error α → Run α
  | .ok a => pure a
  | .error e => throw e

/-- The text of a file, with its line ends made equal. -/
def readText (path : Text) : Run Text := do
  match (← get).files.read path with
  | .error failure => throw (.file failure)
  | .ok bytes =>
    match Utf8.decode bytes with
    | .error e => throw (.undecodable e)
    | .ok text => return text.normalizeLines

/-- Makes one directory. -/
def makeDirectory (path : Text) : Run Unit := do
  match (← get).files.makeDirectory path with
  | .error failure => throw (.file failure)
  | .ok files => modify fun world => { world with files }

/-- A run in which it is no error that a path is taken. -/
def allowTaken (x : Run Unit) : Run Unit :=
  tryCatch x fun e =>
    match e with
    | .file ⟨.taken, _⟩ => pure ()
    | e => throw e

/-- Makes one directory. If `lenient` is set it is no error if it is there already. -/
def ensureDirectory (lenient : Bool) (path : Text) : Run Unit :=
  tryCatch (makeDirectory path) fun e => do
    unless lenient && (← get).files.isDirectory path do throw e

/-- Makes a directory and, from the top, those above it that are not there. Unless `lenient` is
set, it is an error if the directory is there already, but never if one above it is. The fuel
bounds the number of directories on the way. -/
def makeDirectories (lenient : Bool) : Nat → Text → Run Unit
  | 0, path => makeDirectory path
  | fuel + 1, path => do
    let (above, name) := Path.splitLast path
    if above.isEmpty || name.isEmpty || (← get).files.pathExists above then
      ensureDirectory lenient path
    else
      allowTaken (makeDirectories lenient fuel above)
      unless name = Text.ofString "." do ensureDirectory lenient path

/-- Writes bytes to a file whose directory is there. -/
def writeBytes (path : Text) (bytes : List UInt8) : Run Unit := do
  match (← get).files.write path bytes with
  | .error failure => throw (.file failure)
  | .ok files => modify fun world => { world with files }

/-- Writes a text to a file whose directory is there. If the text cannot be encoded the file is
left empty. -/
def writeText (path text : Text) : Run Unit :=
  match Utf8.encode text with
  | .ok bytes => writeBytes path bytes
  | .error e => do
    writeBytes path []
    throw (.unencodable e)

end Run

end JsonShapes
