import JsonShapes.CommandLine.Commands
import JsonShapes.Discovery

/-!
# The program

A run of the program takes its arguments, its standard input and a file tree, and gives an exit
code, what it printed and the changed tree. Without input files the samples come from standard
input; without an output file the result goes to standard output, by way of a temporary file that
is read back as text.
-/

namespace JsonShapes

namespace CommandLine

/-- What a run of the program leaves behind. -/
structure Outcome where
  exitCode : Nat
  output : Text
  errorOutput : Text
  files : FileTree

/-- The name that messages show for a temporary file. -/
def temporaryName : Text := "<TMP>"

/-- The file that is written when an empty output path is asked for. -/
def unnamedOutput : Text := "output_file_path"

/-- A log entry as a line. -/
def logLine (entry : LogEntry) : Text :=
  entry.level.name ++ " " ++ entry.source.name ++ ": " ++ entry.message ++ "\n"

def preferences (parsed : Parsed) : Preferences where
  indent := parsed.text? "--indent" "  "
  minify := parsed.isOn "--minify"

def conversionSettings (parsed : Parsed) : Conversion.Settings where
  name := parsed.text? "--type-name" Conversion.defaultName
  preferences := preferences parsed
  limit := parsed.integer? "--sample-size" 0

def discoverySettings (parsed : Parsed) : Discovery.Settings where
  directory := parsed.text? "--out-dir" program
  generate :=
    match parsed.last? "--generate" with
    | some (.texts names) => names
    | _ => []
  preferences := preferences parsed

/-- The positional words without a lone pair of dashes. -/
def positionalWords (parsed : Parsed) : List Text := dropSeparator (parsed.positional.getD [])

/-- A text after it was written to a temporary file: unchanged, if it can be encoded. -/
def throughTemporary (text : Text) : Except Error Text :=
  match Utf8.encodeError? text with
  | some e => .error (.unencodable e)
  | none => .ok text

/-- The inputs of a conversion: the files that are named, or standard input. -/
def conversionInputs (parsed : Parsed) (stdin : Text) : Except Error (List Samples.Input) :=
  match positionalWords parsed with
  | [] => do return [.given temporaryName (← throughTemporary stdin)]
  | paths => .ok (paths.map .file)

/-- The line that announces a conversion to a file. -/
def announcement (command : Command) (inputs : List Samples.Input) (output : Text) : Text :=
  "Executing " ++ command.description ++ " with input " ++
    Text.join ", " (inputs.map Samples.Input.name) ++ " and output " ++ output ++ "\n"

/-- Where a conversion goes: nowhere in particular, or to the given file, whose path is empty if the
option was left without a value. -/
def outputFile? (parsed : Parsed) : Option Text :=
  match parsed.last? "--out" with
  | none => none
  | some (.text path) => some path
  | some _ => some []

/-- Converts to standard output and gives what is printed. -/
def convertToOutput (format : Conversion.Format) (settings : Conversion.Settings)
    (inputs : List Samples.Input) : Run Text := do
  let text ← Conversion.textOf format settings inputs
  let written ← Run.ofOutcome (throughTemporary text)
  Run.log .info .conversion ("Wrote " ++ temporaryName)
  return written.normalizeLines

/-- Converts to a file and gives nothing to print. -/
def convertToFile (format : Conversion.Format) (settings : Conversion.Settings)
    (inputs : List Samples.Input) (output : Text) : Run Text := do
  Conversion.convert format settings inputs output
  return []

/-- A command as what it prints before it starts, and a run that gives what it prints at its end. -/
def prepare (command : Command) (parsed : Parsed) (stdin : Text) : Except Error (Text × Run Text) :=
  match command.action with
  | .convert format => do
    let inputs ← conversionInputs parsed stdin
    let settings := conversionSettings parsed
    match outputFile? parsed with
    | none => return ([], convertToOutput format settings inputs)
    | some [] => return ([], convertToFile format settings inputs unnamedOutput)
    | some output =>
      return (announcement command inputs output, convertToFile format settings inputs output)
  | .discover =>
    .ok ([], do
      let _ ← Discovery.discoverFile (discoverySettings parsed) ((positionalWords parsed).headD [])
      return [])

/-- Carries out a command. -/
def execute (command : Command) (parsed : Parsed) (verbose : Bool) (stdin : Text)
    (files : FileTree) : Outcome :=
  let complaint (e : Error) : Text := "Error: " ++ e.message ++ "\n"
  match prepare command parsed stdin with
  | .error e => ⟨1, complaint e, [], files⟩
  | .ok (announced, run) =>
    let (outcome, world) := run.run.run ⟨files, []⟩
    let log := LogEntry.atLeast (if verbose then .debug else .warning) world.log
    let errorOutput := log.flatMap logLine
    match outcome with
    | .ok printed => ⟨0, announced ++ printed, errorOutput, world.files⟩
    | .error e => ⟨1, announced ++ complaint e, errorOutput, world.files⟩

/-- What the arguments ask for: an answer that needs no files, or a command. -/
inductive Request where
  | answer (exitCode : Nat) (output errorOutput : Text)
  | perform (command : Command) (parsed : Parsed) (verbose : Bool)

namespace Request

/-- The answer when the words of a command line are not to be carried out. -/
def ofHalt (g : Grammar) : Halt → Request
  | .help => .answer 0 g.helpText []
  | .wrong message => .answer 2 [] (g.complaint message)

/-- The request once the words of the command line are understood, up to those left over. -/
def ofWords (top : Parsed) (leftover : List Text) (chosen : Option (Command × Parsed)) : Request :=
  if !leftover.isEmpty then
    ofHalt mainGrammar (.wrong ("unrecognized arguments: " ++ Text.join " " leftover))
  else if top.isOn "--version" then .answer 0 (version ++ "\n") []
  else
    match chosen with
    | none => .answer 0 mainGrammar.helpText []
    | some (command, parsed) => .perform command parsed (top.isOn "--verbose")

def ofArguments (arguments : List Text) : Request :=
  match mainGrammar.parse arguments with
  | .error halt => ofHalt mainGrammar halt
  | .ok top =>
    match top.positional with
    | none => ofWords top top.leftover none
    | some words =>
      let name := words.headD []
      match commands.find? fun command => command.name = name with
      | none =>
        ofHalt mainGrammar (.wrong ("argument command: " ++
          invalidChoice name (commands.map (·.name))))
      | some command =>
        match command.grammar.parse (words.drop 1) with
        | .error halt => ofHalt command.grammar halt
        | .ok parsed => ofWords top (top.leftover ++ parsed.leftover) (some (command, parsed))

/-- Whether standard input is read. -/
def readsInput : Request → Bool
  | .answer .. => false
  | .perform command parsed _ =>
    match command.action with
    | .convert _ => (positionalWords parsed).isEmpty
    | .discover => false

/-- The paths of the files and directories that are named. -/
def paths : Request → List Text
  | .answer .. => []
  | .perform command parsed _ =>
    positionalWords parsed ++
      match command.action with
      | .convert _ => [(outputFile? parsed).getD [], unnamedOutput]
      | .discover => (discoverySettings parsed).directory.toList

def run (stdin : Text) (files : FileTree) : Request → Outcome
  | .answer exitCode output errorOutput => ⟨exitCode, output, errorOutput, files⟩
  | .perform command parsed verbose => execute command parsed verbose stdin files

end Request

/-- Runs the program. -/
def run (arguments : List Text) (stdin : Text) (files : FileTree) : Outcome :=
  (Request.ofArguments arguments).run stdin files

end CommandLine

end JsonShapes
