import JsonShapes.CommandLine.Arguments
import JsonShapes.Conversion

/-!
# Commands

The commands of the program with their options, usages and help texts. Three of them convert sample
files and differ only in what they write; the fourth runs a discovery.
-/

namespace JsonShapes

namespace CommandLine

/-- What a command does. -/
inductive Action where
  | convert (format : Conversion.Format)
  | discover
deriving DecidableEq

structure Command where
  name : Text
  description : Text
  action : Action
  grammar : Grammar

/-- A text of lines, each of which is ended. -/
def ofLines (lines : List Text) : Text := lines.flatMap fun line => line ++ "\n"

def program : Text := "autodisco"

def version : Text := "autodisco 0.1.0"

def helpOption : OptionSpec := ⟨["-h", "--help"], .help⟩

def indentOption : OptionSpec := ⟨["--indent"], .text⟩

def minifyOption : OptionSpec := ⟨["--minify"], .flag⟩

/-- The options of the commands that convert sample files. -/
def convertOptions : List OptionSpec :=
  [helpOption, ⟨["--out"], .text⟩, ⟨["--type-name"], .text⟩, indentOption, minifyOption,
   ⟨["--sample-size"], .integer⟩]

/-- The help text of a command that converts sample files, after its usage. -/
def convertDetails (output name layout : String) : Text :=
  ofLines [
    "positional arguments:",
    "  input                 Path(s) to JSON or JSON Lines sample files (read from",
    "                        stdin if omitted)",
    "",
    "options:",
    "  -h, --help            show this help message and exit",
    "  --out OUT             Path to the " ++ output ++ " output file",
    "  --type-name TYPE_NAME",
    "                        " ++ name,
    "  --indent INDENT       Indentation string",
    "  --minify              " ++ layout,
    "  --sample-size SAMPLE_SIZE",
    "                        Maximum number of samples to use (0 = all)"]

def typescriptCommand : Command where
  name := "j2ts"
  description := "Infer a TypeScript type from JSON samples"
  action := .convert (.emitted .typescript)
  grammar :=
    { program := "autodisco j2ts"
      options := convertOptions
      positional := "input"
      positionalKind := .many
      usage := ofLines [
        "usage: autodisco j2ts [-h] [--out OUT] [--type-name TYPE_NAME]",
        "                      [--indent INDENT] [--minify] [--sample-size SAMPLE_SIZE]",
        "                      [input ...]"]
      details := convertDetails "TypeScript" "Name of the exported type"
        "Write the module without line breaks" }

def zodCommand : Command where
  name := "j2zod"
  description := "Infer a Zod schema from JSON samples"
  action := .convert (.emitted .zod)
  grammar :=
    { program := "autodisco j2zod"
      options := convertOptions
      positional := "input"
      positionalKind := .many
      usage := ofLines [
        "usage: autodisco j2zod [-h] [--out OUT] [--type-name TYPE_NAME]",
        "                       [--indent INDENT] [--minify]",
        "                       [--sample-size SAMPLE_SIZE]",
        "                       [input ...]"]
      details := convertDetails "Zod" "Name of the exported schema constant"
        "Write the module without line breaks" }

def schemaCommand : Command where
  name := "j2jsons"
  description := "Infer a JSON Schema from JSON samples"
  action := .convert .schema
  grammar :=
    { program := "autodisco j2jsons"
      options := convertOptions
      positional := "input"
      positionalKind := .many
      usage := ofLines [
        "usage: autodisco j2jsons [-h] [--out OUT] [--type-name TYPE_NAME]",
        "                         [--indent INDENT] [--minify]",
        "                         [--sample-size SAMPLE_SIZE]",
        "                         [input ...]"]
      details := convertDetails "JSON Schema" "Title of the schema"
        "Write the schema without whitespace" }

/-- How the flavors to generate are asked for. -/
def generateUsage : Text :=
  let choices := "\x7b" ++ Text.join "," (Fields.keys Flavor.names) ++ "\x7d"
  "--generate " ++ choices ++ " [" ++ choices ++ " ...]"

def discoverCommand : Command where
  name := "discover"
  description := "Infer types for every endpoint of a probe-results document"
  action := .discover
  grammar :=
    { program := "autodisco discover"
      options :=
        [helpOption, ⟨["--out-dir"], .text⟩, ⟨["--generate"], .choices (Fields.keys Flavor.names)⟩,
         indentOption, minifyOption]
      positional := "input"
      positionalKind := .one
      usage := ofLines [
        "usage: autodisco discover [-h] [--out-dir OUT_DIR]",
        "                          [" ++ generateUsage ++ "]",
        "                          [--indent INDENT] [--minify]",
        "                          input"]
      details := ofLines [
        "positional arguments:",
        "  input                 Path to the probe-results JSON document",
        "",
        "options:",
        "  -h, --help            show this help message and exit",
        "  --out-dir OUT_DIR     Root directory for generated files",
        "  " ++ generateUsage,
        "                        Output flavors to generate",
        "  --indent INDENT       Indentation string",
        "  --minify              Write output without line breaks"] }

def commands : List Command := [typescriptCommand, zodCommand, schemaCommand, discoverCommand]

/-- The words before a command, and the command itself. -/
def mainGrammar : Grammar where
  program := program
  options := [helpOption, ⟨["--version"], .flag⟩, ⟨["--verbose"], .flag⟩]
  positional := "command"
  positionalKind := .command
  usage := ofLines [
    "usage: autodisco [-h] [--version] [--verbose]",
    "                 \x7bj2ts,j2zod,j2jsons,discover\x7d ..."]
  details := ofLines [
    "Infer TypeScript types, Zod schemas and JSON Schemas from JSON samples.",
    "",
    "positional arguments:",
    "  \x7bj2ts,j2zod,j2jsons,discover\x7d",
    "    j2ts                Infer a TypeScript type from JSON samples",
    "    j2zod               Infer a Zod schema from JSON samples",
    "    j2jsons             Infer a JSON Schema from JSON samples",
    "    discover            Infer types for every endpoint of a probe-results",
    "                        document",
    "",
    "options:",
    "  -h, --help            show this help message and exit",
    "  --version             Print the version of autodisco.",
    "  --verbose             Log inference decisions and written files."]

end CommandLine

end JsonShapes
