import JsonShapes.Text.DecimalDigit
import JsonShapes.Text.Display
import JsonShapes.Fields

/-!
# Command line arguments

The words of a command line are first told apart: options start with a dash, everything after a
lone pair of dashes is an argument, and so are negative numbers, words with a blank and a single
dash. Long options may be shortened as long as they stay unambiguous, and may carry their value
after an equals sign; short ones may be joined behind one dash. Then the words are taken off the
front: options with the values that follow them, and the first run of arguments for the one
positional. What nothing takes is left over. A pair of dashes never counts as a value.
-/

namespace JsonShapes

namespace CommandLine

/-- How the value of an option is given. -/
inductive OptionKind where
  /-- No value: the option is on or off. -/
  | flag
  /-- No value: the option asks for the help text. -/
  | help
  | text
  | integer
  /-- One or more values out of a fixed list. -/
  | choices (allowed : List Text)
deriving DecidableEq

structure OptionSpec where
  /-- The spellings, of which those with a single dash are one letter long and take no value. -/
  spellings : List Text
  kind : OptionKind
deriving DecidableEq

/-- What the positional takes. -/
inductive PositionalKind where
  | one
  | many
  /-- A command and all the words after it, whatever they are. -/
  | command
deriving DecidableEq

structure Grammar where
  /-- The program, as messages show it. -/
  program : Text
  options : List OptionSpec
  positional : Text
  positionalKind : PositionalKind
  usage : Text
  /-- What the help text has after the usage. -/
  details : Text

/-- The value of an option that was given. -/
inductive Value where
  | on
  | text (t : Text)
  | integer (n : Int)
  | texts (ts : List Text)
  /-- The option takes one value and was left without one. -/
  | missing
deriving DecidableEq

/-- Why parsing the words ends early. -/
inductive Halt where
  | help
  | wrong (message : Text)
deriving DecidableEq

/-- What the words say. -/
structure Parsed where
  /-- The options in the order in which they were given, by their last spelling. -/
  given : List (Text × Value)
  /-- The words of the positional, once it has taken some or may take none. -/
  positional : Option (List Text)
  leftover : List Text

/-- A word that was recognised as an option. -/
structure Match where
  spec : OptionSpec
  /-- Whether the option was spelled with a single dash. -/
  short : Bool
  /-- What follows the spelling in the same word. -/
  value : Option Text

/-- The role of a word. -/
inductive Word where
  | argument (text : Text)
  | separator
  | unknown (text : Text)
  | option (found : Match)

def Word.isOption : Word → Bool
  | .unknown _ => true
  | .option _ => true
  | _ => false

namespace OptionSpec

/-- The name of an option in messages. -/
def title (spec : OptionSpec) : Text := Text.join "/" spec.spellings

/-- The name of an option in the result. -/
def key (spec : OptionSpec) : Text := spec.spellings.getLastD []

def takesValue (spec : OptionSpec) : Bool :=
  match spec.kind with
  | .flag => false
  | .help => false
  | _ => true

/-- A complaint about an option. -/
def wrong (spec : OptionSpec) (message : Text) : Halt :=
  .wrong ("argument " ++ spec.title ++ ": " ++ message)

/-- The complaint about a value that an option does not take. -/
def ignored (spec : OptionSpec) (value : Text) : Halt :=
  spec.wrong ("ignored explicit argument " ++ value.display)

end OptionSpec

/-- The complaint about a value out of a fixed list. -/
def invalidChoice (value : Text) (allowed : List Text) : Text :=
  "invalid choice: " ++ value.display ++ " (choose from " ++
    Text.join ", " (allowed.map Text.display) ++ ")"

/-- Whether a text without its dash is a number: digits, or digits with a point in front of some. A
line feed may follow. -/
def isPlainNumber (t : Text) : Bool :=
  let body := if t.getLast? = some (CodePoint.ofChar '\n') then t.dropLast else t
  let isDecimal (c : CodePoint) := c.decimalValue?.isSome
  let fraction := body.dropWhile isDecimal
  match fraction with
  | [] => !body.isEmpty
  | p :: digits => p = '.' && !digits.isEmpty && digits.all isDecimal

/-- A text up to the first equals sign and, if there is one, what follows it. -/
def splitEquals (t : Text) : Text × Option Text :=
  match t.dropWhile fun c : CodePoint => c ≠ '=' with
  | [] => (t, none)
  | _ :: value => (t.takeWhile fun c : CodePoint => c ≠ '=', some value)

namespace Grammar

/-- Every spelling with its option. -/
def spellings (g : Grammar) : List (Text × OptionSpec) :=
  g.options.flatMap fun spec => spec.spellings.map (·, spec)

def isShort (spelling : Text) : Bool := !Text.startsWith spelling "--"

/-- The options that a word could mean: those that its long spelling begins, or the one whose letter
follows its single dash. -/
def readings (g : Grammar) (word : Text) : List (Text × Match) :=
  if Text.startsWith word "--" then
    let (name, value) := splitEquals word
    g.spellings.filterMap fun (spelling, spec) =>
      if Text.startsWith spelling name then some (spelling, ⟨spec, false, value⟩)
      else none
  else
    g.spellings.filterMap fun (spelling, spec) =>
      if spelling = word.take 2 then some (spelling, ⟨spec, true, some (word.drop 2)⟩)
      else if Text.startsWith spelling word then
        some (spelling, ⟨spec, isShort spelling, none⟩)
      else none

/-- The role of a word before any lone pair of dashes. -/
def classifyWord (g : Grammar) (word : Text) : Except Halt Word :=
  match word with
  | [] => .ok (.argument word)
  | first :: rest =>
    if first ≠ '-' then .ok (.argument word)
    else
      match Fields.get? g.spellings word with
      | some spec => .ok (.option ⟨spec, isShort word, none⟩)
      | none =>
        if rest.isEmpty then .ok (.argument word)
        else
          let (name, value) := splitEquals word
          match value, Fields.get? g.spellings name with
          | some value, some spec => .ok (.option ⟨spec, isShort name, some value⟩)
          | _, _ =>
            match g.readings word with
            | [(_, found)] => .ok (.option found)
            | [] =>
              if isPlainNumber rest || word.contains (CodePoint.ofChar ' ') then
                .ok (.argument word)
              else .ok (.unknown word)
            | several =>
              .error (.wrong ("ambiguous option: " ++ word ++ " could match " ++
                Text.join ", " (several.map Prod.fst)))

/-- The roles of the words. -/
def classify (g : Grammar) : List Text → Except Halt (List Word)
  | [] => .ok []
  | word :: rest =>
    if word = Text.ofString "--" then .ok (.separator :: rest.map .argument)
    else do
      let role ← g.classifyWord word
      return role :: (← g.classify rest)

/-- The options of a word that joins several letters behind one dash: `spec` with the letters that
follow it, all of which have to be options. -/
def cluster (g : Grammar) (spec : OptionSpec) : Text → Except Halt (List OptionSpec)
  | [] => .ok [spec]
  | c :: rest =>
    match Fields.get? g.spellings ['-', c] with
    | none => .error (spec.ignored (c :: rest))
    | some next => do return spec :: (← g.cluster next rest)

end Grammar

/-- A list of texts without its first lone pair of dashes. -/
def dropSeparator (texts : List Text) : List Text := texts.erase "--"

/-- The value of an option from its words. A pair of dashes among them does not count, so that an
option with nothing but these is left without a value. -/
def OptionSpec.convert (spec : OptionSpec) (words : List Text) : Except Halt Value :=
  match spec.kind, dropSeparator words with
  | .flag, _ => .ok .on
  | .help, _ => .error .help
  | .text, [] => .ok .missing
  | .text, word :: _ => .ok (.text word)
  | .integer, [] => .ok .missing
  | .integer, word :: _ =>
    match Text.toInt? word with
    | some n => .ok (.integer n)
    | none => .error (spec.wrong ("invalid int value: " ++ word.display))
  | .choices allowed, words =>
    match words.find? fun w => w ∉ allowed with
    | some w => .error (spec.wrong (invalidChoice w allowed))
    | none => .ok (.texts words)

/-- The arguments that a list of words starts with. -/
def leadingArguments : List Word → List Text
  | .argument t :: rest => t :: leadingArguments rest
  | _ => []

/-- The words that follow an option as its values. -/
def OptionSpec.following (spec : OptionSpec) (words : List Word) : Except Halt (List Text) :=
  match spec.kind with
  | .flag => .ok []
  | .help => .ok []
  | .choices _ =>
    match leadingArguments words with
    | [] => .error (spec.wrong "expected at least one argument")
    | values => .ok values
  | _ =>
    match leadingArguments words with
    | [] => .error (spec.wrong "expected one argument")
    | value :: _ => .ok [value]

/-- How many words the positional takes off the front, if it can take any. -/
def PositionalKind.count : PositionalKind → List Word → Option Nat
  | .many, words => some (words.takeWhile fun w => !w.isOption).length
  | .one, words =>
    match words with
    | .argument _ :: .separator :: _ => some 2
    | .argument _ :: _ => some 1
    | .separator :: .argument _ :: _ => some 2
    | _ => none
  | .command, words =>
    match words with
    | .argument _ :: _ => some words.length
    | .separator :: .argument _ :: _ => some words.length
    | _ => none

namespace Grammar

/-- The options of one word with their values, and how many words after it the values took. -/
def readOption (g : Grammar) (found : Match) (after : List Word) :
    Except Halt (List (OptionSpec × List Text) × Nat) :=
  match found.value with
  | none => do
    let values ← found.spec.following after
    return ([(found.spec, values)], values.length)
  | some value =>
    if found.spec.takesValue then .ok ([(found.spec, [value])], 0)
    else if found.short && !value.isEmpty then do
      return ((← g.cluster found.spec value).map (·, []), 0)
    else .error (found.spec.ignored value)

/-- The options with their values converted, in order. -/
def convertAll : List (OptionSpec × List Text) → Except Halt (List (Text × Value))
  | [] => .ok []
  | (spec, words) :: rest => do
    let value ← spec.convert words
    return (spec.key, value) :: (← convertAll rest)

/-- The given words, paired with their roles, with nothing but arguments among them: the positional
takes what it can and the rest is left over. -/
def finish (g : Grammar) (parsed : Parsed) (words : List (Text × Word)) : Parsed :=
  let taken :=
    if parsed.positional.isSome then none else g.positionalKind.count (words.map Prod.snd)
  match taken with
  | none => { parsed with leftover := parsed.leftover ++ words.map Prod.fst }
  | some n =>
    { parsed with
      positional := some ((words.take n).map Prod.fst)
      leftover := parsed.leftover ++ (words.drop n).map Prod.fst }

/-- Takes words off the front until none is left. Each step takes at least one of them, so `fuel`
need only reach their number. -/
def consume (g : Grammar) : Nat → Parsed → List (Text × Word) → Except Halt Parsed
  | 0, parsed, words => .ok (g.finish parsed words)
  | fuel + 1, parsed, words =>
    if words.any fun w => w.2.isOption then
      match words with
      | [] => .ok parsed
      | (_, .unknown text) :: rest =>
        g.consume fuel { parsed with leftover := parsed.leftover ++ [text] } rest
      | (_, .option found) :: rest => do
        let (specs, taken) ← g.readOption found (rest.map Prod.snd)
        let given ← convertAll specs
        g.consume fuel { parsed with given := parsed.given ++ given } (rest.drop taken)
      | (text, _) :: rest =>
        match (if parsed.positional.isSome then none
          else g.positionalKind.count (words.map Prod.snd)) with
        | some n =>
          g.consume fuel { parsed with positional := some ((words.take n).map Prod.fst) }
            (words.drop n)
        | none => g.consume fuel { parsed with leftover := parsed.leftover ++ [text] } rest
    else .ok (g.finish parsed words)

/-- What the words say. A single positional that got nothing is an error. -/
def parse (g : Grammar) (words : List Text) : Except Halt Parsed := do
  let roles ← g.classify words
  let parsed ← g.consume words.length ⟨[], none, []⟩ (words.zip roles)
  if parsed.positional.isNone && g.positionalKind = .one then
    .error (.wrong ("the following arguments are required: " ++ g.positional))
  else .ok parsed

/-- The text that a complaint is shown with. -/
def complaint (g : Grammar) (message : Text) : Text :=
  g.usage ++ g.program ++ ": error: " ++ message ++ "\n"

def helpText (g : Grammar) : Text := g.usage ++ "\n" ++ g.details

end Grammar

/-- The last value given for an option. -/
def Parsed.last? (parsed : Parsed) (key : Text) : Option Value :=
  Fields.get? parsed.given.reverse key

def Parsed.isOn (parsed : Parsed) (key : Text) : Bool := (parsed.last? key).isSome

/-- The text given for an option, or the default if the option is absent; none if the option was
left without a value. -/
def Parsed.text? (parsed : Parsed) (key default : Text) : Option Text :=
  match parsed.last? key with
  | none => some default
  | some (.text t) => some t
  | some _ => none

/-- The integer given for an option, as for texts. -/
def Parsed.integer? (parsed : Parsed) (key : Text) (default : Int) : Option Int :=
  match parsed.last? key with
  | none => some default
  | some (.integer n) => some n
  | some _ => none

end CommandLine

end JsonShapes
