import JsonShapes.Run

/-!
# Samples

An input holds one JSON document or a sequence of them, one to a line. An input that is not a
document as a whole is read line by line; blank lines count for nothing and malformed ones are
skipped with a warning. Reading stops as soon as enough values are found.
-/

namespace JsonShapes

namespace Samples

/-- The values found in a text, the number of malformed lines before the last of them, and what
made reading stop early, if something did. -/
structure Harvest where
  values : List Json
  skipped : Nat
  failure : Option Json.ReadError

def Harvest.nothing : Harvest := ⟨[], 0, none⟩

/-- The values of the lines of a text, at most as many as there is room for. -/
def harvestLines (room : Option Nat) : List Text → Harvest
  | [] => .nothing
  | line :: rest =>
    if line.trim.isEmpty then harvestLines room rest
    else
      match Json.parse line.trim with
      | .ok value =>
        if room = some 1 then ⟨[value], 0, none⟩
        else
          let h := harvestLines (room.map (· - 1)) rest
          { h with values := value :: h.values }
      | .error (.malformed _ _) =>
        let h := harvestLines room rest
        { h with skipped := h.skipped + 1 }
      | .error e => ⟨[], 0, some e⟩

/-- The values of a text: of the document that it is as a whole, or of its lines. -/
def harvest (room : Option Nat) (content : Text) : Harvest :=
  if content.trim.isEmpty then .nothing
  else
    match Json.parse content.trim with
    | .ok value => ⟨[value], 0, none⟩
    | .error (.malformed _ _) => harvestLines room content.trim.lines
    | .error e => ⟨[], 0, some e⟩

/-- How many values there is still room for when `count` are found; a limit that is not positive
is none. -/
def roomLeft (limit : Int) (count : Nat) : Option Nat :=
  if 0 < limit then some (limit.toNat - count) else none

/-- Where samples come from: a file, or a text that is given under a name. -/
inductive Input where
  | file (path : Text)
  | given (name content : Text)
deriving DecidableEq

def Input.name : Input → Text
  | .file path => path
  | .given name _ => name

/-- The text of an input, with its line ends made equal. -/
def Input.read : Input → Run Text
  | .file path => Run.readText path
  | .given _ content => return content.normalizeLines

/-- The warning about a malformed line. -/
def skippedLine (input : Input) : LogEntry :=
  ⟨.warning, .conversion, "Skipping malformed JSON line in " ++ input.name⟩

/-- The values of the inputs, after `count` values were found in others. -/
def loadFrom (limit : Int) (count : Nat) : List Input → Run (List Json)
  | [] => return []
  | input :: rest => do
    if roomLeft limit count = some 0 then return []
    let h := harvest (roomLeft limit count) (← input.read)
    Run.ofLogged (Logged.logAll (List.replicate h.skipped (skippedLine input)))
    match h.failure with
    | some e => throw (.json e)
    | none => return h.values ++ (← loadFrom limit (count + h.values.length) rest)

/-- The values of the inputs, at most `limit` of them if it is positive. -/
def load (limit : Int) (inputs : List Input) : Run (List Json) := loadFrom limit 0 inputs

/-- The one shape of all the samples in the inputs. The limit may be left without a value, which is
an error as soon as it matters. -/
def inferInputs (limit : Option Int) (inputs : List Input) : Run Shape := do
  if inputs.isEmpty then throw .noInputFiles
  let values ← match limit with
    | none => throw .noLimit
    | some limit => load limit inputs
  if values.isEmpty then throw .noValues
  Run.ofLogged (Logged.inferSamples values)

end Samples

end JsonShapes
