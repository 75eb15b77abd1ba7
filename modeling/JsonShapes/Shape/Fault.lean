import JsonShapes.Shape.Basic

/-!
# Faults

What can go wrong while shapes are built, walked over or merged. The causes are the constructors;
the wording is all in `Fault.message`.
-/

namespace JsonShapes

inductive Fault where
  /-- A record is built with a key that is already taken. -/
  | duplicateKey (key : Text)
  /-- No records are given to merge. -/
  | noRecords
  /-- No shapes are given to merge. -/
  | noShapes
  /-- No samples are given to infer a shape from. -/
  | noSamples
  /-- Something else than a record is merged as one. -/
  | notRecord (node : Text)
  /-- A walk meets a foreign leaf; an empty context goes unmentioned. -/
  | unexpectedNode (node context : Text)
  /-- An element lacks the key by which elements are grouped. -/
  | missingKey (key : Text)
  /-- An element that is grouped by a key has no keys at all. -/
  | notKeyed
deriving DecidableEq

namespace Fault

/-- A message with the place it comes from. -/
def inContext (message context : Text) : Text :=
  if context.isEmpty then message else message ++ " (context: " ++ context ++ ")"

def message : Fault → Text
  | .duplicateKey key => "Duplicate object key '" ++ key ++ "'"
  | .noRecords => "At least one object node is required to merge"
  | .noShapes => "At least one type node is required to merge"
  | .noSamples => "At least one sample is required"
  | .notRecord node => inContext ("Cannot merge " ++ node ++ " as an object") "merge"
  | .unexpectedNode node context => inContext ("Unexpected type node " ++ node) context
  | .missingKey key => "No element at key '" ++ key ++ "'"
  | .notKeyed => "The element has no keys"

end Fault

namespace Shape

/-- Refuses a foreign leaf at the root. -/
def checkRoot (context : Text) : Shape → Except Fault Shape
  | .foreign kind => .error (.unexpectedNode kind context)
  | s => .ok s

/-- Refuses a foreign leaf anywhere in the tree. -/
def check (context : Text) (s : Shape) : Except Fault Unit :=
  match s.foreign? with
  | some kind => .error (.unexpectedNode kind context)
  | none => .ok ()

/-- Refuses a foreign leaf anywhere in several trees. -/
def checkAll (context : Text) (ss : List Shape) : Except Fault Unit :=
  match foreignAmong? ss with
  | some kind => .error (.unexpectedNode kind context)
  | none => .ok ()

end Shape

end JsonShapes
