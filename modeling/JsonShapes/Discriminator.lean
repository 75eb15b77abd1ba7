import JsonShapes.Shape.Canonical

/-!
# Discriminators

A property discriminates the elements of an array if it holds a scalar in each of them and its
values correspond one to one to the shapes of the elements. Candidates are tried in the key order
of the first element, and the first that qualifies is taken.

Shapes are compared by a digest of their canonical texts. The search takes it as a parameter: it may
be the text itself, or the fingerprint.
-/

namespace JsonShapes

namespace Json

/-- The text of a scalar that can discriminate: a boolean, a nonempty string or a finite number. -/
def literalText : Json → Option Text
  | .bool b => some (if b then "true" else "false")
  | .str s => if s.isEmpty then none else some s
  | .int n => some (Text.ofInt n)
  | .double (.finite x) => some x.text
  | .double _ => none
  | .null => none
  | .arr _ => none
  | .obj _ => none

/-- The JSON type of a scalar that can discriminate. -/
def literalType : Json → Text
  | .bool _ => "boolean"
  | .int _ => "number"
  | .double _ => "number"
  | _ => "string"

/-- The member of an element at the key by which elements are grouped. -/
def keyed (key : Text) : Json → Except Fault Json
  | .obj members =>
    match Fields.get? members key with
    | some value => .ok value
    | none => .error (.missingKey key)
  | _ => .error .notKeyed

end Json

namespace Discriminator

/-- The elements that share one value of a property. -/
structure Partition where
  value : Option Text
  /-- The JSON type of the value in the first of the elements. -/
  jsonType : Text
  /-- The places of the elements, in ascending order. -/
  indices : List Nat
  /-- The distinct digests of the shapes of the elements. -/
  shapes : List Text
deriving DecidableEq

/-- A property whose values tell the shapes apart. -/
structure Candidate where
  field : Text
  partitions : List Partition
deriving DecidableEq

/-- The values of the property, in first-seen order. -/
def Candidate.values (c : Candidate) : List Text := c.partitions.map (·.value.getD [])

/-- Whether a value holds a discriminating scalar at a key. -/
def holdsLiteral (key : Text) (value : Json) : Bool :=
  ((value.get? key).bind Json.literalText).isSome

/-- The keys of the first element that hold a discriminating scalar in every element. -/
def candidateKeys : List Json → List Text
  | [] => []
  | first :: rest =>
    if (first :: rest).all fun v => v.members?.isSome then
      (Fields.keys (first.members?.getD [])).filter fun key =>
        (first :: rest).all (holdsLiteral key)
    else []

/-- Adds one element to the partitions: to that of its value, or to a new one at the end. -/
def insert (value : Option Text) (jsonType : Text) (index : Nat) (shape : Text) :
    List Partition → List Partition
  | [] => [⟨value, jsonType, [index], [shape]⟩]
  | p :: rest =>
    if p.value = value then
      { p with
        indices := p.indices ++ [index]
        shapes := if shape ∈ p.shapes then p.shapes else p.shapes ++ [shape] } :: rest
    else p :: insert value jsonType index shape rest

variable (digest : Text → Text)

/-- Groups elements, given with their shapes and counted from `index`, by their value at a key. -/
def partitionFrom (key : Text) (index : Nat) (done : List Partition) :
    List (Json × Shape) → Except Fault (List Partition)
  | [] => .ok done
  | (element, shape) :: rest =>
    match element.keyed key with
    | .error e => .error e
    | .ok value =>
      match shape.canonicalText? with
      | .error e => .error e
      | .ok text =>
        partitionFrom key (index + 1)
          (insert value.literalText value.literalType index (digest text) done) rest

/-- Groups elements by the literal text at a key, in first-seen order. -/
def partition (values : List Json) (key : Text) (shapes : List Shape) :
    Except Fault (List Partition) :=
  partitionFrom digest key 0 [] (values.zip shapes)

/-- Whether there is one partition for each shape, and one shape in each partition. -/
def qualifies (shapeCount : Nat) (partitions : List Partition) : Bool :=
  partitions.length == shapeCount && partitions.all fun p => p.shapes.length == 1

/-- The first of the keys whose values correspond to the shapes. -/
def firstQualifying (values : List Json) (shapes : List Shape) (shapeCount : Nat) :
    List Text → Except Fault (Option Candidate)
  | [] => .ok none
  | key :: rest =>
    match partition digest values key shapes with
    | .error e => .error e
    | .ok partitions =>
      if qualifies shapeCount partitions then .ok (some ⟨key, partitions⟩)
      else firstQualifying values shapes shapeCount rest

/-- The property that tells the shapes of the elements apart, if there is one. -/
def find (values : List Json) (shapes : List Shape) (shapeCount : Nat) :
    Except Fault (Option Candidate) :=
  if shapeCount < 2 then .ok none
  else firstQualifying digest values shapes shapeCount (candidateKeys values)

end Discriminator

end JsonShapes
