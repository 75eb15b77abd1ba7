import JsonShapes.Discriminator
import JsonShapes.Merge
import JsonShapes.Shape.Record
import JsonShapes.Text.Display

/-!
# Inferring shapes

A JSON value determines a shape. The elements of an array are unified into one element type: the
common shape if there is one, a tagged union if a property discriminates them, a merged record if
all are records, and an untagged union otherwise. Several samples of one response are inferred one
by one and merged. Every choice that deserves mention is reported as a `Decision`.
-/

namespace JsonShapes

open Discriminator (Candidate Partition)

/-- How the elements of an array are made into one type. -/
inductive Unification where
  | nothing
  | uniform (shape : Shape)
  | tagged (candidate : Candidate)
  | folded (records : List Shape)
  | alternatives (shapes : List Shape)

/-- A choice made during inference. -/
inductive Decision where
  | discriminated (field : Text) (values : List Text)
  | folded (shapeCount : Nat)
  | reconciled (sampleCount shapeCount : Nat)
deriving DecidableEq

namespace Decision

def message : Decision → Text
  | .discriminated field values =>
    "Discriminator '" ++ field ++ "' detected with values " ++ Text.displayList values
  | .folded shapeCount => "Folding " ++ Text.ofNat shapeCount ++ " object shapes into one record"
  | .reconciled sampleCount shapeCount =>
    "Reconciling " ++ Text.ofNat sampleCount ++ " samples (" ++ Text.ofNat shapeCount ++
      " distinct shapes)"

end Decision

namespace Unification

/-- Decides how elements of the given shapes are unified. Shapes are compared by their canonical
texts themselves. -/
def of (values : List Json) (shapes : List Shape) : Except Fault Unification :=
  if shapes.isEmpty then .ok .nothing
  else
    match Shape.unique? shapes with
    | .error e => .error e
    | .ok [only] => .ok (.uniform only)
    | .ok distinct =>
      match Discriminator.find id values shapes distinct.length with
      | .error e => .error e
      | .ok (some candidate) => .ok (.tagged candidate)
      | .ok none =>
        if distinct.all fun s => s.fields?.isSome then .ok (.folded distinct)
        else .ok (.alternatives distinct)

/-- The shape with a property of a record set to another shape. -/
def pin (field : Text) (pinned : Shape) : Shape → Shape
  | .object fields => .object (Fields.set fields field pinned)
  | s => s

/-- The variant of a tagged union for one partition: its records merged, with the value of the
discriminator pinned. -/
def variant (shapes : List Shape) (field : Text) (p : Partition) : Except Fault Shape := do
  let merged ← Shape.mergeRecords (p.indices.filterMap (shapes[·]?))
  return pin field (.literal (p.value.getD []) p.jsonType) merged

/-- The element type. -/
def shape (shapes : List Shape) : Unification → Except Fault Shape
  | .nothing => .ok .unknown
  | .uniform s => .ok s
  | .tagged c => do
    let variants ← c.partitions.mapM (variant shapes c.field)
    return .union (some c.field) variants
  | .folded records => Shape.mergeRecords records
  | .alternatives distinct => .ok (.union none distinct)

/-- The choice that is reported. -/
def decisions : Unification → List Decision
  | .tagged c => [.discriminated c.field c.values]
  | .folded records => [.folded records.length]
  | _ => []

end Unification

namespace Shape

/-- The one type of the elements of an array, whose shapes are given. -/
def unify (values : List Json) (shapes : List Shape) : Except Fault Shape := do
  (← Unification.of values shapes).shape shapes

mutual

/-- The shape of a JSON value. A number that is not finite tells nothing. -/
def infer : Json → Except Fault Shape
  | .null => .ok .null
  | .bool _ => .ok .boolean
  | .int _ => .ok .number
  | .double x => .ok (if x.isFinite then .number else .unknown)
  | .str _ => .ok .string
  | .arr items => do
    let shapes ← inferAll items
    return .array (← unify items shapes)
  | .obj members => do
    ofFields (← inferMembers members)

/-- The shapes of the elements of an array. -/
def inferAll : List Json → Except Fault (List Shape)
  | [] => .ok []
  | item :: items => do
    let shape ← infer item
    return shape :: (← inferAll items)

/-- The properties that the members of an object make. -/
def inferMembers : List (Text × Json) → Except Fault (List (Text × Shape))
  | [] => .ok []
  | (key, value) :: members => do
    let shape ← infer value
    return (key, shape) :: (← inferMembers members)

end

mutual

/-- The shape of a value and the decisions that led to it, inner ones first. -/
def explain : Json → Except Fault (Shape × List Decision)
  | .arr items => do
    let (shapes, inner) ← explainAll items
    let unification ← Unification.of items shapes
    return (.array (← unification.shape shapes), inner ++ unification.decisions)
  | .obj members => do
    let (fields, inner) ← explainMembers members
    return (← ofFields fields, inner)
  | other => do return (← infer other, [])

/-- The shapes of the elements of an array and the decisions that led to them. -/
def explainAll : List Json → Except Fault (List Shape × List Decision)
  | [] => .ok ([], [])
  | item :: items => do
    let (shape, first) ← explain item
    let (shapes, others) ← explainAll items
    return (shape :: shapes, first ++ others)

/-- The properties that members make and the decisions that led to them. -/
def explainMembers : List (Text × Json) → Except Fault (List (Text × Shape) × List Decision)
  | [] => .ok ([], [])
  | (key, value) :: members => do
    let (shape, first) ← explain value
    let (fields, others) ← explainMembers members
    return ((key, shape) :: fields, first ++ others)

end

/-- The one shape of several samples of the same response. -/
def inferSamples (samples : List Json) : Except Fault Shape :=
  if samples.isEmpty then .error .noSamples
  else do mergeShapes (← inferAll samples)

/-- The shape of several samples and the decisions that led to it. -/
def explainSamples (samples : List Json) : Except Fault (Shape × List Decision) :=
  if samples.isEmpty then .error .noSamples
  else do
    let (shapes, inner) ← explainAll samples
    return (← mergeShapes shapes, inner ++ [.reconciled shapes.length (unique shapes).length])

mutual

/-- Explaining infers the same shape. -/
theorem map_fst_explain : ∀ j : Json, (explain j).map Prod.fst = infer j
  | .null => rfl
  | .bool _ => rfl
  | .int _ => rfl
  | .double _ => rfl
  | .str _ => rfl
  | .arr items => by
    rw [explain, infer, ← map_fst_explainAll items]
    cases explainAll items with
    | error e => rfl
    | ok explained =>
      simp only [bind, Except.bind, Except.map, unify]
      cases Unification.of items explained.1 with
      | error e => rfl
      | ok unification =>
        dsimp only
        cases unification.shape explained.1 <;> rfl
  | .obj members => by
    rw [explain, infer, ← map_fst_explainMembers members]
    cases explainMembers members with
    | error e => rfl
    | ok explained =>
      simp only [bind, Except.bind, Except.map]
      cases ofFields explained.1 <;> rfl

theorem map_fst_explainAll : ∀ items : List Json, (explainAll items).map Prod.fst = inferAll items
  | [] => rfl
  | item :: items => by
    rw [explainAll, inferAll, ← map_fst_explain item, ← map_fst_explainAll items]
    cases explain item with
    | error e => rfl
    | ok first => cases explainAll items <;> rfl

theorem map_fst_explainMembers :
    ∀ members : List (Text × Json), (explainMembers members).map Prod.fst = inferMembers members
  | [] => rfl
  | (key, value) :: members => by
    rw [explainMembers, inferMembers, ← map_fst_explain value, ← map_fst_explainMembers members]
    cases explain value with
    | error e => rfl
    | ok first => cases explainMembers members <;> rfl

end

theorem map_fst_explainSamples (samples : List Json) :
    (explainSamples samples).map Prod.fst = inferSamples samples := by
  unfold explainSamples inferSamples
  split
  · rfl
  · rw [← map_fst_explainAll samples]
    cases explainAll samples with
    | error e => rfl
    | ok explained =>
      simp only [bind, Except.bind, Except.map]
      cases mergeShapes explained.1 <;> rfl

end Shape

end JsonShapes
