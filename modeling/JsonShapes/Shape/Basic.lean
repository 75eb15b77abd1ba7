import JsonShapes.Fields

/-!
# Shapes

A shape is the structural type of JSON values: scalars, pinned literals, properties that may be
absent, records with ordered properties, arrays of one element type, and tagged or untagged unions.
A tree may also hold a foreign leaf, of which only the name of its kind is known; no walk over the
tree accepts one.
-/

namespace JsonShapes

/-- The shapes without parts. No value is known of an `unknown` one. -/
inductive Scalar where
  | null
  | string
  | number
  | boolean
  | unknown
deriving DecidableEq

def Scalar.name : Scalar → Text
  | .null => "null"
  | .string => "string"
  | .number => "number"
  | .boolean => "boolean"
  | .unknown => "unknown"

inductive Shape where
  | scalar (kind : Scalar)
  /-- A pinned scalar: the text of its value, and the JSON type that it was read from. -/
  | literal (value jsonType : Text)
  | optional (inner : Shape)
  | object (fields : List (Text × Shape))
  | array (element : Shape)
  /-- The alternatives; a tagged union names the property that tells them apart. -/
  | union (discriminator : Option Text) (variants : List Shape)
  | foreign (kind : Text)

namespace Shape

@[match_pattern] abbrev null : Shape := .scalar .null

@[match_pattern] abbrev string : Shape := .scalar .string

@[match_pattern] abbrev number : Shape := .scalar .number

@[match_pattern] abbrev boolean : Shape := .scalar .boolean

@[match_pattern] abbrev unknown : Shape := .scalar .unknown

instance : Inhabited Shape := ⟨.unknown⟩

mutual

/-- Whether two shapes are the same, order of properties and variants included. -/
def same : Shape → Shape → Bool
  | .scalar a, .scalar b => a == b
  | .literal v t, .literal w u => v == w && t == u
  | .optional a, .optional b => same a b
  | .object a, .object b => sameFields a b
  | .array a, .array b => same a b
  | .union d a, .union e b => d == e && sameAll a b
  | .foreign a, .foreign b => a == b
  | _, _ => false

def sameFields : List (Text × Shape) → List (Text × Shape) → Bool
  | [], [] => true
  | (k, a) :: as, (l, b) :: bs => k == l && same a b && sameFields as bs
  | _, _ => false

def sameAll : List Shape → List Shape → Bool
  | [], [] => true
  | a :: as, b :: bs => same a b && sameAll as bs
  | _, _ => false

end

mutual

theorem same_iff : ∀ a b : Shape, same a b = true ↔ a = b
  | .scalar _, b => by cases b <;> simp [same]
  | .literal _ _, b => by cases b <;> simp [same]
  | .optional a, b => by
    cases b <;> simp [same]
    exact same_iff a _
  | .object a, b => by
    cases b <;> simp [same]
    exact sameFields_iff a _
  | .array a, b => by
    cases b <;> simp [same]
    exact same_iff a _
  | .union _ a, b => by
    cases b <;> simp [same]
    intro _
    exact sameAll_iff a _
  | .foreign _, b => by cases b <;> simp [same]

theorem sameFields_iff : ∀ a b : List (Text × Shape), sameFields a b = true ↔ a = b
  | [], b => by cases b <;> simp [sameFields]
  | (k, a) :: as, [] => by simp [sameFields]
  | (k, a) :: as, (l, b) :: bs => by
    simp only [sameFields, Bool.and_eq_true, beq_iff_eq, List.cons.injEq, Prod.mk.injEq,
      same_iff a b, sameFields_iff as bs]

theorem sameAll_iff : ∀ a b : List Shape, sameAll a b = true ↔ a = b
  | [], b => by cases b <;> simp [sameAll]
  | a :: as, [] => by simp [sameAll]
  | a :: as, b :: bs => by
    simp only [sameAll, Bool.and_eq_true, List.cons.injEq, same_iff a b, sameAll_iff as bs]

end

instance : DecidableEq Shape := fun a b => decidable_of_iff _ (same_iff a b)

mutual

/-- How deep the tree is; a leaf has depth one. -/
def depth : Shape → Nat
  | .scalar _ => 1
  | .literal _ _ => 1
  | .optional inner => inner.depth + 1
  | .object fields => depthFields fields + 1
  | .array element => element.depth + 1
  | .union _ variants => depthAll variants + 1
  | .foreign _ => 1

def depthFields : List (Text × Shape) → Nat
  | [] => 0
  | (_, s) :: rest => max s.depth (depthFields rest)

def depthAll : List Shape → Nat
  | [] => 0
  | s :: rest => max s.depth (depthAll rest)

end

mutual

/-- The kind of the first foreign leaf of a tree, in the order of the tree. -/
def foreign? : Shape → Option Text
  | .scalar _ => none
  | .literal _ _ => none
  | .optional inner => foreign? inner
  | .object fields => foreignField? fields
  | .array element => foreign? element
  | .union _ variants => foreignAmong? variants
  | .foreign kind => some kind

def foreignField? : List (Text × Shape) → Option Text
  | [] => none
  | (_, s) :: rest => (foreign? s).or (foreignField? rest)

/-- The kind of the first foreign leaf of several trees. -/
def foreignAmong? : List Shape → Option Text
  | [] => none
  | s :: rest => (foreign? s).or (foreignAmong? rest)

end

/-- The name of the kind of node at the root of a tree, as messages show it. -/
def nodeName : Shape → Text
  | .scalar .null => "NullNode"
  | .scalar .string => "StringNode"
  | .scalar .number => "NumberNode"
  | .scalar .boolean => "BooleanNode"
  | .scalar .unknown => "UnknownNode"
  | .literal _ _ => "LiteralNode"
  | .optional _ => "OptionalNode"
  | .object _ => "ObjectNode"
  | .array _ => "ArrayNode"
  | .union _ _ => "UnionNode"
  | .foreign kind => kind

def isOptional : Shape → Bool
  | .optional _ => true
  | _ => false

/-- The shape below all the options around it. -/
def required : Shape → Shape
  | .optional inner => required inner
  | s => s

/-- The option around a shape; options never nest. -/
def asOptional (s : Shape) : Shape := .optional s.required

/-- The shape below an option, if it is one. -/
def unwrap : Shape → Shape
  | .optional inner => inner
  | s => s

/-- The properties of a record. -/
def fields? : Shape → Option (List (Text × Shape))
  | .object fields => some fields
  | _ => none

/-- The element type of an array. -/
def element? : Shape → Option Shape
  | .array element => some element
  | _ => none

theorem depth_pos (s : Shape) : 0 < s.depth := by
  cases s <;> simp [depth]

theorem depth_unwrap_le (s : Shape) : s.unwrap.depth ≤ s.depth := by
  cases s <;> simp [unwrap, depth]

theorem depthAll_le_iff {xs : List Shape} {n : Nat} :
    depthAll xs ≤ n ↔ ∀ x ∈ xs, x.depth ≤ n := by
  induction xs with
  | nil => simp [depthAll]
  | cons x xs ih => simp only [depthAll, Nat.max_le, ih, List.forall_mem_cons]

theorem depth_le_depthAll {x : Shape} {xs : List Shape} (h : x ∈ xs) : x.depth ≤ depthAll xs :=
  depthAll_le_iff.1 (Nat.le_refl _) x h

theorem depth_le_depthFields {key : Text} {s : Shape} {fields : List (Text × Shape)}
    (h : (key, s) ∈ fields) : s.depth ≤ depthFields fields := by
  induction fields with
  | nil => simp at h
  | cons field rest ih =>
    obtain ⟨k, t⟩ := field
    rw [depthFields]
    rcases List.mem_cons.1 h with e | m
    · cases e
      exact Nat.le_max_left _ _
    · exact Nat.le_trans (ih m) (Nat.le_max_right _ _)

end Shape

end JsonShapes
