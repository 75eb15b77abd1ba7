import JsonShapes.Proofs.Acceptance
import JsonShapes.Proofs.Fallible
import JsonShapes.Proofs.Rounding
import JsonShapes.Schema

/-!
# Validating values against JSON Schemas

`Schema.validates` is the meaning of a schema, by the keywords that the schemas of this library use:
`type`, `const`, `properties`, `required`, `items`, `anyOf` and `oneOf`. Every other keyword is an
annotation. Objects are open, `anyOf` asks for at least one match and `oneOf` for exactly one. Two
numbers are equal if they have the same value, however they are written.

What follows says what a schema of each form accepts.
-/

namespace JsonShapes

namespace Json

/-- The value of a number. -/
def number? : Json → Option ℚ
  | .int n => some n
  | .double (.finite x) => some x.value
  | _ => none

mutual

/-- Whether two values are equal, numbers by their value and objects whatever the order of their
members. -/
def equal : Json → Json → Bool
  | .arr items, .arr others => equalItems items others
  | .obj members, .obj others => members.length == others.length && equalMembers members others
  | a, b =>
    match a.number?, b.number? with
    | some p, some q => p == q
    | _, _ => a == b

def equalItems : List Json → List Json → Bool
  | [], [] => true
  | a :: items, b :: others => equal a b && equalItems items others
  | _, _ => false

def equalMembers : List (Text × Json) → List (Text × Json) → Bool
  | [], _ => true
  | (key, value) :: members, others =>
    (match Fields.get? others key with
      | some other => equal value other
      | none => false) && equalMembers members others

end

/-- The name of the type of a value. -/
def typeName : Json → Text
  | .null => "null"
  | .bool _ => "boolean"
  | .int _ => "number"
  | .double _ => "number"
  | .str _ => "string"
  | .arr _ => "array"
  | .obj _ => "object"

/-- Whether an object holds all keys of a list. -/
def holdsKeys (v keys : Json) : Bool :=
  match v.members?, keys.items? with
  | some members, some keys => keys.all fun
    | .str key => (Fields.get? members key).isSome
    | _ => true
  | _, _ => true

end Json

namespace Schema

mutual

/-- Whether a value validates against a schema. -/
def validates : Json → Json → Bool
  | .bool verdict, _ => verdict
  | .obj keywords, v => satisfies keywords v
  | _, _ => false

/-- Whether a value satisfies all keywords of a schema. -/
def satisfies : List (Text × Json) → Json → Bool
  | [], _ => true
  | (keyword, argument) :: rest, v =>
    (if keyword = Text.ofString "type" then argument == .str v.typeName
      else if keyword = Text.ofString "const" then argument.equal v
      else if keyword = Text.ofString "required" then v.holdsKeys argument
      else if keyword = Text.ofString "items" then (v.items?.getD []).all (validates argument)
      else if keyword = Text.ofString "properties" then fits argument (v.members?.getD [])
      else if keyword = Text.ofString "anyOf" then 0 < matching argument v
      else if keyword = Text.ofString "oneOf" then matching argument v == 1
      else true) && satisfies rest v

/-- Whether the members that have a schema of their own validate against it. -/
def fits : Json → List (Text × Json) → Bool
  | .obj properties, members => fitsAll properties members
  | _, _ => true

def fitsAll : List (Text × Json) → List (Text × Json) → Bool
  | [], _ => true
  | (key, schema) :: rest, members =>
    (match Fields.get? members key with
      | some value => validates schema value
      | none => true) && fitsAll rest members

/-- How many schemas of a list a value validates against. -/
def matching : Json → Json → Nat
  | .arr schemas, v => matchingAll schemas v
  | _, _ => 0

def matchingAll : List Json → Json → Nat
  | [], _ => 0
  | schema :: rest, v => (if validates schema v then 1 else 0) + matchingAll rest v

end

theorem matchingAll_eq_countP (schemas : List Json) (v : Json) :
    matchingAll schemas v = schemas.countP (validates · v) := by
  induction schemas with
  | nil => rw [matchingAll, List.countP_nil]
  | cons schema schemas ih => rw [matchingAll, List.countP_cons, ih, Nat.add_comm]

theorem fitsAll_iff {properties members : List (Text × Json)} :
    fitsAll properties members = true ↔ ∀ p ∈ properties, ∀ value,
      Fields.get? members p.1 = some value → validates p.2 value = true := by
  induction properties with
  | nil => simp [fitsAll]
  | cons p properties ih =>
      obtain ⟨key, schema⟩ := p
      rw [fitsAll, Bool.and_eq_true, ih, List.forall_mem_cons]
      refine and_congr_left fun _ => ?_
      cases Fields.get? members key <;> simp

theorem validates_typed_iff {name : Text} {rest : List (Text × Json)} {v : Json} :
    validates (typed name rest) v = true ↔ v.typeName = name ∧ satisfies rest v = true := by
  have keyword : validates (typed name rest) v =
      ((Json.str name == .str v.typeName) && satisfies rest v) := by
    rw [typed, validates, satisfies]
    rfl
  rw [keyword, Bool.and_eq_true, beq_iff_eq, Json.str.injEq, eq_comm]

theorem validates_ofScalar_iff {kind : Scalar} {v : Json} :
    validates (ofScalar kind) v = true ↔ kind = .unknown ∨ v.typeName = kind.name := by
  cases kind with
  | unknown => simp [ofScalar, validates, satisfies]
  | _ => simp [ofScalar, validates_typed_iff, satisfies]

theorem validates_const_iff {name : Text} {c v : Json} :
    validates (typed name [("const", c)]) v = true ↔ v.typeName = name ∧ c.equal v = true := by
  have keyword : satisfies [("const", c)] v = (c.equal v && true) := by
    rw [satisfies, satisfies]
    rfl
  rw [validates_typed_iff, keyword, Bool.and_true]

theorem typeName_eq_array_iff {v : Json} :
    v.typeName = Text.ofString "array" ↔ ∃ items, v = .arr items := by
  constructor
  · intro h
    cases v with
    | arr items => exact ⟨items, rfl⟩
    | _ => exact absurd h (by rw [Json.typeName]; decide)
  · rintro ⟨items, rfl⟩
    rfl

theorem typeName_eq_object_iff {v : Json} :
    v.typeName = Text.ofString "object" ↔ ∃ members, v = .obj members := by
  constructor
  · intro h
    cases v with
    | obj members => exact ⟨members, rfl⟩
    | _ => exact absurd h (by rw [Json.typeName]; decide)
  · rintro ⟨members, rfl⟩
    rfl

theorem validates_array_iff {items v : Json} :
    validates (typed "array" [("items", items)]) v = true ↔
      ∃ elements, v = .arr elements ∧ ∀ e ∈ elements, validates items e = true := by
  have keyword : satisfies [("items", items)] v =
      ((v.items?.getD []).all (validates items) && true) := by
    rw [satisfies, satisfies]
    rfl
  rw [validates_typed_iff, keyword, Bool.and_true, List.all_eq_true, typeName_eq_array_iff]
  constructor
  · rintro ⟨⟨elements, rfl⟩, each⟩
    exact ⟨elements, rfl, each⟩
  · rintro ⟨elements, rfl, each⟩
    exact ⟨⟨elements, rfl⟩, each⟩

theorem holdsKeys_iff {members : List (Text × Json)} {keys : List Text} :
    (Json.obj members).holdsKeys (.arr (keys.map .str)) = true ↔
      ∀ key ∈ keys, ∃ value, Fields.get? members key = some value := by
  simp [Json.holdsKeys, Json.members?, Json.items?, Option.isSome_iff_exists]

/-- An open record: the members with a schema validate, and the required ones are there. -/
theorem validates_ofRecord_iff {fields : List (Text × Shape)} {properties : List (Text × Json)}
    {v : Json} :
    validates (ofRecord fields properties) v = true ↔ ∃ members, v = .obj members ∧
      (∀ p ∈ properties, ∀ value, Fields.get? members p.1 = some value →
        validates p.2 value = true) ∧
      ∀ key ∈ requiredKeys fields, ∃ value, Fields.get? members key = some value := by
  have keywords : ∀ members : List (Text × Json),
      satisfies (("properties", .obj properties) :: if (requiredKeys fields).isEmpty then []
        else [("required", .arr ((requiredKeys fields).map Json.str))]) (.obj members) =
      (fitsAll properties members &&
        (Json.obj members).holdsKeys (.arr ((requiredKeys fields).map .str))) := by
    intro members
    rw [satisfies]
    change (fits (.obj properties) members && _) = _
    rw [fits]
    congr 1
    split
    · next empty => simp [satisfies, List.isEmpty_iff.mp empty, Json.holdsKeys, Json.members?,
        Json.items?]
    · rw [satisfies, satisfies, Bool.and_true]
      rfl
  rw [ofRecord, validates_typed_iff, typeName_eq_object_iff]
  constructor
  · rintro ⟨⟨members, rfl⟩, h⟩
    rw [keywords, Bool.and_eq_true, fitsAll_iff, holdsKeys_iff] at h
    exact ⟨members, rfl, h⟩
  · rintro ⟨members, rfl, h⟩
    rw [keywords, Bool.and_eq_true, fitsAll_iff, holdsKeys_iff]
    exact ⟨⟨members, rfl⟩, h⟩

/-- A choice of at least one. -/
theorem validates_anyOf_iff {schemas : List Json} {v : Json} :
    validates (ofUnion none schemas) v = true ↔ ∃ schema ∈ schemas, validates schema v = true := by
  have keyword : validates (ofUnion none schemas) v =
      (decide (0 < matchingAll schemas v) && true) := by
    rw [ofUnion, validates, satisfies, satisfies]
    change (decide (0 < matching (.arr schemas) v) && true) = _
    rw [matching]
  rw [keyword, Bool.and_true, decide_eq_true_eq, matchingAll_eq_countP, List.countP_pos_iff]

/-- A choice of exactly one. -/
theorem validates_oneOf_iff {field : Text} {schemas : List Json} {v : Json} :
    validates (ofUnion (some field) schemas) v = true ↔ schemas.countP (validates · v) = 1 := by
  have keyword : validates (ofUnion (some field) schemas) v = (matchingAll schemas v == 1) := by
    rw [ofUnion, validates, satisfies, satisfies, satisfies]
    change (matching (.arr schemas) v == 1 && (true && true)) = _
    rw [matching, Bool.true_and, Bool.and_true]
  rw [keyword, beq_iff_eq, matchingAll_eq_countP]

theorem fragment_unwrap (s : Shape) : fragment s.unwrap = fragment s := by
  cases s <;> simp [Shape.unwrap, fragment]

theorem fragment_object_iff {fields : List (Text × Shape)} {schema : Json} :
    fragment (.object fields) = .ok schema ↔ ∃ properties,
      fragmentFields fields = .ok properties ∧ schema = ofRecord fields properties := by
  rw [fragment, bind_pure_eq_ok_iff]

theorem fragment_array_iff {element : Shape} {schema : Json} :
    fragment (.array element) = .ok schema ↔
      ∃ items, fragment element = .ok items ∧ schema = typed "array" [("items", items)] := by
  rw [fragment, bind_pure_eq_ok_iff]

theorem fragment_union_iff {d : Option Text} {variants : List Shape} {schema : Json} :
    fragment (.union d variants) = .ok schema ↔
      ∃ schemas, fragmentAll variants = .ok schemas ∧ schema = ofUnion d schemas := by
  rw [fragment, bind_pure_eq_ok_iff]

theorem fragmentFields_iff {fields : List (Text × Shape)} {properties : List (Text × Json)} :
    fragmentFields fields = .ok properties ↔
      List.Forall₂ (fun f p => p.1 = f.1 ∧ fragment f.2 = .ok p.2) fields properties := by
  induction fields generalizing properties with
  | nil => simp [fragmentFields, eq_comm]
  | cons f fields ih =>
      rw [fragmentFields, bind_eq_ok_iff, List.forall₂_cons_left_iff]
      simp only [bind_pure_eq_ok_iff, ih]
      constructor
      · rintro ⟨schema, eq, rest, each, rfl⟩
        exact ⟨_, rest, ⟨rfl, eq⟩, each, rfl⟩
      · rintro ⟨⟨_, schema⟩, rest, ⟨rfl, eq⟩, each, rfl⟩
        exact ⟨schema, eq, rest, each, rfl⟩

theorem fragmentAll_iff {variants : List Shape} {schemas : List Json} :
    fragmentAll variants = .ok schemas ↔
      List.Forall₂ (fun s schema => fragment s = .ok schema) variants schemas := by
  induction variants generalizing schemas with
  | nil => simp [fragmentAll, eq_comm]
  | cons s variants ih =>
      rw [fragmentAll, bind_eq_ok_iff, List.forall₂_cons_left_iff]
      simp only [bind_pure_eq_ok_iff, ih]
      constructor
      · rintro ⟨schema, eq, rest, each, rfl⟩
        exact ⟨_, rest, eq, each, rfl⟩
      · rintro ⟨schema, rest, eq, each, rfl⟩
        exact ⟨schema, eq, rest, each, rfl⟩

/-- A document validates what its schema does. -/
theorem validates_document (title : Text) (keywords : List (Text × Json)) (v : Json) :
    validates (document title (.obj keywords)) v = validates (.obj keywords) v := by
  rw [document, validates, validates, satisfies]
  change (true && satisfies (_ ++ keywords) v) = _
  rw [Bool.true_and]
  split
  · rfl
  · change satisfies (("title", .str title) :: keywords) v = _
    rw [satisfies]
    rfl

end Schema

end JsonShapes
