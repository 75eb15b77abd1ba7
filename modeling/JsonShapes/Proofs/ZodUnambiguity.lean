import JsonShapes.Proofs.ZodSoundness

/-!
# Zod schemas tell shapes apart

No two shapes are written as one Zod schema, unless they differ in nothing but the JSON types of
their literals. The reader of schemas finds the shape again once it can undo quoting. Decoding a
literal is not enough for that, since a split surrogate pair and the joined one decode to the same
string. Quoting itself keeps the two apart, and its inverse does.
-/

namespace JsonShapes

namespace Shape

mutual

/-- The shape with all literals as strings and its discriminators as `tag` leaves them. -/
def erase (tag : Option Text → Option Text) : Shape → Shape
  | .scalar kind => .scalar kind
  | .literal value _ => .literal value "string"
  | .optional inner => .optional (erase tag inner)
  | .object fields => .object (eraseFields tag fields)
  | .array element => .array (erase tag element)
  | .union discriminator variants => .union (tag discriminator) (eraseAll tag variants)
  | .foreign kind => .foreign kind

def eraseFields (tag : Option Text → Option Text) : List (Text × Shape) → List (Text × Shape)
  | [] => []
  | (key, s) :: rest => (key, erase tag s) :: eraseFields tag rest

def eraseAll (tag : Option Text → Option Text) : List Shape → List Shape
  | [] => []
  | s :: rest => erase tag s :: eraseAll tag rest

end

theorem eraseFields_eq_map (tag : Option Text → Option Text) (fields : List (Text × Shape)) :
    eraseFields tag fields = fields.map fun f => (f.1, erase tag f.2) := by
  induction fields with
  | nil => rfl
  | cons f fields ih => rw [eraseFields, ih, List.map_cons]

theorem eraseAll_eq_map (tag : Option Text → Option Text) (shapes : List Shape) :
    eraseAll tag shapes = shapes.map (erase tag) := by
  induction shapes with
  | nil => rfl
  | cons s shapes ih => rw [eraseAll, ih, List.map_cons]

/-- The shape with all literals as strings. -/
def untyped : Shape → Shape := erase id

end Shape

namespace Emit

open Shape (untyped erase eraseFields_eq_map eraseAll_eq_map)

/-- The types of literals are not written. -/
theorem write_untyped (g : Grammar) (o : Options) (depth : Nat) (s : Shape) :
    write g o depth s.untyped = write g o depth s := by
  rw [untyped]
  induction s using Shape.treeInduction generalizing depth with
  | scalar kind => rfl
  | literal value jsonType => rfl
  | optional inner ih => rw [erase, write, write, ih]
  | object fields ih =>
      have members : writeMembers g o (depth + 1) (Shape.eraseFields id fields) =
          writeMembers g o (depth + 1) fields := by
        rw [writeMembers_eq_map, writeMembers_eq_map, eraseFields_eq_map, List.map_map]
        refine List.map_congr_left fun f hf => ?_
        rw [Function.comp_apply, ih f hf]
      have empty : (Shape.eraseFields id fields).isEmpty = fields.isEmpty := by
        rw [eraseFields_eq_map, List.isEmpty_map]
      rw [erase, write, write, members, empty]
  | array element ih => rw [erase, write, write, ih]
  | union discriminator variants ih =>
      have alternatives (depth : Nat) : writeAll g o depth (Shape.eraseAll id variants) =
          writeAll g o depth variants := by
        rw [writeAll_eq_map, writeAll_eq_map, eraseAll_eq_map, List.map_map]
        exact List.map_congr_left fun s hs => ih s hs depth
      rw [erase, write, write, alternatives, alternatives, id]
  | foreign kind => rfl

end Emit

namespace Zod

open Emit

mutual

/-- The shape that a schema describes, with all literals as strings. -/
def toShape : Zod → Shape
  | .scalar kind => .scalar kind
  | .literal text => .literal text "string"
  | .optional inner => .optional (toShape inner)
  | .object members => .object (toFields members)
  | .array element => .array (toShape element)
  | .union discriminator variants => .union discriminator (toAll variants)

def toFields : List (Text × Zod) → List (Text × Shape)
  | [] => []
  | (key, schema) :: rest => (key, toShape schema) :: toFields rest

def toAll : List Zod → List Shape
  | [] => []
  | schema :: rest => toShape schema :: toAll rest

end

theorem toFields_eq_map (members : List (Text × Zod)) :
    toFields members = members.map fun m => (m.1, toShape m.2) := by
  induction members with
  | nil => rfl
  | cons m members ih => rw [toFields, ih, List.map_cons]

theorem toAll_eq_map (schemas : List Zod) : toAll schemas = schemas.map toShape := by
  induction schemas with
  | nil => rfl
  | cons schema schemas ih => rw [toAll, ih, List.map_cons]

variable {S T : Set Text}

/-- A schema loses nothing of its shape but the types of literals. -/
theorem toShape_ofShape {s : Shape} (h : s.Within S) : toShape (ofShape id s) = s.untyped := by
  rw [Shape.untyped]
  induction h with
  | scalar kind => rfl
  | literal word typeWord => rfl
  | optional within ih => rw [ofShape, toShape, ih, Shape.erase]
  | object words within ih =>
      rw [ofShape, toShape, ofFields_eq_map, toFields_eq_map, List.map_map, Shape.erase,
        Shape.eraseFields_eq_map]
      refine congrArg Shape.object (List.map_congr_left fun f hf => ?_)
      rw [Function.comp_apply, ih f hf, id]
  | array within ih => rw [ofShape, toShape, ih, Shape.erase]
  | union word within ih =>
      rw [ofShape, toShape, ofAll_eq_map, toAll_eq_map, List.map_map, Shape.erase,
        Shape.eraseAll_eq_map, Option.map_id]
      exact congrArg (Shape.union _) (List.map_congr_left ih)

/-- A schema is read back with its texts as they were if quoting is undone. -/
theorem readNested_tokensOf_id {s : Shape} (h : s.Within S) {fuel : Nat} (deep : s.depth ≤ fuel) :
    readNested (Function.partialInv Text.quote) fuel (tokensOf s) = some (ofShape id s, []) := by
  have unquoted := Function.partialInv_left Quoted.quote_injective
  have read := readNested_tokensOf unquoted h deep []
  rwa [List.append_nil] at read

/-- Shapes of the same tokens have the same schema. -/
theorem ofShape_eq_of_tokensOf_eq {a b : Shape} (ha : a.Within S) (hb : b.Within T)
    (h : tokensOf a = tokensOf b) : ofShape id a = ofShape id b := by
  have deep : b.depth ≤ (tokensOf a).length := h ▸ depth_le_length_tokensOf hb
  have first := readNested_tokensOf_id ha (depth_le_length_tokensOf ha)
  have second := readNested_tokensOf_id hb deep
  rw [← h, first] at second
  exact congrArg Prod.fst (Option.some.inj second)

theorem write_eq_iff {o : Options} (blank : o.Blank) {a b : Shape} (ha : a.Within S)
    (hb : b.Within T) (depth : Nat) :
    write zod o depth a = write zod o depth b ↔ a.untyped = b.untyped := by
  constructor
  · intro same
    have tokens := (lexes_write blank ha depth).tokenize
    rw [same, (lexes_write blank hb depth).tokenize] at tokens
    have schemas := ofShape_eq_of_tokensOf_eq ha hb (Option.some.inj tokens).symm
    rw [← toShape_ofShape ha, ← toShape_ofShape hb, schemas]
  · intro same
    rw [← write_untyped, same, write_untyped]

/-- Trees without foreign leaves can be written, and have one text if and only if they are equal up
to the types of their literals. -/
theorem emit_eq_iff_untyped_eq {o : Options} (blank : o.Blank) {a b : Shape}
    (ha : a.foreign? = none) (hb : b.foreign? = none) :
    ∃ s t, emit .zod o a = .ok s ∧ emit .zod o b = .ok t ∧ (s = t ↔ a.untyped = b.untyped) := by
  have withinA := Shape.within_univ ha
  have withinB := Shape.within_univ hb
  exact ⟨_, _, Shape.emit_eq_ok .zod o withinA, Shape.emit_eq_ok .zod o withinB,
    write_eq_iff blank withinA withinB 0⟩

/-- A key that spells out where another member would start is written as one key. -/
theorem emit_ne_memberInKey :
    ∃ s t, emit .zod ⟨"\t", false⟩ (.object [("a\": z.null(),\n\t\"b", .null)]) = .ok s ∧
      emit .zod ⟨"\t", false⟩ (.object [("a", .null), ("b", .null)]) = .ok t ∧ s ≠ t := by
  have blank : Options.Blank ⟨"\t", false⟩ := .inr (by decide)
  obtain ⟨s, t, first, second, same⟩ := emit_eq_iff_untyped_eq blank
    (show (Shape.object [("a\": z.null(),\n\t\"b", .null)]).foreign? = none by decide)
    (show (Shape.object [("a", .null), ("b", .null)]).foreign? = none by decide)
  exact ⟨s, t, first, second, fun h => absurd (same.1 h) (by decide)⟩

end Zod

end JsonShapes
