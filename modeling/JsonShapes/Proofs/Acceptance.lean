import JsonShapes.Discriminator
import JsonShapes.Proofs.CanonicalOrder

/-!
# The values that a shape describes

`Shape.accepts` says which JSON values have a shape. Records are closed: a value may hold no key
beyond the properties, and only an optional property may be missing. A union accepts what one of
its variants accepts, whether it is tagged or not, and an `unknown` shape accepts nothing, so that
an array of it is empty. Anywhere but at a property, an option means the shape below it.

Acceptance does not depend on the order of properties and variants: shapes of one canonical form
accept the same values.
-/

namespace JsonShapes

/-- Whether a value is of the kind that a scalar shape stands for. -/
def Scalar.accepts : Scalar → Json → Bool
  | .null, .null => true
  | .string, .str _ => true
  | .number, .int _ => true
  | .number, .double _ => true
  | .boolean, .bool _ => true
  | _, _ => false

/-- The items of an array. -/
def Json.items? : Json → Option (List Json)
  | .arr items => some items
  | _ => none

namespace Shape

mutual

/-- Whether a value has a shape. -/
def accepts : Shape → Json → Bool
  | .scalar kind, v => kind.accepts v
  | .literal value jsonType, v => v.literalText == some value && v.literalType == jsonType
  | .optional inner, v => accepts inner v
  | .object fields, v =>
    match v.members? with
    | some members =>
      (Fields.keys members).all (Fields.keys fields).contains && acceptsFields fields members
    | none => false
  | .array element, v =>
    match v.items? with
    | some items => items.all fun item => accepts element item
    | none => false
  | .union _ variants, v => acceptsAny variants v
  | .foreign _, _ => false

/-- Whether members hold what each property asks for. -/
def acceptsFields : List (Text × Shape) → List (Text × Json) → Bool
  | [], _ => true
  | (key, s) :: rest, members =>
    (match Fields.get? members key with
      | some value => accepts s value
      | none => s.isOptional) && acceptsFields rest members

/-- Whether one of several shapes accepts a value. -/
def acceptsAny : List Shape → Json → Bool
  | [], _ => false
  | s :: rest, v => accepts s v || acceptsAny rest v

end

/-- What a property asks of the members of an object. -/
def AcceptsField (members : List (Text × Json)) (f : Text × Shape) : Prop :=
  (∀ value, Fields.get? members f.1 = some value → f.2.accepts value = true) ∧
    (Fields.get? members f.1 = none → f.2.isOptional = true)

theorem acceptsFields_iff {fields : List (Text × Shape)} {members : List (Text × Json)} :
    acceptsFields fields members = true ↔ ∀ f ∈ fields, AcceptsField members f := by
  induction fields with
  | nil => simp [acceptsFields]
  | cons f fields ih =>
      obtain ⟨key, s⟩ := f
      rw [acceptsFields, Bool.and_eq_true, ih, List.forall_mem_cons]
      refine and_congr_left fun _ => ?_
      cases h : Fields.get? members key <;> simp [AcceptsField, h]

theorem acceptsAny_iff {variants : List Shape} {v : Json} :
    acceptsAny variants v = true ↔ ∃ s ∈ variants, s.accepts v = true := by
  induction variants with
  | nil => simp [acceptsAny]
  | cons s variants ih => simp [acceptsAny, ih]

@[simp] theorem accepts_scalar (kind : Scalar) (v : Json) :
    (Shape.scalar kind).accepts v = kind.accepts v := by rw [accepts]

@[simp] theorem accepts_optional (inner : Shape) (v : Json) :
    (Shape.optional inner).accepts v = inner.accepts v := by rw [accepts]

@[simp] theorem accepts_foreign (kind : Text) (v : Json) :
    (Shape.foreign kind).accepts v = false := by rw [accepts]

theorem accepts_literal_iff {value jsonType : Text} {v : Json} :
    (Shape.literal value jsonType).accepts v = true ↔
      v.literalText = some value ∧ v.literalType = jsonType := by
  rw [accepts, Bool.and_eq_true, beq_iff_eq, beq_iff_eq]

theorem accepts_object_iff {fields : List (Text × Shape)} {v : Json} :
    (Shape.object fields).accepts v = true ↔ ∃ members, v = .obj members ∧
      (∀ key ∈ Fields.keys members, key ∈ Fields.keys fields) ∧
      ∀ f ∈ fields, AcceptsField members f := by
  rw [accepts]
  cases v with
  | obj members => simp [Json.members?, acceptsFields_iff]
  | _ => simp [Json.members?]

theorem accepts_array_iff {element : Shape} {v : Json} :
    (Shape.array element).accepts v = true ↔
      ∃ items, v = .arr items ∧ ∀ item ∈ items, element.accepts item = true := by
  rw [accepts]
  cases v with
  | arr items => simp [Json.items?]
  | _ => simp [Json.items?]

theorem accepts_union_iff {discriminator : Option Text} {variants : List Shape} {v : Json} :
    (Shape.union discriminator variants).accepts v = true ↔
      ∃ s ∈ variants, s.accepts v = true := by
  rw [accepts, acceptsAny_iff]

theorem accepts_unwrap (s : Shape) (v : Json) : s.unwrap.accepts v = s.accepts v := by
  cases s <;> simp [unwrap]

theorem accepts_required (s : Shape) (v : Json) : s.required.accepts v = s.accepts v := by
  fun_induction required s with
  | case1 inner ih => rw [ih, accepts_optional]
  | case2 s _ => rfl

@[simp] theorem accepts_asOptional (s : Shape) (v : Json) :
    s.asOptional.accepts v = s.accepts v := by
  rw [asOptional, accepts_optional, accepts_required]

/-- Induction over trees, with the hypothesis for every property and every variant. -/
@[elab_as_elim]
theorem treeInduction {motive : Shape → Prop} (scalar : ∀ kind, motive (.scalar kind))
    (literal : ∀ value jsonType, motive (.literal value jsonType))
    (optional : ∀ inner, motive inner → motive (.optional inner))
    (object : ∀ fields, (∀ f ∈ fields, motive f.2) → motive (.object fields))
    (array : ∀ element, motive element → motive (.array element))
    (union : ∀ discriminator variants, (∀ s ∈ variants, motive s) →
      motive (.union discriminator variants))
    (foreign : ∀ kind, motive (.foreign kind)) (s : Shape) : motive s := by
  induction size : s.depth using Nat.strong_induction_on generalizing s with
  | _ n ih =>
      subst size
      cases s with
      | scalar kind => exact scalar kind
      | literal value jsonType => exact literal value jsonType
      | optional inner => exact optional inner (ih _ (by simp [depth]) inner rfl)
      | object fields =>
          refine object fields fun f hf => ih _ ?_ f.2 rfl
          have below := depth_le_depthFields (show (f.1, f.2) ∈ fields from hf)
          simp only [depth]
          omega
      | array element => exact array element (ih _ (by simp [depth]) element rfl)
      | union discriminator variants =>
          refine union discriminator variants fun s hs => ih _ ?_ s rfl
          have below := depth_le_depthAll hs
          simp only [depth]
          omega
      | foreign kind => exact foreign kind

theorem isOptional_eq_of_canonical_eq {a b : Shape} (h : a.canonical = b.canonical) :
    a.isOptional = b.isOptional := by
  cases b with
  | optional inner =>
      obtain ⟨_, rfl, _⟩ := canonical_eq_optional_iff.1 h
      rfl
  | _ =>
      cases a with
      | optional inner =>
          obtain ⟨_, impossible, _⟩ := canonical_eq_optional_iff.1 h.symm
          cases impossible
      | _ => rfl

theorem unwrap_canonical_eq {a b : Shape} (h : a.canonical = b.canonical) :
    a.unwrap.canonical = b.unwrap.canonical := by
  cases b with
  | optional inner =>
      obtain ⟨_, rfl, same⟩ := canonical_eq_optional_iff.1 h
      exact same
  | _ =>
      cases a with
      | optional inner =>
          obtain ⟨_, impossible, _⟩ := canonical_eq_optional_iff.1 h.symm
          cases impossible
      | _ => exact h

/-- A shape accepts at least what any other of its form accepts. -/
theorem accepts_of_canonical_eq {a b : Shape} (h : a.canonical = b.canonical) {v : Json}
    (accepted : a.accepts v = true) : b.accepts v = true := by
  induction a using treeInduction generalizing b v with
  | scalar kind =>
      rw [canonical_eq_scalar_iff.1 h.symm]
      exact accepted
  | literal value jsonType =>
      rw [canonical_eq_literal_iff.1 h.symm]
      exact accepted
  | optional inner ih =>
      obtain ⟨other, rfl, same⟩ := canonical_eq_optional_iff.1 h.symm
      rw [accepts_optional] at accepted ⊢
      exact ih same.symm accepted
  | object fields ih =>
      obtain ⟨others, rfl, -⟩ := canonical_eq_object_iff.1 h.symm
      obtain ⟨members, rfl, known, held⟩ := accepts_object_iff.1 accepted
      refine accepts_object_iff.2 ⟨members, rfl, fun key hk => ?_, fun g hg => ?_⟩
      · obtain ⟨f, hf, rfl⟩ := List.mem_map.1 (known key hk)
        obtain ⟨g, hg, sameKey, -⟩ := mem_fields_of_canonical_eq h hf
        exact List.mem_map.2 ⟨g, hg, sameKey.symm⟩
      · obtain ⟨f, hf, sameKey, sameForm⟩ := mem_fields_of_canonical_eq h.symm hg
        obtain ⟨present, absent⟩ := held f hf
        rw [← sameKey] at present absent
        refine ⟨fun value found => ?_, fun missing => ?_⟩
        · exact ih f hf sameForm.symm (present value found)
        · rw [isOptional_eq_of_canonical_eq sameForm]
          exact absent missing
  | array element ih =>
      obtain ⟨other, rfl, same⟩ := canonical_eq_array_iff.1 h.symm
      obtain ⟨items, rfl, held⟩ := accepts_array_iff.1 accepted
      exact accepts_array_iff.2 ⟨items, rfl, fun item hi => ih same.symm (held item hi)⟩
  | union discriminator variants ih =>
      obtain ⟨others, rfl, -⟩ := canonical_eq_union_iff.1 h.symm
      obtain ⟨s, hs, held⟩ := accepts_union_iff.1 accepted
      obtain ⟨t, ht, same⟩ := mem_variants_of_canonical_eq h hs
      exact accepts_union_iff.2 ⟨t, ht, ih s hs same held⟩
  | foreign kind =>
      rw [accepts_foreign] at accepted
      cases accepted

end Shape

end JsonShapes
