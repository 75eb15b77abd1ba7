import JsonShapes.Proofs.SchemaSoundness
import JsonShapes.Proofs.ZodReading

/-!
# What Zod schemas accept of the samples

A Zod schema asks less of a value than the shape that it was written for: objects may hold further
members, and an unknown schema accepts everything. Only at literals it asks for something else,
since it has forgotten their JSON types: it always asks for a string. So the schema accepts the
samples if all literals of the inferred shape are strings, and an array that is told apart by
numbers or booleans is rejected.

The texts of the samples must not hold split pairs, and no weaker condition is enough, since the
schema names the keys with such pairs joined.
-/

namespace JsonShapes

open Emit

namespace Zod

def isOptional : Zod → Bool
  | .optional _ => true
  | _ => false

mutual

/-- Whether a schema accepts a value. -/
def accepts : Zod → Json → Bool
  | .scalar .unknown, _ => true
  | .scalar kind, v => kind.accepts v
  | .literal text, v => v = .str text
  | .optional inner, v => accepts inner v
  | .object members, v =>
    match v.members? with
    | some held => acceptsMembers members held
    | none => false
  | .array element, v =>
    match v.items? with
    | some items => items.all fun item => accepts element item
    | none => false
  | .union _ variants, v => acceptsAny variants v

/-- Whether an object holds what each listed member asks for. -/
def acceptsMembers : List (Text × Zod) → List (Text × Json) → Bool
  | [], _ => true
  | (key, schema) :: rest, held =>
    (match Fields.get? held key with
      | some value => accepts schema value
      | none => schema.isOptional) && acceptsMembers rest held

def acceptsAny : List Zod → Json → Bool
  | [], _ => false
  | schema :: rest, v => accepts schema v || acceptsAny rest v

end

theorem acceptsMembers_iff {members : List (Text × Zod)} {held : List (Text × Json)} :
    acceptsMembers members held = true ↔ ∀ m ∈ members,
      (∀ value, Fields.get? held m.1 = some value → m.2.accepts value = true) ∧
        (Fields.get? held m.1 = none → m.2.isOptional = true) := by
  induction members with
  | nil => simp [acceptsMembers]
  | cons m members ih =>
      obtain ⟨key, schema⟩ := m
      rw [acceptsMembers, Bool.and_eq_true, ih, List.forall_mem_cons]
      refine and_congr_left fun _ => ?_
      cases Fields.get? held key <;> simp

theorem accepts_object_iff {members : List (Text × Zod)} {v : Json} :
    (Zod.object members).accepts v = true ↔ ∃ held, v = .obj held ∧ ∀ m ∈ members,
      (∀ value, Fields.get? held m.1 = some value → m.2.accepts value = true) ∧
        (Fields.get? held m.1 = none → m.2.isOptional = true) := by
  rw [accepts]
  cases v with
  | obj held => simp [Json.members?, acceptsMembers_iff]
  | _ => simp [Json.members?]

theorem accepts_literal_iff {text : Text} {v : Json} :
    (Zod.literal text).accepts v = true ↔ v = .str text := by
  rw [accepts, decide_eq_true_eq]

theorem accepts_array_iff {element : Zod} {v : Json} :
    (Zod.array element).accepts v = true ↔
      ∃ items, v = .arr items ∧ ∀ item ∈ items, element.accepts item = true := by
  rw [accepts]
  cases v with
  | arr items => simp [Json.items?]
  | _ => simp [Json.items?]

theorem accepts_union_iff {discriminator : Option Text} {variants : List Zod} {v : Json} :
    (Zod.union discriminator variants).accepts v = true ↔
      ∃ schema ∈ variants, schema.accepts v = true := by
  rw [accepts]
  induction variants with
  | nil => simp [acceptsAny]
  | cons schema variants ih => simp [acceptsAny, ih]

section

variable {S : Set Text} {text : Text → Text}

theorem isOptional_ofShape (s : Shape) : (ofShape text s).isOptional = s.isOptional := by
  cases s <;> rfl

theorem accepts_ofShape_unwrap (s : Shape) (v : Json) :
    (ofShape text s.unwrap).accepts v = (ofShape text s).accepts v := by
  cases s with
  | optional inner => rw [Shape.unwrap, ofShape, accepts]
  | _ => rfl

/-- Texts without split pairs are what they are read as. -/
theorem ofShape_joined (unsplit : ∀ t ∈ S, t.Unsplit) {s : Shape} (h : s.Within S) :
    ofShape Text.joined s = ofShape id s := by
  have same : ∀ t ∈ S, t.joined = t := fun t ht => Text.joined_of_unsplit (unsplit t ht)
  induction h with
  | scalar kind => rfl
  | literal word typeWord => rw [ofShape, ofShape, same _ word, id]
  | optional within ih => rw [ofShape, ofShape, ih]
  | @object fields words within ih =>
      rw [ofShape, ofShape, ofFields_eq_map, ofFields_eq_map]
      refine congrArg Zod.object (List.map_congr_left fun f hf => ?_)
      rw [ih f hf, same _ (words f hf), id]
  | array within ih => rw [ofShape, ofShape, ih]
  | @union discriminator variants word within ih =>
      have discriminators : discriminator.map Text.joined = discriminator.map id := by
        cases discriminator with
        | none => rfl
        | some field => exact congrArg some (same field (word field rfl))
      rw [ofShape, ofShape, ofAll_eq_map, ofAll_eq_map, discriminators]
      exact congrArg _ (List.map_congr_left ih)

end

/-- The literals that stand for strings. -/
def stringLiterals : Set (Text × Text) := {l | l.2 = "string"}

theorem eq_str_of_literalText {v : Json} {text : Text} (h : v.literalText = some text)
    (type : v.literalType = "string") : v = .str text := by
  cases v with
  | str s =>
      rw [Json.literalText] at h
      split at h
      · cases h
      · cases h
        rfl
  | bool b => exact absurd type (show ("boolean" : Text) ≠ "string" by decide)
  | int n => exact absurd type (show ("number" : Text) ≠ "string" by decide)
  | double x => exact absurd type (show ("number" : Text) ≠ "string" by decide)
  | _ => cases h

/-- What a well-formed shape accepts is accepted by its schema, if its literals are strings. -/
theorem accepts_of_accepts {s : Shape} (h : s.WellFormed stringLiterals) {v : Json}
    (accepted : s.accepts v = true) : (ofShape id s).accepts v = true := by
  induction h generalizing v with
  | scalar kind =>
      rw [Shape.accepts_scalar] at accepted
      cases kind with
      | unknown => rfl
      | _ => exact accepted
  | literal listed =>
      obtain ⟨literal, type⟩ := Shape.accepts_literal_iff.1 accepted
      exact accepts_literal_iff.2 (eq_str_of_literalText literal (type.trans listed))
  | @object fields distinct wellFormed ih =>
      obtain ⟨held, rfl, -, asked⟩ := Shape.accepts_object_iff.1 accepted
      rw [ofShape, ofFields_eq_map]
      refine accepts_object_iff.2 ⟨held, rfl, List.forall_mem_map.mpr fun f hf => ?_⟩
      refine ⟨fun value present => ?_, fun absent => ?_⟩
      · rw [← accepts_ofShape_unwrap]
        apply ih f hf
        rw [Shape.accepts_unwrap]
        exact (asked f hf).1 value present
      · rw [isOptional_ofShape]
        exact (asked f hf).2 absent
  | array wellFormed ih =>
      obtain ⟨items, rfl, held⟩ := Shape.accepts_array_iff.1 accepted
      exact accepts_array_iff.2 ⟨items, rfl, fun item hi => ih (held item hi)⟩
  | untagged several distinct flat wellFormed ih =>
      obtain ⟨s, hs, held⟩ := Shape.accepts_union_iff.1 accepted
      rw [ofShape, ofAll_eq_map]
      exact accepts_union_iff.2 ⟨_, List.mem_map.mpr ⟨s, hs, rfl⟩, ih s hs held⟩
  | tagged several distinct pinned tags wellFormed ih =>
      obtain ⟨s, hs, held⟩ := Shape.accepts_union_iff.1 accepted
      rw [ofShape, ofAll_eq_map]
      exact accepts_union_iff.2 ⟨_, List.mem_map.mpr ⟨s, hs, rfl⟩, ih s hs held⟩

/-- The arrays that the schema accepts hold objects with a string at the given key. -/
def AsksForStrings (schema : Zod) (field : Text) : Prop :=
  ∀ items, schema.accepts (.arr items) = true →
    ∀ item ∈ items, ∃ t, item.get? field = some (.str t)

/-- Whatever tells the variants of a union apart, the schema asks for strings. -/
theorem asksForStrings_tagged {L : Set (Text × Text)} {field : Text} {variants : List Shape}
    (h : (Shape.array (.union (some field) variants)).WellFormed L) :
    (ofShape id (.array (.union (some field) variants))).AsksForStrings field := by
  intro items accepted item listed
  cases h with
  | array wellFormed =>
      cases wellFormed with
      | tagged several distinct pinned tags wellFormed =>
          obtain ⟨_, same, each⟩ := accepts_array_iff.1 accepted
          cases same
          obtain ⟨_, variant, held⟩ := accepts_union_iff.1 (each item listed)
          rw [ofAll_eq_map] at variant
          obtain ⟨s, hs, rfl⟩ := List.mem_map.mp variant
          obtain ⟨text, tag⟩ := Option.isSome_iff_exists.mp (pinned s hs)
          obtain ⟨fields, jsonType, rfl, found, -⟩ := Shape.tag?_eq_some_iff.1 tag
          rw [ofShape, ofFields_eq_map] at held
          obtain ⟨members, rfl, asked⟩ := accepts_object_iff.1 held
          have pin := asked (field, .literal text)
            (List.mem_map.mpr ⟨_, Fields.mem_of_get?_eq_some found, rfl⟩)
          cases present : Fields.get? members field with
          | none => cases pin.2 present
          | some value =>
              rw [accepts_literal_iff.1 (pin.1 value present)] at present
              exact ⟨text, present⟩

end Zod

open Zod

namespace Shape

variable {S : Set Text} {D : Set Binary64}

theorem emit_eq_ok (target : Target) (o : Options) {s : Shape} (h : s.Within S) :
    emit target o s = .ok (write target.grammar o 0 s) := by
  rw [emit, check, h.foreign?_eq_none]

theorem read_of_emit {o : Options} (blank : o.Blank) {s : Shape} (h : s.Within S) {text : Text}
    (eq : emit .zod o s = .ok text) : Zod.read text = some (Zod.ofShape Text.joined s) := by
  rw [emit_eq_ok .zod o h] at eq
  cases eq
  exact read_write blank h

/-- A shape is inferred from samples, and its schema can be written and read again. -/
theorem exists_schema {o : Options} (blank : o.Blank) {samples : List Json}
    (nonempty : samples ≠ []) (within : ∀ v ∈ samples, v.Within S D) :
    ∃ shape text, inferSamples samples = .ok shape ∧ emit .zod o shape = .ok text ∧
      Zod.read text = some (Zod.ofShape Text.joined shape) ∧
      shape.Within (S ∪ {t | t.IsPlain}) := by
  obtain ⟨rows, rfl, -, shapes, eq⟩ := exists_inferSamples nonempty within
  have inside := Within.mergeAll shapes
  have written := emit_eq_ok .zod o inside
  exact ⟨_, _, eq, written, read_of_emit blank inside written, inside⟩

/-- Samples over the given texts, whose doubles are finite, are accepted by the schema that is
written for the shape inferred from them, if all literals of the shape are strings. -/
def EmitsZodSoundly (S : Set Text) : Prop :=
  ∀ (o : Options) (samples : List Json), o.Blank → samples ≠ [] →
    (∀ v ∈ samples, v.Within S finiteDoubles) →
    ∃ shape text schema, inferSamples samples = .ok shape ∧ emit .zod o shape = .ok text ∧
      Zod.read text = some schema ∧
      (shape.WellFormed stringLiterals → ∀ v ∈ samples, schema.accepts v = true)

theorem unsplit_union_plain (unsplit : ∀ t ∈ S, t.Unsplit) :
    ∀ t ∈ S ∪ {t | t.IsPlain}, t.Unsplit := by
  rintro t (ht | plain)
  · exact unsplit t ht
  · exact Text.unsplit_of_isPlain plain

theorem emitsZodSoundly_of_unsplit (unsplit : ∀ t ∈ S, t.Unsplit) : EmitsZodSoundly S := by
  intro o samples blank nonempty within
  obtain ⟨shape, text, eq, written, read, inside⟩ := exists_schema blank nonempty within
  obtain ⟨_, inferred, accepted⟩ :=
    infersSoundly_of_injOn (Quoted.injOn_write_of_unsplit unsplit) samples nonempty within
  rw [eq] at inferred
  cases inferred
  rw [ofShape_joined (unsplit_union_plain unsplit) inside] at read
  exact ⟨shape, text, _, eq, written, read,
    fun strings v hv => accepts_of_accepts strings (accepted v hv)⟩

/-- The schema for arrays of records asks each of them for the key. -/
theorem eq_of_accepts_arraysOf {key other : Text}
    (h : (Zod.ofShape Text.joined (arraysOf key)).accepts (.arrayOf other) = true) :
    key.joined = other := by
  obtain ⟨_, same, each⟩ := Zod.accepts_array_iff.1 h
  cases same
  obtain ⟨_, same, asked⟩ := Zod.accepts_object_iff.1 (each _ List.mem_cons_self)
  cases same
  have member := (asked (key.joined, .scalar .null) List.mem_cons_self).2
  by_contra differ
  rw [Fields.get?_cons, if_neg (Ne.symm differ)] at member
  cases member rfl

theorem wellFormed_arraysOf (key : Text) (L : Set (Text × Text)) : (arraysOf key).WellFormed L := by
  refine .array (.object (List.nodup_singleton key) ?_)
  exact List.forall_mem_singleton.mpr (.scalar .null)

/-- Zod schemas are sound for literals that are strings over exactly the sets of texts without split
pairs. Over these, an array with a tagged element type is never accepted if something else than a
string discriminates its elements. -/
theorem emitsZodSoundly_iff_unsplit (S : Set Text) :
    (EmitsZodSoundly S ↔ ∀ t ∈ S, t.Unsplit) ∧
      ((∀ t ∈ S, t.Unsplit) → ∀ (o : Options) (samples : List Json), o.Blank → samples ≠ [] →
        (∀ v ∈ samples, v.Within S finiteDoubles) → ∀ field variants,
        inferSamples samples = .ok (.array (.union (some field) variants)) →
        ∃ text schema, emit .zod o (.array (.union (some field) variants)) = .ok text ∧
          Zod.read text = some schema ∧ schema.AsksForStrings field) := by
  refine ⟨⟨fun sound t ht => ?_, emitsZodSoundly_of_unsplit⟩, fun unsplit => ?_⟩
  · have blank : Options.Blank {} := .inr (by decide)
    obtain ⟨shape, text, schema, eq, written, read, accepted⟩ :=
      sound {} [.arrayOf t, .arrayOf t] blank (by simp) (by simpa using within_arrayOf ht)
    rw [inferSamples_arraysOf rfl] at eq
    cases eq
    rw [read_of_emit blank (Within.arraysOf ht) written] at read
    cases read
    exact Text.unsplit_of_joined_eq (eq_of_accepts_arraysOf
      (accepted (wellFormed_arraysOf t stringLiterals) (.arrayOf t) List.mem_cons_self))
  · intro o samples blank nonempty within field variants eq
    obtain ⟨shape, text, inferred, written, read, inside⟩ := exists_schema blank nonempty within
    rw [eq] at inferred
    cases inferred
    rw [ofShape_joined (unsplit_union_plain unsplit) inside] at read
    have wellFormed := wellFormed_of_inferSamples (N := .univ) nonempty within
      (fun v _ w _ _ => trivial) eq
    exact ⟨text, _, written, read, asksForStrings_tagged wellFormed⟩

-- an array that is told apart by strings is accepted
example :
    let array : Json := .arr [.obj [("code", .str "1"), ("a", .str "x")],
      .obj [("code", .str "2"), ("b", .bool true)]]
    ((inferSamples [array]).toOption.bind fun shape =>
      (emit .zod {} shape).toOption.bind Zod.read).map (·.accepts array) = some true := by
  decide +kernel

/-- An array that is told apart by numbers is rejected by the schema that is made of it. -/
theorem emit_numberTags_rejects :
    let array : Json := .arr [.obj [("code", .int 1), ("a", .str "x")],
      .obj [("code", .int 2), ("b", .bool true)]]
    let shape : Shape := .array (.union (some "code")
      [.object [("code", .literal "1" "number"), ("a", .string)],
        .object [("code", .literal "2" "number"), ("b", .boolean)]])
    inferSamples [array] = .ok shape ∧
      ((emit .zod {} shape).toOption.bind Zod.read).map (·.accepts array) = some false :=
  ⟨by decide +kernel, by decide +kernel⟩

end Shape

end JsonShapes
