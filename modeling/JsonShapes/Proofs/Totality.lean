import JsonShapes.Markdown
import JsonShapes.Proofs.Decoding
import JsonShapes.Proofs.Reordering
import JsonShapes.Proofs.TextClasses
import JsonShapes.Proofs.ZodSoundness

/-!
# Nothing fails on the values of documents

From values that were read from documents a shape is inferred without a fault, and everything that
is made of the shape can be made: its canonical text, which is ASCII, the modules in both languages,
a schema that is again a value as documents hold it, and the table of fields. What could go wrong is
ruled out where it is looked for: records are merged with records only, a discriminator is found in
every element, keys do not repeat, and literals other than strings read as JSON.
-/

namespace JsonShapes

/-- All code points of the text are bytes below 128. -/
def Text.IsAscii (t : Text) : Prop := ∀ c ∈ t, c.val < 0x80

instance (t : Text) : Decidable t.IsAscii :=
  inferInstanceAs (Decidable (∀ c ∈ t, c.val < 0x80))

theorem Text.closed_isAscii : Closed IsAscii :=
  closed_forall fun _ plain => plain.2.1.trans (by decide)

namespace Quoted

theorem isAscii_unicodeEscape (n : Nat) : (unicodeEscape n).IsAscii := by
  have mark : Text.IsAscii ['\\', 'u'] := by decide
  have digits : (Text.hex 4 n).IsAscii := by
    intro c hc
    have range := Text.val_of_mem_hex hc
    omega
  exact Text.closed_isAscii.append mark digits

theorem isAscii_escape (c : CodePoint) : (escape .ascii c).IsAscii := by
  have itself : c.val < 0x7F → Text.IsAscii [c] := by
    intro small
    rw [Text.IsAscii, List.forall_mem_singleton]
    omega
  unfold escape
  refine iteInduction (fun _ => by decide) fun _ => ?_
  refine iteInduction (fun _ => by decide) fun _ => ?_
  refine iteInduction (fun _ => by decide) fun _ => ?_
  refine iteInduction (fun _ => by decide) fun _ => ?_
  refine iteInduction (fun _ => by decide) fun _ => ?_
  refine iteInduction (fun _ => by decide) fun _ => ?_
  refine iteInduction (fun _ => by decide) fun _ => ?_
  refine iteInduction (fun _ => isAscii_unicodeEscape _) fun _ => ?_
  refine iteInduction itself fun _ => ?_
  refine iteInduction (fun _ => isAscii_unicodeEscape _) fun _ => ?_
  exact Text.closed_isAscii.append (isAscii_unicodeEscape _) (isAscii_unicodeEscape _)

theorem isAscii_write (t : Text) : (write .ascii t).IsAscii := by
  have quote : Text.IsAscii "\"" := by decide
  have inside := Text.closed_isAscii.flatMap (l := t) fun c _ => isAscii_escape c
  exact Text.closed_isAscii.append (Text.closed_isAscii.append quote inside) quote

end Quoted

/-- A document on one line with everything escaped is ASCII. -/
theorem Json.isAscii_print_spaced (j : Json) : (j.print .spaced).IsAscii := by
  have keeps : Layout.spaced.Keeps Text.IsAscii :=
    ⟨by decide, by decide, fun _ => Text.closed_isAscii.nil, Quoted.isAscii_write⟩
  exact closed_printBefore Text.closed_isAscii keeps 0 Text.closed_isAscii.nil j

theorem Shape.isAscii_canonicalText (s : Shape) : s.canonicalText.IsAscii :=
  Json.isAscii_print_spaced _

namespace Schema

/-- The keywords that describe values. -/
def vocabulary : List Text :=
  ["type", "const", "properties", "required", "items", "oneOf", "anyOf", "discriminator"]

/-- A schema that can be part of a document. -/
def Describes (schema : Json) : Prop :=
  ∃ keywords, schema = .obj keywords ∧ Fields.keys keywords ⊆ vocabulary ∧ schema.Decodable

open Json

/-- The constant of a literal is a string, or what its text is read as. -/
theorem exists_const_of_ofLiteral {value jsonType : Text} {schema : Json}
    (h : ofLiteral value jsonType = .ok schema) :
    ∃ const, schema = typed jsonType [("const", const)] ∧
      (jsonType = "string" ∧ const = .str value ∨
        jsonType ≠ "string" ∧ Json.parse value = .ok const) := by
  unfold ofLiteral at h
  split at h
  · next string =>
      cases h
      exact ⟨_, rfl, .inl ⟨string, rfl⟩⟩
  · next other =>
      split at h
      · next read =>
          cases h
          exact ⟨_, rfl, .inr ⟨other, read⟩⟩
      · cases h

theorem describes_obj {keywords : List (Text × Json)} (names : List Text)
    (same : Fields.keys keywords = names) (known : names ⊆ vocabulary) (distinct : names.Nodup)
    (decodable : ∀ k ∈ keywords, k.2.Decodable) : Describes (.obj keywords) :=
  ⟨keywords, rfl, same ▸ known, .obj (same ▸ distinct) decodable⟩

theorem describes_ofScalar (kind : Scalar) : Describes (ofScalar kind) := by
  cases kind with
  | unknown => exact describes_obj [] rfl (by decide) (by decide) (by simp)
  | _ => exact describes_obj ["type"] rfl (by decide) (by decide) (by simpa using .str _)

theorem describes_ofRecord {fields : List (Text × Shape)} {properties : List (Text × Json)}
    (distinct : (Fields.keys properties).Nodup) (decodable : ∀ p ∈ properties, p.2.Decodable) :
    Describes (ofRecord fields properties) := by
  have record : (Json.obj properties).Decodable := .obj distinct decodable
  simp only [ofRecord, typed]
  split
  · exact describes_obj ["type", "properties"] rfl (by decide) (by decide)
      (by simpa using ⟨.str _, record⟩)
  · have required : (Json.arr ((requiredKeys fields).map Json.str)).Decodable :=
      .arr (List.forall_mem_map.mpr fun key _ => .str key)
    exact describes_obj ["type", "properties", "required"] rfl (by decide) (by decide)
      (by simpa using ⟨.str _, record, required⟩)

theorem describes_ofUnion (discriminator : Option Text) {schemas : List Json}
    (decodable : ∀ schema ∈ schemas, schema.Decodable) :
    Describes (ofUnion discriminator schemas) := by
  have choices : (Json.arr schemas).Decodable := .arr decodable
  cases discriminator with
  | none =>
      exact describes_obj ["anyOf"] rfl (by decide) (by decide) (by simpa using choices)
  | some field =>
      have annotation : (Json.obj [("propertyName", .str field)]).Decodable :=
        .obj (List.nodup_singleton _) (by simpa using .str field)
      exact describes_obj ["oneOf", "discriminator"] rfl (by decide) (by decide)
        (by simpa using ⟨choices, annotation⟩)

theorem keys_eq_of_fragmentFields {fields : List (Text × Shape)} {properties : List (Text × Json)}
    (h : fragmentFields fields = .ok properties) : Fields.keys fields = Fields.keys properties := by
  rw [← List.forall₂_eq_eq_eq, Fields.keys, Fields.keys, List.forall₂_map_left_iff,
    List.forall₂_map_right_iff]
  exact (fragmentFields_iff.1 h).imp fun _ _ h => h.1.symm

/-- The schema of a shape that repeats no key. -/
theorem describes_of_fragment {s : Shape} (h : s.DistinctKeys) {schema : Json}
    (eq : fragment s = .ok schema) : Describes schema := by
  induction h generalizing schema with
  | scalar kind =>
      cases eq
      exact describes_ofScalar kind
  | literal value jsonType =>
      obtain ⟨const, rfl, origin⟩ := exists_const_of_ofLiteral eq
      have decodable : const.Decodable := by
        obtain ⟨-, rfl⟩ | ⟨-, read⟩ := origin
        · exact .str value
        · exact decodable_of_parse read
      exact describes_obj ["type", "const"] rfl (by decide) (by decide)
        (by simpa using ⟨.str _, decodable⟩)
  | optional below ih => exact ih eq
  | @object fields distinct below ih =>
      obtain ⟨properties, eqs, rfl⟩ := fragment_object_iff.1 eq
      have each := fragmentFields_iff.1 eqs
      refine describes_ofRecord (keys_eq_of_fragmentFields eqs ▸ distinct) ?_
      intro p hp
      obtain ⟨f, hf, -, here⟩ := exists_of_forall₂ each.flip hp
      obtain ⟨-, -, -, decodable⟩ := ih f hf here
      exact decodable
  | array below ih =>
      obtain ⟨items, here, rfl⟩ := fragment_array_iff.1 eq
      obtain ⟨-, -, -, decodable⟩ := ih here
      exact describes_obj ["type", "items"] rfl (by decide) (by decide)
        (by simpa using ⟨.str _, decodable⟩)
  | union below ih =>
      obtain ⟨schemas, eqs, rfl⟩ := fragment_union_iff.1 eq
      refine describes_ofUnion _ fun schema listed => ?_
      obtain ⟨s, hs, here⟩ := exists_of_forall₂ (fragmentAll_iff.1 eqs).flip listed
      obtain ⟨-, -, -, decodable⟩ := ih s hs here
      exact decodable
  | foreign kind => cases eq

theorem Describes.decodable_document {schema : Json} (h : Describes schema) (title : Text) :
    (document title schema).Decodable := by
  obtain ⟨keywords, rfl, known, decodable⟩ := h
  have fresh : ∀ name ∉ vocabulary, name ∉ Fields.keys keywords :=
    fun name unknown listed => unknown (known listed)
  cases decodable with
  | obj distinct decodable =>
      simp only [document, Json.members?, Option.getD_some]
      split
      · refine .obj ?_ ?_
        · exact List.nodup_cons.mpr ⟨fresh "$schema" (by decide), distinct⟩
        · exact List.forall_mem_cons.mpr ⟨.str draft, decodable⟩
      · refine .obj ?_ ?_
        · refine List.nodup_cons.mpr ⟨?_, List.nodup_cons.mpr ⟨fresh "title" (by decide), distinct⟩⟩
          have differ : Text.ofString "$schema" ≠ "title" := by decide
          exact List.not_mem_cons_of_ne_of_not_mem differ (fresh "$schema" (by decide))
        · exact List.forall_mem_cons.mpr
            ⟨.str draft, List.forall_mem_cons.mpr ⟨.str title, decodable⟩⟩

end Schema

namespace Markdown

/-- The row of a property whose type can be written. -/
def fieldRow (f : Text × Shape) : FieldRow :=
  ⟨f.1.escapeSurrogates, Emit.write Emit.typescript { minify := true } 0 f.2.unwrap,
    !f.2.isOptional⟩

/-- Every property of a shape without foreign leaves has a row. -/
theorem rows_eq_ok {S : Set Text} {fields : List (Text × Shape)}
    (within : ∀ f ∈ fields, f.2.Within S) : rows fields = .ok (fields.map fieldRow) := by
  induction fields with
  | nil => rfl
  | cons f fields ih =>
      rw [List.forall_mem_cons] at within
      have written := Shape.emit_eq_ok .typescript { minify := true } within.1.unwrap
      rw [rows, ih within.2, written]
      rfl

theorem describeFields_eq_ok {S : Set Text} {s : Shape} (h : s.Within S) :
    describeFields s = .ok ((s.fields?.getD []).map fieldRow) := by
  apply rows_eq_ok
  cases h with
  | object words within => exact within
  | _ => simp [Shape.fields?]

theorem exists_describeFields {S : Set Text} {s : Shape} (h : s.Within S) :
    ∃ table, describeFields s = .ok table :=
  ⟨_, describeFields_eq_ok h⟩

/-- All that the page says of an endpoint whose type can be written. -/
def entry (indent : Text) (e : Endpoint) : Text :=
  heading e ++ table ((e.shape.fields?.getD []).map fieldRow) ++
    codeBlock e.typeName (Emit.write Emit.typescript { indent := indent } 0 e.shape)

theorem endpointText_eq_ok {S : Set Text} (indent : Text) {e : Endpoint} (h : e.shape.Within S) :
    endpointText indent e = .ok (entry indent e) := by
  have declared := Shape.emit_eq_ok .typescript { indent := indent } h
  rw [endpointText, declared, describeFields_eq_ok h]
  rfl

theorem sections_eq_ok {S : Set Text} (indent : Text) {endpoints : List Endpoint}
    (within : ∀ e ∈ endpoints, e.shape.Within S) :
    sections indent endpoints = .ok (endpoints.flatMap (entry indent)) := by
  induction endpoints with
  | nil => rfl
  | cons e endpoints ih =>
      rw [List.forall_mem_cons] at within
      rw [sections, endpointText_eq_ok indent within.1, ih within.2]
      rfl

end Markdown

namespace Shape

open Emit Json

/-- The literals whose text stands for a value: all texts as strings, and the others as JSON. -/
def readableLiterals : Set (Text × Text) :=
  {l | l.2 = "string" ∨ ∃ w, Json.parse l.1 = .ok w}

theorem literalsOver_numerals_subset : literalsOver numerals ⊆ readableLiterals := by
  rintro ⟨text, type⟩ ⟨w, readable, literal, rfl⟩
  have eq := ofLiteral_eq readable literal
  unfold Schema.ofLiteral at eq
  split at eq
  · next string => exact .inl string
  · split at eq
    · next w parsed => exact .inr ⟨w, parsed⟩
    · cases eq

theorem exists_explainSamples {samples : List Json} {shape : Shape}
    (h : inferSamples samples = .ok shape) :
    ∃ decisions, explainSamples samples = .ok (shape, decisions) := by
  rw [← map_fst_explainSamples] at h
  cases explained : explainSamples samples with
  | error e =>
      rw [explained] at h
      cases h
  | ok pair =>
      rw [explained] at h
      cases h
      exact ⟨pair.2, rfl⟩

theorem exists_emitModule {S : Set Text} {s : Shape} (h : s.Within S) (target : Target)
    (o : Options) (name : Text) : ∃ text, emitModule target o name s = .ok text := by
  rw [emitModule, emit_eq_ok target o h]
  exact ⟨_, rfl⟩

theorem DistinctKeys.of_unwrap {s : Shape} (h : s.unwrap.DistinctKeys) : s.DistinctKeys := by
  cases s with
  | optional inner => exact .optional h
  | _ => exact h

theorem WellFormed.distinctKeys {L : Set (Text × Text)} {s : Shape} (h : s.WellFormed L) :
    s.DistinctKeys := by
  induction h with
  | scalar kind => exact .scalar kind
  | literal listed => exact .literal _ _
  | object distinct wellFormed ih => exact .object distinct fun f hf => (ih f hf).of_unwrap
  | array wellFormed ih => exact .array ih
  | untagged several distinct flat wellFormed ih => exact .union ih
  | tagged several distinct pinned apart wellFormed ih => exact .union ih

theorem exists_ofShape {s : Shape} (h : s.WellFormed (literalsOver numerals)) (title : Text) :
    ∃ schema, Schema.ofShape title s = .ok schema ∧ schema.Decodable := by
  obtain ⟨keywords, fragment⟩ := Schema.exists_fragment (Set.Subset.refl numerals) h
  have describes := Schema.describes_of_fragment h.distinctKeys fragment
  refine ⟨_, ?_, describes.decodable_document title⟩
  rw [Schema.ofShape, fragment]
  rfl

/-- Values that were read from documents have a shape, and all that is made of it can be made. -/
theorem exists_outputs_of_parse (samples : List Json) (nonempty : samples ≠ [])
    (parsed : ∀ v ∈ samples, ∃ document, Json.parse document = .ok v) :
    ∃ shape decisions, inferSamples samples = .ok shape ∧
      explainSamples samples = .ok (shape, decisions) ∧ shape.WellFormed readableLiterals ∧
      (∃ text, shape.canonicalText? = .ok text ∧ text.IsAscii) ∧
      (∀ target o, ∃ text, emit target o shape = .ok text) ∧
      (∀ target o name, ∃ text, emitModule target o name shape = .ok text) ∧
      (∀ title, ∃ schema, Schema.ofShape title shape = .ok schema ∧ schema.Decodable) ∧
      ∃ table, Markdown.describeFields shape = .ok table := by
  have decodable : ∀ v ∈ samples, v.Decodable := by
    intro v hv
    obtain ⟨document, eq⟩ := parsed v hv
    exact decodable_of_parse eq
  obtain ⟨shape, inferred, wellFormed⟩ :=
    exists_wellFormed_inferSamples nonempty fun v hv => (decodable v hv).within
  obtain ⟨decisions, explained⟩ := exists_explainSamples inferred
  have numeral : shape.WellFormed (literalsOver numerals) :=
    wellFormed _ fun v hv => (decodable v hv).literals_subset
  have readable : shape.WellFormed readableLiterals := wellFormed _ fun v hv =>
    (decodable v hv).literals_subset.trans literalsOver_numerals_subset
  have within := readable.within
  refine ⟨shape, decisions, inferred, explained, readable, ?_, ?_, ?_, ?_, ?_⟩
  · exact ⟨_, canonicalText?_eq_ok within.foreign?_eq_none, isAscii_canonicalText shape⟩
  · intro target o
    exact ⟨_, emit_eq_ok target o within⟩
  · intro target o name
    exact exists_emitModule within target o name
  · intro title
    exact exists_ofShape numeral title
  · exact Markdown.exists_describeFields within

/-- A document with a number that is not finite, a lone surrogate and tags of two types. -/
theorem exists_outputs_tagged :
    let v : Json := .arr [.obj [("t", .int 1), ([CodePoint.ofNat 0xD800], .double .nan)],
      .obj [("t", .bool true)]]
    (∃ document, Json.parse document = .ok v) ∧
      ∃ shape schema, inferSamples [v] = .ok shape ∧
        Schema.ofShape "Answer" shape = .ok schema := by
  intro v
  have read : Json.parse "[\x7b\"t\":1,\"\\ud800\":NaN\x7d,\x7b\"t\":true\x7d]" = .ok v := by
    decide +kernel
  obtain ⟨shape, -, inferred, -, -, -, -, -, schemas, -⟩ := exists_outputs_of_parse [v]
    (List.cons_ne_nil _ _) (List.forall_mem_singleton.mpr ⟨_, read⟩)
  obtain ⟨schema, eq, -⟩ := schemas "Answer"
  exact ⟨⟨_, read⟩, shape, schema, inferred, eq⟩

end Shape

end JsonShapes
