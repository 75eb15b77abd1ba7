import JsonShapes.Proofs.PrintedDocuments
import JsonShapes.Proofs.Totality

/-!
# The text of a schema stands for the schema

A schema document is read back from its text, minified or indented by any white space, with the
order of its keys. All that can be lost are split surrogate pairs, which the text no longer tells
from the code points that they stand for. It takes more than the strings of the shape to rule them
out: the constant of a literal is what its text is read as, and a high surrogate that is escaped in
that text may meet a low one that is not.
-/

namespace JsonShapes

/-- Minified, or indented by what counts as white space in JSON. -/
def Emit.Options.Spaced (o : Options) : Prop :=
  o.minify = true ∨ ∀ c ∈ o.indent, Json.isSpace c = true

namespace Shape

/-- The texts that the schema of a shape is made of are among the given ones. A literal that is not
a string contributes the value that its text is read as. -/
inductive SchemaTexts (S : Set Text) : Shape → Prop
  | scalar (kind : Scalar) : SchemaTexts S (.scalar kind)
  | string {value : Text} (word : value ∈ S) : SchemaTexts S (.literal value "string")
  | const {value jsonType : Text} {v : Json} (other : jsonType ≠ "string") (typeWord : jsonType ∈ S)
      (read : Json.parse value = .ok v) (within : v.Within S .univ) :
      SchemaTexts S (.literal value jsonType)
  | optional {inner : Shape} (below : SchemaTexts S inner) : SchemaTexts S (.optional inner)
  | object {fields : List (Text × Shape)} (words : ∀ f ∈ fields, f.1 ∈ S)
      (below : ∀ f ∈ fields, SchemaTexts S f.2) : SchemaTexts S (.object fields)
  | array {element : Shape} (below : SchemaTexts S element) : SchemaTexts S (.array element)
  | union {discriminator : Option Text} {variants : List Shape}
      (word : ∀ d, discriminator = some d → d ∈ S) (below : ∀ s ∈ variants, SchemaTexts S s) :
      SchemaTexts S (.union discriminator variants)

end Shape

namespace Json

variable {S : Set Text} {D : Set Binary64}

theorem within_str_iff {s : Text} : (Json.str s).Within S D ↔ s ∈ S := by
  constructor
  · intro h
    cases h with
    | str word => exact word
  · exact .str

theorem within_arr_iff {items : List Json} :
    (Json.arr items).Within S D ↔ ∀ item ∈ items, item.Within S D := by
  constructor
  · intro h
    cases h with
    | arr within => exact within
  · exact .arr

theorem within_obj_iff {members : List (Text × Json)} :
    (Json.obj members).Within S D ↔
      (Fields.keys members).Nodup ∧ ∀ m ∈ members, m.1 ∈ S ∧ m.2.Within S D := by
  constructor
  · intro h
    cases h with
    | obj distinct words within => exact ⟨distinct, fun m hm => ⟨words m hm, within m hm⟩⟩
  · rintro ⟨distinct, each⟩
    exact .obj distinct (fun m hm => (each m hm).1) fun m hm => (each m hm).2

end Json

namespace Schema

open Json

section

variable {S : Set Text} (plain : ∀ t : Text, t.IsPlain → t ∈ S)

include plain

theorem within_typed_iff {name : Text} {key : Text} (word : key.IsPlain) (other : key ≠ "type")
    {value : Json} :
    (typed name [(key, value)]).Within S .univ ↔ name ∈ S ∧ value.Within S .univ := by
  have type : Text.ofString "type" ∈ S := plain _ (by decide)
  have distinct : ¬Text.ofString "type" = key := fun same => other same.symm
  simp [typed, within_obj_iff, within_str_iff, Fields.keys, type, plain key word, distinct]

theorem within_ofScalar (kind : Scalar) : (ofScalar kind).Within S .univ := by
  have type : Text.ofString "type" ∈ S := plain _ (by decide)
  have name : kind.name ∈ S := plain _ (Shape.isPlain_name kind)
  cases kind with
  | unknown => exact .obj List.nodup_nil nofun nofun
  | _ => simpa [ofScalar, typed, within_obj_iff, within_str_iff, Fields.keys, type] using name

/-- The required keys are keys of properties, so that they bring in nothing new. -/
theorem within_ofRecord_iff {fields : List (Text × Shape)} {properties : List (Text × Json)}
    (same : Fields.keys fields = Fields.keys properties) :
    (ofRecord fields properties).Within S .univ ↔ (Json.obj properties).Within S .univ := by
  have type : Text.ofString "type" ∈ S := plain _ (by decide)
  have name : Text.ofString "object" ∈ S := plain _ (by decide)
  have keywords : Text.ofString "properties" ∈ S ∧ Text.ofString "required" ∈ S :=
    ⟨plain _ (by decide), plain _ (by decide)⟩
  have distinct : ¬Text.ofString "type" = "properties" ∧ ¬Text.ofString "type" = "required" ∧
      ¬Text.ofString "properties" = "required" := by decide
  have required : (Json.obj properties).Within S .univ →
      ∀ key ∈ requiredKeys fields, key ∈ S := by
    intro h key listed
    obtain ⟨f, hf, rfl⟩ := List.mem_map.1 listed
    have known : f.1 ∈ Fields.keys properties :=
      same ▸ List.mem_map.2 ⟨f, (List.mem_filter.1 hf).1, rfl⟩
    obtain ⟨p, hp, key⟩ := List.mem_map.1 known
    exact key ▸ ((within_obj_iff.1 h).2 p hp).1
  rw [ofRecord]
  generalize Json.obj properties = record at required ⊢
  split
  · simp [typed, within_obj_iff, within_str_iff, Fields.keys, type, name, keywords, distinct]
  · simpa [typed, within_obj_iff, within_arr_iff, within_str_iff, Fields.keys, type, name,
      keywords, distinct] using required

theorem within_ofUnion_iff {discriminator : Option Text} {schemas : List Json} :
    (ofUnion discriminator schemas).Within S .univ ↔
      (∀ d, discriminator = some d → d ∈ S) ∧ ∀ schema ∈ schemas, schema.Within S .univ := by
  have keywords : Text.ofString "anyOf" ∈ S ∧ Text.ofString "oneOf" ∈ S ∧
      Text.ofString "discriminator" ∈ S ∧ Text.ofString "propertyName" ∈ S :=
    ⟨plain _ (by decide), plain _ (by decide), plain _ (by decide), plain _ (by decide)⟩
  have distinct : ¬Text.ofString "oneOf" = "discriminator" := by decide
  cases discriminator with
  | none => simp [ofUnion, within_obj_iff, within_arr_iff, Fields.keys, keywords]
  | some field =>
      simp [ofUnion, within_obj_iff, within_arr_iff, within_str_iff, Fields.keys, keywords,
        distinct, and_comm]

theorem within_document_iff (title : Text) {schema : Json} (h : Describes schema) :
    (document title schema).Within S .univ ↔ title ∈ S ∧ schema.Within S .univ := by
  have keywords : Text.ofString "$schema" ∈ S ∧ Text.ofString "title" ∈ S :=
    ⟨plain _ (by decide), plain _ (by decide)⟩
  have known : (Json.str draft).Within S .univ := .str (plain _ (by decide))
  have whole := (h.decodable_document title).within
  obtain ⟨members, rfl, -, decodable⟩ := h
  have keys := (within_obj_iff.1 decodable.within).1
  rw [document, within_obj_iff] at whole ⊢
  rw [within_obj_iff, List.forall_mem_cons, List.forall_mem_append]
  simp only [whole.1, keys, keywords, known, true_and]
  refine and_congr_left fun _ => ?_
  split
  · next empty =>
      rw [List.isEmpty_iff.1 empty]
      exact iff_of_true (List.forall_mem_nil _) (plain _ (List.forall_mem_nil _))
  · rw [List.forall_mem_singleton, within_str_iff, and_iff_right keywords.2]

/-- The texts of a schema are those that its shape contributes. -/
theorem within_fragment_iff {s : Shape} (distinct : s.DistinctKeys) {schema : Json}
    (eq : fragment s = .ok schema) : schema.Within S .univ ↔ s.SchemaTexts S := by
  induction distinct generalizing schema with
  | scalar kind =>
      cases eq
      exact iff_of_true (within_ofScalar plain kind) (.scalar kind)
  | literal value jsonType =>
      obtain ⟨const, rfl, origin⟩ := exists_const_of_ofLiteral eq
      rw [within_typed_iff plain (by decide) (by decide)]
      obtain ⟨rfl, rfl⟩ | ⟨other, read⟩ := origin
      · rw [within_str_iff]
        constructor
        · rintro ⟨-, word⟩
          exact .string word
        · intro h
          cases h with
          | string word => exact ⟨plain _ (by decide), word⟩
          | const other => exact absurd rfl other
      · constructor
        · rintro ⟨typeWord, within⟩
          exact .const other typeWord read within
        · intro h
          cases h with
          | string => exact absurd rfl other
          | const _ typeWord found within =>
              rw [read] at found
              cases found
              exact ⟨typeWord, within⟩
  | optional below ih =>
      rw [ih eq]
      constructor
      · exact .optional
      · intro h
        cases h with
        | optional below => exact below
  | @object fields distinct below ih =>
      obtain ⟨properties, eqs, rfl⟩ := fragment_object_iff.1 eq
      have each := fragmentFields_iff.1 eqs
      have keys := keys_eq_of_fragmentFields eqs
      rw [within_ofRecord_iff plain keys, within_obj_iff, ← keys]
      constructor
      · rintro ⟨-, within⟩
        refine .object (fun f hf => ?_) fun f hf => ?_
        · obtain ⟨p, hp, same, here⟩ := exists_of_forall₂ each hf
          exact same ▸ (within p hp).1
        · obtain ⟨p, hp, same, here⟩ := exists_of_forall₂ each hf
          exact (ih f hf here).1 (within p hp).2
      · intro h
        cases h with
        | object words texts =>
            refine ⟨distinct, fun p hp => ?_⟩
            obtain ⟨f, hf, same, here⟩ := exists_of_forall₂ each.flip hp
            exact ⟨same ▸ words f hf, (ih f hf here).2 (texts f hf)⟩
  | array below ih =>
      obtain ⟨items, here, rfl⟩ := fragment_array_iff.1 eq
      rw [within_typed_iff plain (by decide) (by decide), ih here]
      constructor
      · rintro ⟨-, texts⟩
        exact .array texts
      · intro h
        cases h with
        | array texts => exact ⟨plain _ (by decide), texts⟩
  | union below ih =>
      obtain ⟨schemas, eqs, rfl⟩ := fragment_union_iff.1 eq
      have each := fragmentAll_iff.1 eqs
      rw [within_ofUnion_iff plain]
      constructor
      · rintro ⟨word, within⟩
        refine .union word fun s hs => ?_
        obtain ⟨schema, listed, here⟩ := exists_of_forall₂ each hs
        exact (ih s hs here).1 (within schema listed)
      · intro h
        cases h with
        | union word texts =>
            refine ⟨word, fun schema listed => ?_⟩
            obtain ⟨s, hs, here⟩ := exists_of_forall₂ each.flip listed
            exact (ih s hs here).2 (texts s hs)
  | foreign kind => cases eq

end

theorem blank_layout {o : Emit.Options} (h : o.Spaced) :
    (if o.minify then Layout.compact else .indented o.indent).Blank := by
  split
  · exact Layout.blank_compact
  · next lines => exact Layout.blank_indented (h.resolve_left lines)

/-- A schema document is read the same from each of its texts, and it is the schema if and only if
no pair of surrogates is split in the title and in the texts that the shape contributes. -/
theorem exists_parse_dump_eq_iff_unsplit {s : Shape} (distinct : s.DistinctKeys) {title : Text}
    {schema : Json} (eq : ofShape title s = .ok schema) :
    ∃ document, (∀ o : Emit.Options, o.Spaced → Json.parse (dump o schema) = .ok document) ∧
      (document = schema ↔ title.Unsplit ∧ s.SchemaTexts {t | t.Unsplit}) := by
  rw [ofShape, bind_pure_eq_ok_iff] at eq
  obtain ⟨fragment, here, rfl⟩ := eq
  have plain : ∀ t : Text, t.IsPlain → t ∈ {t : Text | t.Unsplit} :=
    fun t => Text.unsplit_of_isPlain
  have describes := describes_of_fragment distinct here
  have decodable := describes.decodable_document title
  refine ⟨(document title fragment).reread, fun o spaced => ?_, ?_⟩
  · exact decodable.parse_print (blank_layout spaced)
  · rw [reread_eq_self_iff decodable, within_document_iff plain title describes,
      within_fragment_iff plain distinct here]
    rfl

/-- A lone surrogate as a key, and a literal that is an array. -/
theorem parse_dump_loneSurrogate :
    let shape : Shape := .object
      [([CodePoint.ofNat 0xD800], .optional (.literal "[1,\"\\n\"]" "array"))]
    ∃ schema, ofShape "T" shape = .ok schema ∧
      ∀ o : Emit.Options, o.Spaced → Json.parse (dump o schema) = .ok schema := by
  intro shape
  have read : Json.parse "[1,\"\\n\"]" = .ok (.arr [.int 1, .str "\n"]) := by decide +kernel
  have const : (Json.arr [.int 1, .str "\n"]).Within {t | t.Unsplit} .univ := by
    simpa [within_arr_iff, within_str_iff] using ⟨.int 1, trivial⟩
  have texts : (Shape.literal "[1,\"\\n\"]" "array").SchemaTexts {t | t.Unsplit} :=
    .const (by decide) (Text.unsplit_of_isPlain (by decide)) read const
  have unsplit : shape.SchemaTexts {t | t.Unsplit} :=
    .object (List.forall_mem_singleton.2 trivial) (List.forall_mem_singleton.2 (.optional texts))
  have distinct : shape.DistinctKeys :=
    .object (List.nodup_singleton _) (List.forall_mem_singleton.2 (.optional (.literal _ _)))
  obtain ⟨schema, eq⟩ : ∃ schema, ofShape "T" shape = .ok schema := by
    simp only [shape, ofShape, fragment, fragmentFields, ofLiteral, read]
    exact ⟨_, rfl⟩
  obtain ⟨document, same, iff⟩ := exists_parse_dump_eq_iff_unsplit distinct eq
  rw [iff.2 ⟨Text.unsplit_of_isPlain (by decide), unsplit⟩] at same
  exact ⟨schema, eq, same⟩

/-- An escaped high surrogate before a low one in the text of a literal: no string of the shape
holds a split pair, the constant does, and it is read back as one code point. -/
theorem parse_dump_ne_halfEscaped :
    let value : Text := Text.ofString "\"\\ud83d" ++ [CodePoint.ofNat 0xDE00, CodePoint.ofChar '"']
    (Shape.literal value "json").Within {t | t.Unsplit} ∧
      ∃ schema, ofShape [] (.literal value "json") = .ok schema ∧
        Json.parse (dump { minify := true } schema) ≠ .ok schema := by
  intro value
  have unsplit : value.Unsplit := Text.unsplit_of_joined_eq (by decide +kernel)
  have read : Json.parse value = .ok (.str [CodePoint.ofNat 0xD83D, CodePoint.ofNat 0xDE00]) := by
    decide +kernel
  refine ⟨.literal unsplit (Text.unsplit_of_isPlain (by decide)), ?_⟩
  rw [ofShape, fragment, ofLiteral, if_neg (by decide), read]
  exact ⟨_, rfl, by decide +kernel⟩

end Schema

end JsonShapes
