import JsonShapes.Proofs.Inferring

/-!
# Well-formed shapes

Not every tree is a sensible type. In a well-formed one the keys of a record are unique, an option
stands at a property only and never directly below another, and a union offers at least two
alternatives of different forms. An untagged union has no untagged union among its variants. In a
tagged union every variant is a record that pins the discriminator to a literal of its own.

Merging keeps shapes well-formed and inference gives well-formed ones. The clauses depend on each
other: a merged property is wrapped in an option once because what it wraps is none, and dissolving
untagged unions one level deep is enough because their variants hold no further ones.
-/

namespace JsonShapes

namespace Json

/-- The JSON types of the scalars that can discriminate. -/
def literalTypes : List Text := ["string", "number", "boolean"]

theorem literalType_mem (j : Json) : j.literalType ∈ literalTypes := by
  unfold literalType
  split <;> decide

end Json

theorem DecimalLayout.write_ne_nil (layout : DecimalLayout) (d : Binary64.Decimal) :
    layout.write d ≠ [] := by
  have digits := Text.ofNat_ne_nil d.coefficient
  rw [write]
  dsimp only
  split
  · split
    · simp [Text.ofString]
    · split <;> simp [Text.ofString]
  · simp [digits]

namespace Json

theorem literalText_ne_nil {j : Json} {text : Text} (h : j.literalText = some text) :
    text ≠ [] := by
  cases j with
  | bool b =>
      cases h
      cases b <;> decide
  | int n =>
      cases h
      cases n with
      | ofNat n => exact Text.ofNat_ne_nil n
      | negSucc n => exact List.cons_ne_nil _ _
  | double x =>
      cases x with
      | finite x =>
          cases h
          rw [Binary64.Finite.text]
          split
          · exact List.cons_ne_nil _ _
          · split
            · decide
            · exact DecimalLayout.write_ne_nil _ _
      | infinite negative => cases h
      | nan => cases h
  | str s =>
      rw [literalText] at h
      split at h
      · cases h
      · next nonempty =>
          cases h
          simpa using nonempty
  | null => cases h
  | arr items => cases h
  | obj members => cases h

/-- The first value is the second one or stands somewhere inside of it. -/
inductive Inside : Json → Json → Prop
  | here (v : Json) : Inside v v
  | item {v item : Json} {items : List Json} (listed : item ∈ items) (inside : Inside v item) :
      Inside v (.arr items)
  | member {v : Json} {members : List (Text × Json)} {m : Text × Json} (listed : m ∈ members)
      (inside : Inside v m.2) : Inside v (.obj members)

theorem Inside.of_get? {v j value : Json} {key : Text} (found : j.get? key = some value)
    (h : Inside v value) : Inside v j := by
  cases j with
  | obj members => exact .member (Fields.mem_of_get?_eq_some found) h
  | _ => cases found

/-- The literals that the value and those inside of it offer, each with its JSON type. -/
def literals (v : Json) : Set (Text × Text) :=
  {l | ∃ w, Inside w v ∧ w.literalText = some l.1 ∧ w.literalType = l.2}

theorem literals_item {item : Json} {items : List Json} (listed : item ∈ items) :
    item.literals ⊆ (Json.arr items).literals := by
  rintro l ⟨w, inside, literal⟩
  exact ⟨w, .item listed inside, literal⟩

theorem literals_member {members : List (Text × Json)} {m : Text × Json} (listed : m ∈ members) :
    m.2.literals ⊆ (Json.obj members).literals := by
  rintro l ⟨w, inside, literal⟩
  exact ⟨w, .member listed inside, literal⟩

end Json

open Discriminator

namespace Shape

/-- The text to which a record pins a property: that of a literal, if it is not empty and its JSON
type is one of those that can discriminate. -/
def tag? (field : Text) : Shape → Option Text
  | .object fields =>
    match Fields.get? fields field with
    | some (.literal value jsonType) =>
      if value ≠ [] ∧ jsonType ∈ Json.literalTypes then some value else none
    | _ => none
  | _ => none

/-- A well-formed shape whose literals are among the given ones. An option may stand at each
property of a record and nowhere else, so that such a shape is never an option itself. -/
inductive WellFormed (L : Set (Text × Text)) : Shape → Prop
  | scalar (kind : Scalar) : WellFormed L (.scalar kind)
  | literal {value jsonType : Text} (listed : (value, jsonType) ∈ L) :
      WellFormed L (.literal value jsonType)
  | object {fields : List (Text × Shape)} (distinct : (Fields.keys fields).Nodup)
      (wellFormed : ∀ f ∈ fields, WellFormed L f.2.unwrap) : WellFormed L (.object fields)
  | array {element : Shape} (wellFormed : WellFormed L element) : WellFormed L (.array element)
  | untagged {variants : List Shape} (several : 2 ≤ variants.length)
      (distinct : (variants.map canonical).Nodup)
      (flat : ∀ s ∈ variants, ∀ inner, s ≠ .union none inner)
      (wellFormed : ∀ s ∈ variants, WellFormed L s) : WellFormed L (.union none variants)
  | tagged {field : Text} {variants : List Shape} (several : 2 ≤ variants.length)
      (distinct : (variants.map canonical).Nodup)
      (pinned : ∀ s ∈ variants, (tag? field s).isSome = true)
      (apart : (variants.map (tag? field)).Nodup)
      (wellFormed : ∀ s ∈ variants, WellFormed L s) : WellFormed L (.union (some field) variants)

theorem tag?_eq_some_iff {field text : Text} {s : Shape} :
    tag? field s = some text ↔ ∃ fields jsonType, s = .object fields ∧
      Fields.get? fields field = some (.literal text jsonType) ∧ text ≠ [] ∧
      jsonType ∈ Json.literalTypes := by
  constructor
  · intro h
    unfold tag? at h
    split at h
    · next fields =>
        split at h
        · next value jsonType found =>
            split at h
            · next good =>
                cases h
                exact ⟨fields, jsonType, rfl, found, good⟩
            · cases h
        · cases h
    · cases h
  · rintro ⟨fields, jsonType, rfl, found, good⟩
    simp only [tag?, found, if_pos good]

/-- Records of one form have the same tags. -/
theorem tag?_of_canonical_eq {field text : Text} {a b : Shape} (h : a.canonical = b.canonical)
    (tagged : tag? field a = some text) : tag? field b = some text := by
  obtain ⟨fields, jsonType, rfl, found, good⟩ := tag?_eq_some_iff.1 tagged
  obtain ⟨others, rfl, -⟩ := canonical_eq_object_iff.1 h.symm
  obtain ⟨t, foundThere, form⟩ := exists_get?_of_canonical_eq h found
  cases canonical_eq_literal_iff.1 form.symm
  exact tag?_eq_some_iff.2 ⟨others, jsonType, rfl, foundThere, good⟩

/-- Variants with tags of their own have forms of their own. -/
theorem nodup_canonical_of_tags {field : Text} {variants : List Shape}
    (pinned : ∀ s ∈ variants, (tag? field s).isSome = true)
    (apart : (variants.map (tag? field)).Nodup) : (variants.map canonical).Nodup := by
  rw [List.Nodup, List.pairwise_map] at apart ⊢
  apply apart.imp_of_mem
  intro a b ha hb differ sameForm
  obtain ⟨text, tagged⟩ := Option.isSome_iff_exists.1 (pinned a ha)
  exact differ (tagged.trans (tag?_of_canonical_eq sameForm tagged).symm)

theorem nodup_canonical_of_texts {shapes : List Shape}
    (distinct : (shapes.map canonicalText).Nodup) : (shapes.map canonical).Nodup := by
  apply List.Nodup.of_map formText
  rw [List.map_map]
  exact distinct

theorem two_le_length {shapes : List Shape} (nonempty : shapes ≠ [])
    (several : ∀ s, shapes ≠ [s]) : 2 ≤ shapes.length := by
  match shapes with
  | [] => exact absurd rfl nonempty
  | [s] => exact absurd rfl (several s)
  | s :: t :: rest => simp

variable {L : Set (Text × Text)}

namespace WellFormed

theorem isOptional_eq_false {s : Shape} (h : s.WellFormed L) : s.isOptional = false := by
  cases h <;> rfl

theorem unwrap_eq {s : Shape} (h : s.WellFormed L) : s.unwrap = s := by
  cases h <;> rfl

theorem unwrap_asOptional_eq {s : Shape} (h : s.WellFormed L) : s.asOptional.unwrap = s := by
  cases h <;> rfl

/-- A well-formed tree has no foreign leaves. -/
theorem within {s : Shape} (h : s.WellFormed L) : s.Within .univ := by
  induction h with
  | scalar kind => exact .scalar kind
  | literal listed => exact .literal trivial trivial
  | object distinct wellFormed ih =>
      refine .object (fun _ _ => trivial) fun f hf => ?_
      have inner := ih f hf
      cases shape : f.2 with
      | optional t =>
          rw [shape] at inner
          exact .optional inner
      | _ =>
          rw [shape] at inner
          exact inner
  | array wellFormed ih => exact .array ih
  | untagged several distinct flat wellFormed ih => exact .union (fun _ _ => trivial) ih
  | tagged several distinct pinned apart wellFormed ih => exact .union (fun _ _ => trivial) ih

/-- What a shape offers to an untagged union is well-formed and not such a union itself. -/
theorem of_mem_alternatives {s t : Shape} (h : s.WellFormed L) (member : t ∈ alternatives s) :
    t.WellFormed L ∧ ∀ inner, t ≠ .union none inner := by
  by_cases union : ∃ variants, s = .union none variants
  · obtain ⟨variants, rfl⟩ := union
    cases h with
    | untagged several distinct flat wellFormed => exact ⟨wellFormed t member, flat t member⟩
  · rw [alternatives_eq_singleton fun variants eq => union ⟨variants, eq⟩,
      List.mem_singleton] at member
    subst member
    exact ⟨h, fun inner eq => union ⟨inner, eq⟩⟩

theorem alternatives_ne_nil {s : Shape} (h : s.WellFormed L) : alternatives s ≠ [] := by
  unfold alternatives
  split
  · cases h with
    | untagged several distinct flat wellFormed =>
        rintro rfl
        simp at several
  · exact List.cons_ne_nil _ _

/-- The untagged union of well-formed shapes is well-formed. -/
theorem of_untagged {shapes : List Shape} (nonempty : shapes ≠ [])
    (wellFormed : ∀ s ∈ shapes, s.WellFormed L) : (Shape.untagged shapes).WellFormed L := by
  have offered : ∀ t ∈ unique (shapes.flatMap alternatives),
      t.WellFormed L ∧ ∀ inner, t ≠ .union none inner := by
    intro t ht
    obtain ⟨s, hs, member⟩ := List.mem_flatMap.1 (mem_of_mem_unique ht)
    exact (wellFormed s hs).of_mem_alternatives member
  have some : shapes.flatMap alternatives ≠ [] := by
    obtain ⟨s, hs⟩ := List.exists_mem_of_ne_nil shapes nonempty
    intro empty
    exact (wellFormed s hs).alternatives_ne_nil (List.flatMap_eq_nil_iff.1 empty s hs)
  rw [Shape.untagged]
  split
  · next only single =>
      exact (offered only (single ▸ List.mem_singleton.2 rfl)).1
  · next several =>
      apply WellFormed.untagged
      · exact two_le_length (unique_ne_nil some) several
      · exact nodup_canonical_of_texts (nodup_unique _)
      · intro t ht
        exact (offered t ht).2
      · intro t ht
        exact (offered t ht).1

/-- The values that well-formed records hold at a key are well-formed below their options. -/
theorem of_mem_valuesAt {records : List (List (Text × Shape))}
    (wellFormed : ∀ s ∈ records.map Shape.object, s.WellFormed L) {key : Text} {s : Shape}
    (hs : s ∈ (valuesAt records key).map Shape.unwrap) : s.WellFormed L := by
  obtain ⟨fields, hf, t, found, rfl⟩ := mem_valuesAt_unwrap.1 hs
  cases wellFormed _ (List.mem_map.2 ⟨fields, hf, rfl⟩) with
  | object distinct wellFormed => exact wellFormed _ (Fields.mem_of_get?_eq_some found)

/-- Merging keeps shapes well-formed. -/
theorem mergeAll {shapes : List Shape} (nonempty : shapes ≠ [])
    (wellFormed : ∀ s ∈ shapes, s.WellFormed L) : (Shape.mergeAll shapes).WellFormed L := by
  induction shapes using mergeInduction with
  | records records ih =>
      rw [mergeAll_of_records (records?_eq_some_iff.2 rfl)]
      apply WellFormed.object
      · rw [Fields.keys_map_keys]
        exact Fields.nodup_union _
      · refine List.forall_mem_map.mpr fun key hk => ?_
        have inner : (Shape.mergeAll ((valuesAt records key).map Shape.unwrap)).WellFormed L := by
          apply ih key hk
          · obtain ⟨fields, hf, s, found⟩ := exists_get?_of_mem_union hk
            exact List.ne_nil_of_mem (mem_valuesAt_unwrap.2 ⟨fields, hf, s, found, rfl⟩)
          · exact fun s hs => of_mem_valuesAt wellFormed hs
        rcases mergedField_cases records key
          (Shape.mergeAll ((valuesAt records key).map Shape.unwrap)) with ⟨-, eq⟩ | ⟨-, eq⟩
        · simpa only [eq, inner.unwrap_asOptional_eq] using inner
        · simpa only [eq, inner.unwrap_eq] using inner
  | only shapes s hr single =>
      rw [mergeAll_of_unique hr single]
      exact wellFormed s (mem_of_mem_unique (single ▸ List.mem_singleton.2 rfl))
  | elements shapes elements hr several arrays ih =>
      rw [mergeAll_of_elements hr several (elements?_eq_some_iff.2 arrays)]
      apply WellFormed.array
      apply ih
      · apply informative_ne_nil
        rintro rfl
        exact unique_ne_nil nonempty arrays
      · intro e he
        have listed : Shape.array e ∈ unique shapes := by
          rw [arrays]
          exact List.mem_map.2 ⟨e, mem_of_mem_informative he, rfl⟩
        cases wellFormed _ (mem_of_mem_unique listed) with
        | array wellFormed => exact wellFormed
  | distinct shapes hr several he =>
      rw [mergeAll_of_distinct hr several he]
      apply of_untagged (unique_ne_nil nonempty)
      exact fun s hs => wellFormed s (mem_of_mem_unique hs)

/-- Pinning a property of a well-formed record keeps it well-formed. -/
theorem pin {field value jsonType : Text} (listed : (value, jsonType) ∈ L) {s : Shape}
    (h : s.WellFormed L) : (Unification.pin field (.literal value jsonType) s).WellFormed L := by
  cases h with
  | object distinct wellFormed =>
      apply WellFormed.object
      · exact Fields.nodup_keys_set distinct field _
      · intro f hf
        rcases Fields.mem_set hf with rfl | old
        · exact .literal listed
        · exact wellFormed f old
  | scalar kind => exact .scalar kind
  | literal listed => exact .literal listed
  | array wellFormed => exact .array wellFormed
  | untagged several distinct flat wellFormed => exact .untagged several distinct flat wellFormed
  | tagged several distinct pinned apart wellFormed =>
      exact .tagged several distinct pinned apart wellFormed

end WellFormed

theorem exists_mergeAll_eq_object {shapes : List Shape}
    (records : ∀ s ∈ shapes, s.fields?.isSome = true) :
    ∃ fields, mergeAll shapes = .object fields := by
  obtain ⟨records, eq⟩ := Option.isSome_iff_exists.1 (records?_isSome_iff.2 records)
  exact ⟨_, mergeAll_of_records eq⟩

/-- The variant of a group is a record that is tagged with the literal of the group. -/
theorem tag?_pinned {rows : List (Json × Shape)} (inferred : ∀ row ∈ rows, Inferred row.1 row.2)
    {c : Candidate} (splits : c.Splits rows) {p : Partition} (hp : p ∈ c.partitions) :
    tag? c.field (pinned rows c.field p) = p.value := by
  obtain ⟨fields, record⟩ := exists_mergeAll_eq_object fun s hs =>
    isSome_fields?_of_mem_group inferred splits hp hs
  obtain ⟨row, value, filed, typed⟩ := splits.exists_typed hp
  rw [splits.value_eq hp, pinned, record]
  refine tag?_eq_some_iff.2 ⟨_, p.jsonType, rfl, ?_, ?_, ?_⟩
  · rw [Fields.get?_set, if_pos rfl]
  · exact Json.literalText_ne_nil filed.text
  · exact typed ▸ value.literalType_mem

theorem Inferred.ne_union {v : Json} {s : Shape} (h : Inferred v s) (d : Option Text)
    (variants : List Shape) : s ≠ .union d variants := by
  cases h <;> simp

/-- The one type of the elements of an array is well-formed. -/
theorem Unified.wellFormed {rows : List (Json × Shape)} {element : Shape}
    (h : Unified rows element) (inferred : ∀ row ∈ rows, Inferred row.1 row.2)
    (literals : ∀ row ∈ rows, row.1.literals ⊆ L)
    (wellFormed : ∀ row ∈ rows, row.2.WellFormed L) : element.WellFormed L := by
  have listed : ∀ s ∈ unique (rows.map Prod.snd), s.WellFormed L := by
    intro s hs
    obtain ⟨row, hr, rfl⟩ := List.mem_map.1 (mem_of_mem_unique hs)
    exact wellFormed row hr
  have distinct : rows ≠ [] → unique (rows.map Prod.snd) ≠ [] :=
    fun nonempty => unique_ne_nil (by simpa using nonempty)
  cases h with
  | nothing empty => exact .scalar .unknown
  | uniform single => exact listed _ (single ▸ List.mem_singleton.2 rfl)
  | @tagged c nonempty splits =>
      have tags : (c.partitions.map (pinned rows c.field)).map (tag? c.field) =
          c.partitions.map Partition.value := by
        rw [List.map_map]
        exact List.map_congr_left fun p hp => tag?_pinned inferred splits hp
      have pinned : ∀ s ∈ c.partitions.map (pinned rows c.field),
          (tag? c.field s).isSome = true := by
        refine List.forall_mem_map.mpr fun p hp => ?_
        rw [tag?_pinned inferred splits hp, splits.value_eq hp]
        rfl
      have apart := tags ▸ splits.grouped.apart
      apply WellFormed.tagged
      · rw [List.length_map]
        exact splits.several
      · exact nodup_canonical_of_tags pinned apart
      · exact pinned
      · exact apart
      · refine List.forall_mem_map.mpr fun p hp => WellFormed.pin ?_ ?_
        · obtain ⟨row, value, filed, typed⟩ := splits.exists_typed hp
          exact literals row filed.listed
            ⟨value, .of_get? filed.held (.here value), filed.text, typed⟩
        apply WellFormed.mergeAll (splits.group_ne_nil hp)
        intro s hs
        obtain ⟨row, value, rfl, filed⟩ := splits.filed_of_mem_group hp hs
        exact wellFormed row filed.listed
  | folded nonempty records => exact WellFormed.mergeAll (distinct nonempty) listed
  | alternatives nonempty several =>
      apply WellFormed.untagged
      · exact two_le_length (distinct nonempty) several
      · exact nodup_canonical_of_texts (nodup_unique _)
      · intro s hs inner
        obtain ⟨row, hr, rfl⟩ := List.mem_map.1 (mem_of_mem_unique hs)
        exact (inferred row hr).ne_union none inner
      · exact listed

/-- The shape of a value is well-formed. -/
theorem Inferred.wellFormed {v : Json} {s : Shape} (h : Inferred v s) (literals : v.literals ⊆ L) :
    s.WellFormed L := by
  induction h with
  | null => exact .scalar .null
  | bool b => exact .scalar .boolean
  | int n => exact .scalar .number
  | finite x => exact .scalar .number
  | notFinite infinite => exact .scalar .unknown
  | str s => exact .scalar .string
  | @arr rows element inferred unified ih =>
      have each : ∀ row ∈ rows, row.1.literals ⊆ L := fun row hr =>
        (Json.literals_item (List.mem_map.mpr ⟨row, hr, rfl⟩)).trans literals
      exact .array (unified.wellFormed inferred each fun row hr => ih row hr (each row hr))
  | obj distinct inferred ih =>
      apply WellFormed.object
      · rw [Fields.keys, List.map_map]
        exact distinct
      · refine List.forall_mem_map.mpr fun m hm => ?_
        have inner := ih m hm
          ((Json.literals_member (List.mem_map.mpr ⟨m, hm, rfl⟩)).trans literals)
        rw [inner.unwrap_eq]
        exact inner

/-- The shape of samples is well-formed, whichever literals are allowed that occur in them. -/
theorem exists_wellFormed_inferSamples {S : Set Text} {D : Set Binary64} {samples : List Json}
    (nonempty : samples ≠ []) (within : ∀ v ∈ samples, v.Within S D) :
    ∃ shape, inferSamples samples = .ok shape ∧
      ∀ L, (∀ v ∈ samples, v.literals ⊆ L) → shape.WellFormed L := by
  obtain ⟨rows, rfl, each, -, eq⟩ := exists_inferSamples nonempty within
  refine ⟨_, eq, fun L literals => ?_⟩
  apply WellFormed.mergeAll (by simpa using nonempty)
  refine List.forall_mem_map.mpr fun row hr => ?_
  exact (each row hr).2.wellFormed (List.forall_mem_map.mp literals row hr)

/-- Samples whose objects repeat no key have a well-formed shape, and well-formed shapes merge into
a well-formed one, as shapes and as records. None of these is an option. -/
theorem wellFormed_inferSamples_and_merge :
    (∀ samples : List Json, samples ≠ [] → (∀ v ∈ samples, v.Within .univ .univ) →
      ∃ shape, inferSamples samples = .ok shape ∧ shape.WellFormed .univ ∧
        shape.isOptional = false) ∧
    ∀ shapes : List Shape, shapes ≠ [] → (∀ s ∈ shapes, s.WellFormed .univ) →
      (∃ merged, mergeShapes shapes = .ok merged ∧ merged.WellFormed .univ ∧
        merged.isOptional = false) ∧
      ((∀ s ∈ shapes, s.fields?.isSome = true) →
        ∃ merged, mergeRecords shapes = .ok merged ∧ merged.WellFormed .univ ∧
          merged.isOptional = false) := by
  constructor
  · intro samples nonempty within
    obtain ⟨rows, rfl, each, -, eq⟩ := exists_inferSamples nonempty within
    have merged : (mergeAll (rows.map Prod.snd)).WellFormed .univ := by
      apply WellFormed.mergeAll (by simpa using nonempty)
      exact List.forall_mem_map.mpr fun row hr => (each row hr).2.wellFormed (Set.subset_univ _)
    exact ⟨_, eq, merged, merged.isOptional_eq_false⟩
  · intro shapes nonempty wellFormed
    have merged := WellFormed.mergeAll nonempty wellFormed
    have within : ∀ s ∈ shapes, s.Within .univ := fun s hs => (wellFormed s hs).within
    constructor
    · exact ⟨_, mergeShapes_eq_ok nonempty within, merged, merged.isOptional_eq_false⟩
    · intro records
      exact ⟨_, mergeRecords_eq_ok nonempty within records, merged, merged.isOptional_eq_false⟩

/-- An array with a discriminator, and records one of which lacks a property of the other. -/
theorem wellFormed_inferSamples_and_merge_tagged :
    (∃ shape,
      inferSamples [.arr [.obj [("t", .int 1)], .obj [("t", .bool true), ("a", .null)]]] =
        .ok shape ∧ shape.WellFormed .univ ∧ shape.isOptional = false) ∧
    ∃ merged, mergeRecords [.object [("a", .optional .null)], .object [("b", .string)]] =
      .ok merged ∧ merged.WellFormed .univ ∧ merged.isOptional = false := by
  constructor
  · apply wellFormed_inferSamples_and_merge.1 _ (List.cons_ne_nil _ _)
    refine List.forall_mem_singleton.mpr (.arr (List.forall_mem_cons.mpr
      ⟨?_, List.forall_mem_singleton.mpr ?_⟩))
    · exact .obj (by decide) (fun _ _ => trivial) (List.forall_mem_singleton.mpr (.int 1))
    · exact .obj (by decide) (fun _ _ => trivial) (List.forall_mem_cons.mpr
        ⟨.bool true, List.forall_mem_singleton.mpr .null⟩)
  · refine (wellFormed_inferSamples_and_merge.2 _ (List.cons_ne_nil _ _) ?_).2 (by decide)
    refine List.forall_mem_cons.mpr ⟨?_, List.forall_mem_singleton.mpr ?_⟩
    · exact .object (by decide) (List.forall_mem_singleton.mpr (.scalar .null))
    · exact .object (by decide) (List.forall_mem_singleton.mpr (.scalar .string))

end Shape

end JsonShapes
