import JsonShapes.Proofs.Bijection
import JsonShapes.Proofs.BuiltTrees
import JsonShapes.Proofs.Reordering

/-!
# Merging shapes of one form

Trees of one canonical form may order their properties and variants differently at every depth. They
merge into the first of them, in its own order: a record is taken apart and rebuilt property by
property, and each property comes back as it was, with its option around it.

So the variants of a tagged union are exact. The elements of a group have one canonical text, and
where spellings tell texts apart they have one form, so that the variant is the shape of the first
of them with the discriminator pinned. Elsewhere the elements of a group may differ, and a merge of
them is none of their shapes.
-/

namespace JsonShapes

namespace Fields

variable {α : Type}

theorem map_keys_eq_self {fields : List (Text × α)} {value : Text → α}
    (agree : ∀ f ∈ fields, value f.1 = f.2) :
    (keys fields).map (fun key => (key, value key)) = fields := by
  rw [keys, List.map_map]
  conv_rhs => rw [← List.map_id fields]
  exact List.map_congr_left fun f hf => Prod.ext rfl (agree f hf)

/-- Keys that are all known add nothing to a record. -/
theorem union_cons_eq {ks : List Text} (distinct : ks.Nodup) {others : List (List Text)}
    (known : ∀ other ∈ others, ∀ key ∈ other, key ∈ ks) : union (ks :: others) = ks := by
  have nothing : others.flatten.removeAll ks = [] := by
    rw [List.removeAll, List.filter_eq_nil_iff]
    intro key hk
    obtain ⟨other, ho, member⟩ := List.mem_flatten.1 hk
    simpa using known other ho key member
  rw [union_eq, List.flatten_cons, List.eraseDups_append, nothing, eraseDups_eq_self distinct,
    List.eraseDups_nil, List.append_nil]

end Fields

namespace Shape

theorem unique_cons_eq_singleton {s : Shape} {rest : List Shape}
    (same : ∀ t ∈ rest, t.canonical = s.canonical) : unique (s :: rest) = [s] := by
  refine unique_eq_singleton (by simp [unique_cons]) fun t ht => ?_
  rcases List.mem_cons.1 (mem_of_mem_unique ht) with rfl | later
  · rfl
  · rw [canonicalText, canonicalText, same t later]

/-- The first of several records of one form holds the keys of all of them. -/
theorem union_keys_eq {fields : List (Text × Shape)} {others : List (List (Text × Shape))}
    (distinct : (Fields.keys fields).Nodup)
    (same : ∀ other ∈ others, (Shape.object other).canonical = (Shape.object fields).canonical) :
    Fields.union ((fields :: others).map Fields.keys) = Fields.keys fields := by
  apply Fields.union_cons_eq distinct
  refine List.forall_mem_map.2 fun other ho key hk => ?_
  obtain ⟨t, found⟩ := Fields.exists_get?_of_mem_keys hk
  obtain ⟨s, foundHere, -⟩ := exists_get?_of_canonical_eq (same other ho) found
  exact List.mem_map.2 ⟨_, Fields.mem_of_get?_eq_some foundHere, rfl⟩

/-- Rebuilding a property from records of one form gives back that of the first record. -/
theorem mergedAt_eq_self {fields : List (Text × Shape)} {others : List (List (Text × Shape))}
    (same : ∀ other ∈ others, (Shape.object other).canonical = (Shape.object fields).canonical)
    {key : Text} {s : Shape} (found : Fields.get? fields key = some s) (built : s.Built)
    (merged : mergeAll (heldAt (fields :: others) key) = s.unwrap) :
    mergedAt (fields :: others) key = s := by
  by_cases lax : Lax (fields :: others) key
  · rw [mergedAt_of_lax lax, merged]
    apply built.asOptional_unwrap
    obtain ⟨other, ho, optional⟩ := lax
    rcases List.mem_cons.1 ho with rfl | later
    · exact optional s found
    · obtain ⟨t, foundThere, form⟩ := exists_get?_of_canonical_eq (same other later).symm found
      rw [isOptional_eq_of_canonical_eq form]
      exact optional t foundThere
  · rw [mergedAt_of_not_lax lax, merged]
    apply unwrap_eq_self
    rw [Bool.eq_false_iff]
    intro optional
    refine lax ⟨fields, List.mem_cons_self, fun t foundHere => ?_⟩
    cases found.symm.trans foundHere
    exact optional

/-- The values that records of one form hold at a key have one form. -/
theorem heldAt_cons_eq {fields : List (Text × Shape)} {others : List (List (Text × Shape))}
    (same : ∀ other ∈ others, (Shape.object other).canonical = (Shape.object fields).canonical)
    {key : Text} {s : Shape} (found : Fields.get? fields key = some s) :
    heldAt (fields :: others) key = s.unwrap :: heldAt others key ∧
      ∀ t ∈ heldAt others key, t.canonical = s.unwrap.canonical := by
  refine ⟨?_, fun t ht => ?_⟩
  · rw [← List.singleton_append, heldAt_append, heldAt_singleton_of_some found]
    rfl
  · obtain ⟨other, ho, u, foundThere, rfl⟩ := mem_valuesAt_unwrap.1 ht
    obtain ⟨s', foundHere, form⟩ := exists_get?_of_canonical_eq (same other ho) foundThere
    cases found.symm.trans foundHere
    exact unwrap_canonical_eq form

/-- Trees of one form merge into the first of them. -/
theorem Built.mergeAll_eq_self {s : Shape} (built : s.Built) {rest : List Shape}
    (same : ∀ t ∈ rest, t.canonical = s.canonical) : Shape.mergeAll (s :: rest) = s := by
  -- the tree below the option of a property is no part that an induction over trees gives
  induction size : s.depth using Nat.strong_induction_on generalizing s rest with
  | _ n ih =>
      subst size
      cases hr : records? (s :: rest) with
      | none => exact mergeAll_of_unique hr (unique_cons_eq_singleton same)
      | some records =>
          obtain ⟨fields, others, rfl⟩ := List.exists_cons_of_ne_nil fun empty : records = [] => by
            rw [records?_eq_some_iff, empty] at hr
            cases hr
          obtain ⟨rfl, rfl⟩ := List.cons.inj (records?_eq_some_iff.1 hr)
          have same := List.forall_mem_map.1 same
          cases built with
          | object distinct below =>
              rw [← List.map_cons, mergeAll_objects, mergedFields, union_keys_eq distinct same]
              refine congrArg Shape.object (Fields.map_keys_eq_self fun f hf => ?_)
              have found : Fields.get? fields f.1 = some f.2 :=
                Fields.get?_eq_some_of_mem distinct hf
              obtain ⟨eq, form⟩ := heldAt_cons_eq same found
              have inner : f.2.unwrap.depth < (Shape.object fields).depth := by
                have under := depth_unwrap_le f.2
                have field := depth_le_depthFields hf
                rw [depth]
                omega
              apply mergedAt_eq_self same found (below f hf)
              rw [eq]
              exact ih _ inner (below f hf).unwrap form rfl

namespace Built

/-- A merge is not changed by merging it alone. -/
theorem mergeAll_singleton {s : Shape} (h : s.Built) : Shape.mergeAll [s] = s :=
  h.mergeAll_eq_self (by simp)

/-- Element types of one form merge into that form. -/
theorem uniform {elements : List Shape} (nonempty : elements ≠ [])
    (built : ∀ e ∈ elements, e.Built) :
    ∀ e ∈ elements, (∀ f ∈ elements, f.canonical = e.canonical) →
      (Shape.mergeAll (informative elements)).canonical = e.canonical := by
  intro e he same
  obtain ⟨first, rest, eq⟩ := List.exists_cons_of_ne_nil (informative_ne_nil nonempty)
  have listed : ∀ f ∈ first :: rest, f ∈ elements := fun f hf => mem_of_mem_informative (eq ▸ hf)
  have here := listed first List.mem_cons_self
  rw [eq, (built first here).mergeAll_eq_self, same first here]
  intro f hf
  rw [same f (listed f (List.mem_cons_of_mem _ hf)), same first here]

end Built

theorem Reordered.within {S : Set Text} {a b : Shape} (h : Reordered a b) (within : a.Within S) :
    b.Within S := by
  induction h with
  | refl => exact within
  | tail _ step ih => exact step.within ih

/-- The tree and others of its form merge into it, as shapes and, if it is a record, as records. -/
def MergesToFirst (s : Shape) : Prop :=
  ∀ rest, (∀ t ∈ rest, t.canonical = s.canonical) →
    mergeShapes (s :: rest) = .ok s ∧
      (s.fields?.isSome = true → mergeRecords (s :: rest) = .ok s)

theorem Built.mergesToFirst {s : Shape} (built : s.Built) : s.MergesToFirst := by
  intro rest same
  have within : ∀ t ∈ s :: rest, t.Within .univ := by
    refine List.forall_mem_cons.2 ⟨built.within, fun t ht => ?_⟩
    exact (reordered_of_canonical_eq built.within (same t ht).symm).within built.within
  have merged := built.mergeAll_eq_self same
  refine ⟨?_, fun record => ?_⟩
  · rw [mergeShapes_eq_ok (List.cons_ne_nil _ _) within, merged]
  · have records : ∀ t ∈ s :: rest, t.fields?.isSome = true :=
      List.forall_mem_cons.2 ⟨record, fun t ht => fields?_isSome_of_canonical_eq (same t ht) record⟩
    rw [mergeRecords_eq_ok (List.cons_ne_nil _ _) within records, merged]

open Discriminator

theorem group_classOf (key : Text) (rows : List (Json × Shape)) (literal : Option Text) :
    (classOf id key rows literal).group rows = (placed key rows literal).map (·.1.2) := by
  rw [Partition.group, classOf, List.filterMap_map]
  rw [List.filterMap_eq_map_iff_forall_eq_some]
  rintro ⟨row, i⟩ member
  rw [Function.comp_apply, List.getElem?_map, (mem_placed.1 member).1, Option.map_some]

/-- The first row of a group is the first that holds its literal. -/
theorem find?_of_placed {key : Text} {rows : List (Json × Shape)} {literal : Option Text}
    {first : (Json × Shape) × Nat} {rest : List ((Json × Shape) × Nat)}
    (h : placed key rows literal = first :: rest) :
    (rows.map Prod.fst).find? (fun value => literalAt key value = literal) = some first.1.1 := by
  have head : (placed key rows literal).head? = some first := by rw [h, List.head?_cons]
  rw [placed, List.head?_filter] at head
  have values : rows.map Prod.fst = rows.zipIdx.map (·.1.1) := by
    rw [← Function.comp_def (g := Prod.fst) (f := Prod.fst), ← List.map_map, List.zipIdx_map_fst]
  rw [values, List.find?_map, Function.comp_def, head, Option.map_some]

/-- Elements are tagged if the search for a discriminator finds one. -/
theorem unificationOf_eq_tagged_iff {values : List Json} {shapes : List Shape} {c : Candidate}
    (known : unique? shapes = .ok (unique shapes)) :
    Unification.of values shapes = .ok (.tagged c) ↔
      find id values shapes (unique shapes).length = .ok (some c) := by
  have few : (unique shapes).length < 2 → find id values shapes (unique shapes).length = .ok none :=
    fun few => by rw [find, if_pos few]
  rw [Unification.of, known]
  split
  · next empty =>
      rw [few (by simp [List.isEmpty_iff.1 empty, unique, uniqueAfter])]
      simp
  · split
    · next failed => cases failed
    · next only single =>
        rw [few (by simp [Except.ok.inj single])]
        simp
    · next distinct _ same =>
        cases same
        split
        · next failed => simp [failed]
        · next found => simp [found]
        · next found =>
            rw [found]
            split <;> simp

variable {S : Set Text} {rows : List (Json × Shape)}

/-- The elements of an array are tagged by the first of the leading keys that discerns their
shapes, with one variant for each of its groups. -/
theorem unify_eq_tagged_iff (inferred : ∀ row ∈ rows, Inferred row.1 row.2)
    (within : ∀ row ∈ rows, row.2.Within S) {field : Text} {variants : List Shape} :
    unify (rows.map Prod.fst) (rows.map Prod.snd) = .ok (.union (some field) variants) ↔
      (2 ≤ (unique (rows.map Prod.snd)).length ∧
        (leadingKeys (rows.map Prod.fst)).find?
          (fun key => decide (Discerns canonicalText rows key)) = some field) ∧
        variants = (classes id field rows).map (pinned rows field) := by
  have known : ∀ row ∈ rows, row.2.foreign? = none :=
    fun row hr => (within row hr).foreign?_eq_none
  have distinct : unique? (rows.map Prod.snd) = .ok (unique (rows.map Prod.snd)) := by
    rw [unique?, checkAll_eq_ok _ (List.forall_mem_map.mpr within)]
  have shape : ∀ {c : Candidate}, c.Splits rows →
      Unification.shape (rows.map Prod.snd) (.tagged c) =
        .ok (.union (some c.field) (c.partitions.map (pinned rows c.field))) := by
    intro c splits
    rw [Unification.shape, mapM_eq_ok fun p hp => variant_eq_ok inferred within splits hp]
    rfl
  constructor
  · intro h
    have nonempty : rows ≠ [] := by
      rintro rfl
      cases h
    obtain ⟨u, eq, cases⟩ := exists_unification nonempty within
    rw [unify, eq] at h
    change Unification.shape _ u = _ at h
    rcases cases with ⟨s, single, rfl⟩ | ⟨c, splits, rfl⟩ | ⟨records, rfl⟩ | ⟨several, rfl⟩
    · cases h
      have listed := mem_of_unique_eq_singleton single
      obtain ⟨row, hr, eq⟩ := List.mem_map.1 listed
      exact absurd eq ((inferred row hr).ne_union _ _)
    · rw [shape splits] at h
      cases h
      rw [unificationOf_eq_tagged_iff distinct, find_id_eq_ok known, Except.ok.injEq] at eq
      split at eq
      · next several =>
          obtain ⟨key, first, rfl⟩ := Option.map_eq_some_iff.1 eq
          exact ⟨⟨several, first⟩, rfl⟩
      · cases eq
    · rw [Unification.shape, mergeRecords_eq_ok (unique_ne_nil (by simpa using nonempty))
        (Within.unique (List.forall_mem_map.mpr within)) records] at h
      obtain ⟨fields, record⟩ := exists_mergeAll_eq_object records
      rw [record] at h
      cases h
    · cases h
  · rintro ⟨⟨several, first⟩, rfl⟩
    have search := find_id_eq_ok known
    rw [if_pos several, first, Option.map_some] at search
    obtain ⟨found, eq, splits⟩ := exists_find known (unique (rows.map Prod.snd)).length
    cases search.symm.trans eq
    rw [unify, (unificationOf_eq_tagged_iff distinct).2 search]
    exact shape (splits _ rfl)

theorem infer_arr_eq_ok_iff {items : List Json} {shapes : List Shape} {element : Shape}
    (eq : inferAll items = .ok shapes) :
    infer (.arr items) = .ok (.array element) ↔ unify items shapes = .ok element := by
  rw [infer, eq]
  change (unify items shapes >>= fun element => pure (Shape.array element)) = _ ↔ _
  cases unify items shapes with
  | error e => exact ⟨nofun, nofun⟩
  | ok other => simp [bind, Except.bind, pure, Except.pure]

/-- The variant for a literal of the discriminator is the shape of the first element that holds it,
with the discriminator pinned. -/
def ExactVariant (items : List Json) (field : Text) (literal : Option Text) (variant : Shape) :
    Prop :=
  ∃ element value text fields,
    items.find? (fun item => literalAt field item = literal) = some element ∧
    element.get? field = some value ∧ value.literalText = some text ∧
    infer element = .ok (.object fields) ∧
    variant = .object (Fields.set fields field (.literal text value.literalType))

/-- The variant of a group is exact if the shapes of the group have one form. -/
theorem exactVariant_pinned (apart : S.InjOn (Quoted.write .ascii))
    (each : ∀ row ∈ rows, infer row.1 = .ok row.2 ∧ Inferred row.1 row.2)
    (within : ∀ row ∈ rows, row.2.Within S) {field : Text}
    (discerns : Discerns canonicalText rows field) {row : Json × Shape} (listed : row ∈ rows) :
    ExactVariant (rows.map Prod.fst) field (literalAt field row.1)
      (pinned rows field (classOf id field rows (literalAt field row.1))) := by
  have occurs := List.mem_map_of_mem (f := fun row => literalAt field row.1) listed
  generalize literalAt field row.1 = literal at occurs ⊢
  obtain ⟨⟨⟨element, s⟩, i⟩, rest, eq⟩ := List.exists_cons_of_ne_nil (placed_ne_nil occurs)
  have members : ∀ r ∈ placed field rows literal,
      r.1 ∈ rows ∧ literalAt field r.1.1 = literal := by
    rintro ⟨row, j⟩ member
    obtain ⟨present, same⟩ := mem_placed.1 member
    exact ⟨List.mem_of_getElem? present, same⟩
  obtain ⟨hr, held⟩ := members _ (eq ▸ List.mem_cons_self)
  obtain ⟨shape, inferred⟩ := each _ hr
  obtain ⟨text, isText⟩ := Option.isSome_iff_exists.1 (discerns.literal _ hr)
  obtain ⟨value, found, spelled⟩ := Option.bind_eq_some_iff.1 isText
  obtain rfl : some text = literal := isText.symm.trans held
  -- one literal means one canonical text, and with it one form
  have same : ∀ t ∈ rest.map (·.1.2), t.canonical = s.canonical := by
    refine List.forall_mem_map.2 fun r later => ?_
    obtain ⟨hr', held'⟩ := members r (eq ▸ List.mem_cons_of_mem _ later)
    refine (canonicalText_eq_iff apart (within _ hr') (within _ hr)).1 ?_
    exact (discerns.bijective _ hr' _ hr).1 (held'.trans held.symm)
  have built : s.Built := (inferred.wellFormed (L := .univ) (Set.subset_univ _)).built
  have merged : mergeAll ((classOf id field rows (some text)).group rows) = s := by
    rw [group_classOf, eq, List.map_cons]
    exact built.mergeAll_eq_self same
  obtain ⟨fields, record⟩ := Option.isSome_iff_exists.1 (inferred.isSome_fields? found)
  cases s with
  | object =>
      cases record
      refine ⟨element, value, text, fields, find?_of_placed eq, found, spelled, shape, ?_⟩
      rw [pinned, merged]
      simp [Unification.pin, classOf, eq, found]
  | _ => cases record

/-- The variants of the tagged unions of arrays of values over the given texts are exact, one for
each literal of the discriminator in first-seen order. -/
def TagsExactly (S : Set Text) : Prop :=
  ∀ items field variants, (∀ item ∈ items, item.Within S .univ) →
    infer (.arr items) = .ok (.array (.union (some field) variants)) →
    List.Forall₂ (ExactVariant items field) (items.map (literalAt field)).eraseDups variants

theorem forall₂_pinned_iff {R : Option Text → Shape → Prop} {field : Text} :
    List.Forall₂ R ((rows.map Prod.fst).map (literalAt field)).eraseDups
        ((classes id field rows).map (pinned rows field)) ↔
      ∀ row ∈ rows, R (literalAt field row.1)
        (pinned rows field (classOf id field rows (literalAt field row.1))) := by
  rw [classes, List.map_map, List.map_map, List.forall₂_map_right_iff]
  refine List.forall₂_same.trans ?_
  simp only [List.mem_eraseDups]
  exact List.forall_mem_map

theorem tagsExactly_of_injOn (apart : S.InjOn (Quoted.write .ascii)) : TagsExactly S := by
  intro items field variants values h
  obtain ⟨rows, rfl, eq, each⟩ := exists_inferAll fun v hv => exists_inferred (values v hv)
  have within : ∀ row ∈ rows, row.2.Within (S ∪ {t | t.IsPlain}) :=
    fun row hr => (each row hr).2.within (List.forall_mem_map.1 values row hr)
  rw [infer_arr_eq_ok_iff eq] at h
  obtain ⟨⟨-, first⟩, rfl⟩ := (unify_eq_tagged_iff (fun row hr => (each row hr).2) within).1 h
  have discerns : Discerns canonicalText rows field := by
    simpa using List.find?_some first
  refine forall₂_pinned_iff.2 fun row hr => ?_
  exact exactVariant_pinned (Quoted.injOn_write_union_plain apart) each within discerns hr

/-- A record with a number and a second property. -/
def numbered (key other : Text) (inner : Shape) : Shape :=
  .object [(key, .number), (other, inner)]

theorem canonicalText_numbered {key other : Text}
    (h : Quoted.write .ascii key = Quoted.write .ascii other) :
    (numbered key other (.object [(key, .null)])).canonicalText =
      (numbered key other (.object [(other, .null)])).canonicalText := by
  simp only [canonicalText, formText, numbered, canonical, canonicalFields, Sorting.sortOn,
    Sorting.insertOn, List.foldr_cons, List.foldr_nil]
  split <;>
    simp [formPair, Json.print, Json.printBefore, Json.printItems, Json.printMembers, h]

theorem canonicalText_numbered_ne (key other inner : Text) :
    (numbered key other (.object [(inner, .null)])).canonicalText ≠
      (numbered key other .null).canonicalText := by
  intro same
  have differ : Quoted.write .ascii "object" ≠ Quoted.write .ascii "null" := by decide
  simp only [canonicalText, formText, numbered, canonical, canonicalFields, Sorting.sortOn,
    Sorting.insertOn, List.foldr_cons, List.foldr_nil] at same
  split at same <;>
    simp [formPair, Json.print, Json.printBefore, Json.printItems, Json.printMembers] at same <;>
    exact differ (Quoted.write_append_inj same).1

/-- Three objects with their shapes: the first two share a number, and their shapes differ in a key
below the second one. -/
def lookalikes (key other : Text) : List (Json × Shape) :=
  [(.obj [(key, .int 1), (other, .obj [(key, .null)])],
      numbered key other (.object [(key, .null)])),
    (.obj [(key, .int 1), (other, .obj [(other, .null)])],
      numbered key other (.object [(other, .null)])),
    (.obj [(key, .int 2), (other, .null)], numbered key other .null)]

variable {key other : Text}

theorem within_lookalikes (hk : key ∈ S) (ho : other ∈ S) (differ : key ≠ other) :
    ∀ item ∈ (lookalikes key other).map Prod.fst, item.Within S .univ := by
  have pair : [key, other].Nodup := by simpa using differ
  have single : ∀ {k}, k ∈ S → (Json.obj [(k, .null)]).Within S .univ := fun hk =>
    .obj (List.nodup_singleton _) (by simpa using hk) (by simpa using .null)
  have object : ∀ n {value : Json}, value.Within S .univ →
      (Json.obj [(key, .int n), (other, value)]).Within S .univ := fun n _ h =>
    .obj pair (by simpa using ⟨hk, ho⟩) (by simpa using ⟨.int n, h⟩)
  simpa [lookalikes] using ⟨object 1 (single hk), object 1 (single ho), object 2 .null⟩

theorem infer_lookalikes (differ : key ≠ other) :
    ∀ row ∈ lookalikes key other, infer row.1 = .ok row.2 := by
  have object : ∀ n {value : Json} {s : Shape}, infer value = .ok s →
      infer (.obj [(key, .int n), (other, value)]) = .ok (numbered key other s) := by
    intro n value s eq
    have pair : [key, other].Nodup := by simpa using differ
    rw [infer, inferMembers, infer, inferMembers, eq]
    exact ofFields_eq_ok pair
  simpa [lookalikes] using ⟨object 1 rfl, object 1 rfl, object 2 rfl⟩

theorem literalAt_leading (value : Json) (rest : List (Text × Json)) :
    literalAt key (.obj ((key, value) :: rest)) = value.literalText := by
  simp [literalAt, Json.get?, Json.members?]

theorem discerns_lookalikes (h : Quoted.write .ascii key = Quoted.write .ascii other) :
    Discerns canonicalText (lookalikes key other) key := by
  have same := canonicalText_numbered h
  have differ := canonicalText_numbered_ne key other other
  have texts : Text.ofInt 1 ≠ Text.ofInt 2 := by decide
  constructor
  · simp [lookalikes, literalAt_leading, Json.literalText]
  · simp [lookalikes, literalAt_leading, Json.literalText, same, differ, differ.symm, texts,
      texts.symm]

theorem inferAll_eq_ok (each : ∀ row ∈ rows, infer row.1 = .ok row.2) :
    inferAll (rows.map Prod.fst) = .ok (rows.map Prod.snd) := by
  induction rows with
  | nil => rfl
  | cons row rows ih =>
      rw [List.map_cons, inferAll, each row List.mem_cons_self,
        ih fun r hr => each r (List.mem_cons_of_mem _ hr)]
      rfl

theorem group_lookalikes :
    (classOf id key (lookalikes key other) (some (Text.ofInt 1))).group (lookalikes key other) =
      [numbered key other (.object [(key, .null)]),
        numbered key other (.object [(other, .null)])] := by
  have texts : Text.ofInt 2 ≠ Text.ofInt 1 := by decide
  rw [group_classOf]
  simp [placed, lookalikes, literalAt_leading, Json.literalText, texts]

theorem mergeAll_numbered (differ : key ≠ other) {s t : Shape} (required : s.isOptional = false)
    (required' : t.isOptional = false) :
    mergeAll [numbered key other s, numbered key other t] =
      numbered key other (mergeAll [s, t]) := by
  have records : records? [numbered key other s, numbered key other t] =
      some [[(key, .number), (other, s)], [(key, .number), (other, t)]] := rfl
  have keys : Fields.union ([[(key, Shape.number), (other, s)],
      [(key, .number), (other, t)]].map Fields.keys) = [key, other] := by
    apply Fields.union_cons_eq <;> simp [Fields.keys, differ]
  have number : mergeAll [.number, .number] = .number := (Built.scalar _).mergeAll_eq_self (by simp)
  have plain : Shape.number.isOptional = false := rfl
  rw [mergeAll_of_records records, keys]
  simp [numbered, valuesAt, mergedField, differ, number, plain, required, required',
    unwrap_eq_self plain, unwrap_eq_self required, unwrap_eq_self required']

/-- The merge of the first two shapes holds both keys below the second property. -/
theorem mergeAll_lookalikes_ne (differ : key ≠ other) (s t : Shape) :
    Unification.pin key s (mergeAll [numbered key other (.object [(key, .null)]),
        numbered key other (.object [(other, .null)])]) ≠
      .object (Fields.set [(key, .number), (other, .object [(key, .null)])] key t) := by
  have inner : records? [.object [(key, .null)], .object [(other, .null)]] =
      some [[(key, .null)], [(other, .null)]] := rfl
  have keys : Fields.union [[key], [other]] = [key, other] := by
    simp [Fields.union_eq, List.eraseDups_cons, differ.symm]
  rw [mergeAll_numbered differ rfl rfl]
  simp [numbered, Unification.pin, mergeAll_of_records inner, Fields.set, Fields.keys, keys]

theorem injOn_of_tagsExactly (exactly : TagsExactly S) : S.InjOn (Quoted.write .ascii) := by
  intro key hk other ho h
  by_contra differ
  have values := within_lookalikes hk ho differ
  have each := infer_lookalikes differ
  have inferred : ∀ row ∈ lookalikes key other, Inferred row.1 row.2 := by
    intro row hr
    obtain ⟨s, eq, inferred⟩ := exists_inferred (List.forall_mem_map.1 values row hr)
    cases eq.symm.trans (each row hr)
    exact inferred
  have within : ∀ row ∈ lookalikes key other, row.2.Within (S ∪ {t | t.IsPlain}) :=
    fun row hr => (inferred row hr).within (List.forall_mem_map.1 values row hr)
  have several : 2 ≤ (unique ((lookalikes key other).map Prod.snd)).length := by
    have texts := canonicalText_numbered_ne key other other
    rw [length_unique]
    simp [lookalikes, canonicalText_numbered h, List.eraseDups_cons, texts.symm]
  have first : (leadingKeys ((lookalikes key other).map Prod.fst)).find?
      (fun k => decide (Discerns canonicalText (lookalikes key other) k)) = some key := by
    have leading : leadingKeys ((lookalikes key other).map Prod.fst) = [key, other] := rfl
    rw [leading, List.find?_cons, decide_eq_true (discerns_lookalikes h)]
  have variants := exactly _ key _ values ((infer_arr_eq_ok_iff (inferAll_eq_ok each)).2
    ((unify_eq_tagged_iff inferred within).2 ⟨⟨several, first⟩, rfl⟩))
  obtain ⟨element, value, text, fields, found, -, -, shape, eq⟩ :=
    forall₂_pinned_iff.1 variants _ List.mem_cons_self
  rw [lookalikes, List.map_cons, List.find?_cons_of_pos (by simp)] at found
  cases found
  cases (each _ List.mem_cons_self).symm.trans shape
  rw [literalAt_leading, Json.literalText, pinned, group_lookalikes] at eq
  exact mergeAll_lookalikes_ne differ _ _ eq

/-- Every tree and others of its form merge into it. Over exactly the sets of texts that spellings
tell apart, among them every set of texts without split pairs, the variants of tagged unions are
exact. -/
theorem mergesToFirst_and_tagsExactly (s : Shape) (S : Set Text) :
    (s.Built → s.MergesToFirst) ∧ (TagsExactly S ↔ S.InjOn (Quoted.write .ascii)) ∧
      ((∀ t ∈ S, t.Unsplit) → TagsExactly S) :=
  ⟨fun built => built.mergesToFirst, ⟨injOn_of_tagsExactly, tagsExactly_of_injOn⟩,
    fun unsplit => tagsExactly_of_injOn (Quoted.injOn_write_of_unsplit unsplit)⟩

/-- The second record orders its properties and the variants below an option differently. -/
theorem mergesToFirst_reordered :
    mergeRecords [.object [("b", .optional (.union none [.number, .string])), ("a", .null)],
        .object [("a", .null), ("b", .optional (.union none [.string, .number]))]] =
      .ok (.object [("b", .optional (.union none [.number, .string])), ("a", .null)]) := by
  have union : (Shape.union none [.number, .string]).Built :=
    .union (by simpa using ⟨.scalar _, .scalar _⟩)
  have built : (Shape.object [("b", .optional (.union none [.number, .string])),
      ("a", .null)]).Built :=
    .object (by decide) (by simpa using ⟨.optional rfl union, .scalar _⟩)
  refine ((mergesToFirst_and_tagsExactly _ ∅).1 built _ ?_).2 rfl
  rw [List.forall_mem_singleton]
  decide +kernel

/-- Two elements share a literal and have keys of one spelling. The variant for them holds both
keys, and is not the shape of the first with the discriminator pinned. -/
theorem infer_splitPair_inexact :
    ∃ first second, infer (.arr [.obj [("t", .str "a"), (.splitPair, .null)],
        .obj [("t", .str "a"), (.wholePair, .null)], .obj [("t", .str "b")]]) =
        .ok (.array (.union (some "t") [first, second])) ∧
      infer (.obj [("t", .str "a"), (.splitPair, .null)]) =
        .ok (.object [("t", .string), (.splitPair, .null)]) ∧
      first ≠ .object (Fields.set [("t", .string), (.splitPair, .null)] "t"
        (.literal "a" "string")) :=
  ⟨.object [("t", .literal "a" "string"), (.splitPair, .optional .null),
      (.wholePair, .optional .null)], .object [("t", .literal "b" "string")],
    by decide +kernel, by decide +kernel, by decide +kernel⟩

end Shape

end JsonShapes
