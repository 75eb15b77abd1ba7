import JsonShapes.Proofs.Inferring
import JsonShapes.Proofs.UpperBound

/-!
# Merging regards its shapes as a set

Two lists of shapes are alike if every shape of the one has the form of a shape of the other. So
are permutations of a list, lists with repetitions added or dropped, and lists in which shapes are
replaced by others of their form. Alike lists merge into shapes of one form, over exactly the sets
of texts that spellings tell apart, and samples that are the same as sets have one fingerprint.

The induction follows the merge of the first list and carries likeness to the parts of both: to the
values under each key, to the distinct shapes, to the element types of arrays and to the
alternatives of unions.
-/

namespace JsonShapes

namespace Shape

/-- Every shape of the first list has the form of one of the second. -/
def Represented (xs ys : List Shape) : Prop := ∀ x ∈ xs, ∃ y ∈ ys, x.canonical = y.canonical

/-- The lists hold the same shapes up to form, in any order and any number. -/
def Alike (xs ys : List Shape) : Prop := Represented xs ys ∧ Represented ys xs

theorem Represented.trans {xs ys zs : List Shape} (h : Represented xs ys)
    (k : Represented ys zs) : Represented xs zs := by
  intro x hx
  obtain ⟨y, hy, first⟩ := h x hx
  obtain ⟨z, hz, second⟩ := k y hy
  exact ⟨z, hz, first.trans second⟩

namespace Alike

variable {xs ys zs : List Shape}

theorem symm (h : Alike xs ys) : Alike ys xs := ⟨h.2, h.1⟩

theorem trans (h : Alike xs ys) (k : Alike ys zs) : Alike xs zs :=
  ⟨h.1.trans k.1, k.2.trans h.2⟩

end Alike

theorem fields?_isSome_of_canonical_eq {a b : Shape} (h : a.canonical = b.canonical)
    (record : b.fields?.isSome = true) : a.fields?.isSome = true := by
  cases b with
  | object fields =>
      obtain ⟨others, rfl, -⟩ := canonical_eq_object_iff.1 h
      rfl
  | _ => cases record

theorem element?_isSome_of_canonical_eq {a b : Shape} (h : a.canonical = b.canonical)
    (array : b.element?.isSome = true) : a.element?.isSome = true := by
  cases b with
  | array element =>
      obtain ⟨other, rfl, -⟩ := canonical_eq_array_iff.1 h
      rfl
  | _ => cases array

theorem required_canonical_eq {a b : Shape} (h : a.canonical = b.canonical) :
    a.required.canonical = b.required.canonical := by
  fun_induction required a generalizing b with
  | case1 inner ih =>
      obtain ⟨other, rfl, same⟩ := canonical_eq_optional_iff.1 h.symm
      exact ih (b := other) same.symm
  | case2 a required =>
      cases b with
      | optional inner =>
          obtain ⟨other, rfl, -⟩ := canonical_eq_optional_iff.1 h
          exact absurd rfl (required other)
      | _ => exact h

theorem asOptional_canonical_eq {a b : Shape} (h : a.canonical = b.canonical) :
    a.asOptional.canonical = b.asOptional.canonical :=
  canonical_eq_optional_iff.2 ⟨_, rfl, required_canonical_eq h⟩

namespace Represented

variable {xs ys : List Shape}

theorem valuesAt {records others : List (List (Text × Shape))}
    (h : Represented (records.map Shape.object) (others.map Shape.object)) (key : Text) :
    Represented ((Shape.valuesAt records key).map unwrap)
      ((Shape.valuesAt others key).map unwrap) := by
  intro x hx
  obtain ⟨fields, hf, s, found, rfl⟩ := mem_valuesAt_unwrap.1 hx
  obtain ⟨_, ho, same⟩ := h _ (List.mem_map.2 ⟨fields, hf, rfl⟩)
  obtain ⟨fields', hf', rfl⟩ := List.mem_map.1 ho
  obtain ⟨t, foundThere, form⟩ := exists_get?_of_canonical_eq same found
  exact ⟨t.unwrap, mem_valuesAt_unwrap.2 ⟨fields', hf', t, foundThere, rfl⟩,
    unwrap_canonical_eq form⟩

theorem of_arrays {elements others : List Shape}
    (h : Represented (elements.map Shape.array) (others.map Shape.array)) :
    Represented elements others := by
  intro x hx
  obtain ⟨_, ho, same⟩ := h _ (List.mem_map.2 ⟨x, hx, rfl⟩)
  obtain ⟨y, hy, rfl⟩ := List.mem_map.1 ho
  obtain ⟨_, eq, form⟩ := canonical_eq_array_iff.1 same
  cases eq
  exact ⟨y, hy, form⟩

theorem alternatives (h : Represented xs ys) :
    Represented (xs.flatMap Shape.alternatives) (ys.flatMap Shape.alternatives) := by
  intro t ht
  obtain ⟨x, hx, ht⟩ := List.mem_flatMap.1 ht
  obtain ⟨y, hy, form⟩ := h x hx
  have offered : ∃ u ∈ Shape.alternatives y, t.canonical = u.canonical := by
    by_cases union : ∃ variants, x = .union none variants
    · obtain ⟨variants, rfl⟩ := union
      obtain ⟨others, rfl, -⟩ := canonical_eq_union_iff.1 form.symm
      exact mem_variants_of_canonical_eq form ht
    · rw [alternatives_eq_singleton fun variants eq => union ⟨variants, eq⟩,
        List.mem_singleton] at ht
      rw [alternatives_eq_singleton, ht]
      · exact ⟨y, List.mem_singleton.2 rfl, form⟩
      · rintro variants rfl
        obtain ⟨others, rfl, -⟩ := canonical_eq_union_iff.1 form
        exact union ⟨others, rfl⟩
  obtain ⟨u, hu, same⟩ := offered
  exact ⟨u, List.mem_flatMap.2 ⟨y, hy, hu⟩, same⟩

theorem records_isSome (h : Represented xs ys) (records : (records? ys).isSome = true) :
    (records? xs).isSome = true := by
  rw [records?_isSome_iff] at records ⊢
  intro x hx
  obtain ⟨y, hy, same⟩ := h x hx
  exact fields?_isSome_of_canonical_eq same (records y hy)

theorem elements_isSome (h : Represented xs ys) (arrays : (elements? ys).isSome = true) :
    (elements? xs).isSome = true := by
  rw [elements?_isSome_iff] at arrays ⊢
  intro x hx
  obtain ⟨y, hy, same⟩ := h x hx
  exact element?_isSome_of_canonical_eq same (arrays y hy)

theorem append {xs' ys' : List Shape} (h : Represented xs ys) (k : Represented xs' ys') :
    Represented (xs ++ xs') (ys ++ ys') := by
  intro s hs
  rcases List.mem_append.1 hs with here | there
  · obtain ⟨t, ht, form⟩ := h s here
    exact ⟨t, List.mem_append_left _ ht, form⟩
  · obtain ⟨t, ht, form⟩ := k s there
    exact ⟨t, List.mem_append_right _ ht, form⟩

end Represented

namespace Alike

variable {S : Set Text} {xs ys : List Shape}

theorem append {xs' ys' : List Shape} (h : Alike xs ys) (k : Alike xs' ys') :
    Alike (xs ++ xs') (ys ++ ys') :=
  ⟨h.1.append k.1, h.2.append k.2⟩

theorem pair {a a' b b' : Shape} (h : a.canonical = a'.canonical)
    (k : b.canonical = b'.canonical) : Alike [a, b] [a', b'] := by
  constructor <;> simp [Represented, h, k]

theorem records_isSome (h : Alike xs ys) (records : (records? xs).isSome = true) :
    (records? ys).isSome = true :=
  h.2.records_isSome records

theorem records_none (h : Alike xs ys) (mixed : records? xs = none) : records? ys = none := by
  rw [← Option.not_isSome_iff_eq_none] at mixed ⊢
  exact fun records => mixed (h.symm.records_isSome records)

theorem elements_isSome (h : Alike xs ys) (arrays : (elements? xs).isSome = true) :
    (elements? ys).isSome = true :=
  h.2.elements_isSome arrays

theorem elements_none (h : Alike xs ys) (mixed : elements? xs = none) : elements? ys = none := by
  rw [← Option.not_isSome_iff_eq_none] at mixed ⊢
  exact fun arrays => mixed (h.symm.elements_isSome arrays)

/-- The values under a key of alike records are alike. -/
theorem valuesAt {records others : List (List (Text × Shape))}
    (h : Alike (records.map Shape.object) (others.map Shape.object)) (key : Text) :
    Alike ((Shape.valuesAt records key).map unwrap) ((Shape.valuesAt others key).map unwrap) :=
  ⟨h.1.valuesAt key, h.2.valuesAt key⟩

theorem mem_union {records others : List (List (Text × Shape))}
    (h : Represented (records.map Shape.object) (others.map Shape.object)) {key : Text}
    (member : key ∈ Fields.union (records.map Fields.keys)) :
    key ∈ Fields.union (others.map Fields.keys) := by
  obtain ⟨fields, hf, s, found⟩ := exists_get?_of_mem_union member
  obtain ⟨_, ho, same⟩ := h _ (List.mem_map.2 ⟨fields, hf, rfl⟩)
  obtain ⟨fields', hf', rfl⟩ := List.mem_map.1 ho
  obtain ⟨t, foundThere, -⟩ := exists_get?_of_canonical_eq same found
  exact mem_union_of_get? hf' foundThere

/-- A property that one of the records does not require is not required by one alike to it. -/
theorem exists_lax {records others : List (List (Text × Shape))}
    (h : Represented (records.map Shape.object) (others.map Shape.object)) {key : Text}
    (lax : ∃ fields ∈ records, ∀ s, Fields.get? fields key = some s → s.isOptional = true) :
    ∃ fields ∈ others, ∀ s, Fields.get? fields key = some s → s.isOptional = true := by
  obtain ⟨fields, hf, optional⟩ := lax
  obtain ⟨_, ho, same⟩ := h _ (List.mem_map.2 ⟨fields, hf, rfl⟩)
  obtain ⟨fields', hf', rfl⟩ := List.mem_map.1 ho
  refine ⟨fields', hf', fun t foundThere => ?_⟩
  obtain ⟨s, found, form⟩ := exists_get?_of_canonical_eq same.symm foundThere
  rw [isOptional_eq_of_canonical_eq form]
  exact optional s found

/-- A property is optional in both of two alike merges or in neither. -/
theorem mergedField_canonical_eq {records others : List (List (Text × Shape))}
    (h : Alike (records.map Shape.object) (others.map Shape.object)) (key : Text) {a b : Shape}
    (same : a.canonical = b.canonical) :
    (mergedField records.length (Shape.valuesAt records key) a).canonical =
      (mergedField others.length (Shape.valuesAt others key) b).canonical := by
  rcases mergedField_cases records key a with ⟨lax, eq⟩ | ⟨strict, eq⟩
  · rcases mergedField_cases others key b with ⟨-, eq'⟩ | ⟨strict, -⟩
    · rw [eq, eq', asOptional_canonical_eq same]
    · obtain ⟨fields, hf, optional⟩ := exists_lax h.1 lax
      obtain ⟨s, found, required⟩ := strict fields hf
      simp [optional s found] at required
  · rcases mergedField_cases others key b with ⟨lax, -⟩ | ⟨-, eq'⟩
    · obtain ⟨fields, hf, optional⟩ := exists_lax h.2 lax
      obtain ⟨s, found, required⟩ := strict fields hf
      simp [optional s found] at required
    · rw [eq, eq', same]

/-- Alike lists of arrays have alike element types. -/
theorem of_arrays {elements others : List Shape}
    (h : Alike (elements.map Shape.array) (others.map Shape.array)) : Alike elements others :=
  ⟨h.1.of_arrays, h.2.of_arrays⟩

/-- The known ones of alike element types are alike. -/
theorem informative {elements others : List Shape} (h : Alike elements others) :
    Alike (Shape.informative elements) (Shape.informative others) := by
  have half : ∀ {elements others : List Shape}, Alike elements others →
      Represented (Shape.informative elements) (Shape.informative others) := by
    intro elements others h x hx
    obtain ⟨hx, kept⟩ := mem_informative_iff.1 hx
    obtain ⟨y, hy, form⟩ := h.1 x hx
    refine ⟨y, mem_informative_iff.2 ⟨hy, ?_⟩, form⟩
    rcases kept with known | none
    · left
      rintro rfl
      exact known (canonical_eq_scalar_iff.1 form)
    · right
      intro z hz
      obtain ⟨e, he, same⟩ := h.2 z hz
      rw [none e he] at same
      exact canonical_eq_scalar_iff.1 same
  exact ⟨half h, half h.symm⟩

/-- Alike shapes offer alike alternatives. -/
theorem alternatives (h : Alike xs ys) :
    Alike (xs.flatMap Shape.alternatives) (ys.flatMap Shape.alternatives) :=
  ⟨h.1.alternatives, h.2.alternatives⟩

/-- A list is alike to its distinct shapes. -/
theorem unique_right (apart : S.InjOn (Quoted.write .ascii)) (within : ∀ x ∈ xs, x.Within S) :
    Alike xs (unique xs) := by
  constructor
  · intro x hx
    obtain ⟨t, ht, sameText⟩ := exists_mem_unique hx
    refine ⟨t, ht, ?_⟩
    exact (canonicalText_eq_iff apart (within x hx) (within t (mem_of_mem_unique ht))).1
      sameText.symm
  · intro t ht
    exact ⟨t, mem_of_mem_unique ht, rfl⟩

theorem unique (apart : S.InjOn (Quoted.write .ascii)) (withinX : ∀ x ∈ xs, x.Within S)
    (withinY : ∀ y ∈ ys, y.Within S) (h : Alike xs ys) :
    Alike (Shape.unique xs) (Shape.unique ys) :=
  (unique_right apart withinX).symm.trans (h.trans (unique_right apart withinY))

/-- Distinct shapes that are alike to a single one are a single one. -/
theorem eq_singleton {s : Shape} {zs : List Shape} (h : Alike [s] (Shape.unique zs)) :
    ∃ t, Shape.unique zs = [t] ∧ s.canonical = t.canonical := by
  obtain ⟨t, ht, form⟩ := h.1 s (List.mem_singleton.2 rfl)
  refine ⟨t, unique_eq_singleton ht fun u hu => ?_, form⟩
  obtain ⟨r, hr, same⟩ := h.2 u hu
  rw [List.mem_singleton.1 hr, form] at same
  rw [canonicalText, canonicalText, same]

theorem ne_singleton {zs ws : List Shape} (h : Alike (Shape.unique zs) (Shape.unique ws))
    (several : ∀ s, Shape.unique zs ≠ [s]) : ∀ t, Shape.unique ws ≠ [t] := by
  intro t single
  rw [single] at h
  obtain ⟨s, alone, -⟩ := h.symm.eq_singleton
  exact several s alone

/-- Unions of alike alternatives have one form. -/
theorem untagged_canonical_eq_of_alternatives (apart : S.InjOn (Quoted.write .ascii))
    (withinX : ∀ x ∈ xs, x.Within S) (withinY : ∀ y ∈ ys, y.Within S)
    (h : Alike (xs.flatMap Shape.alternatives) (ys.flatMap Shape.alternatives)) :
    (untagged xs).canonical = (untagged ys).canonical := by
  have variants := h.unique apart (Within.flatMap_alternatives withinX)
    (Within.flatMap_alternatives withinY)
  rw [untagged, untagged]
  split
  · next s single =>
      rw [single] at variants
      obtain ⟨t, single', form⟩ := variants.eq_singleton
      rw [single', form]
  · next several =>
      split
      · next t single => exact absurd single (variants.ne_singleton several t)
      · exact canonical_union_eq (nodup_unique _) (nodup_unique _) variants.1 variants.2

/-- Unions of alike shapes have one form. -/
theorem untagged_canonical_eq (apart : S.InjOn (Quoted.write .ascii))
    (withinX : ∀ x ∈ xs, x.Within S) (withinY : ∀ y ∈ ys, y.Within S) (h : Alike xs ys) :
    (untagged xs).canonical = (untagged ys).canonical :=
  untagged_canonical_eq_of_alternatives apart withinX withinY h.alternatives

/-- Alike lists merge into shapes of one form. -/
theorem mergeAll_canonical_eq (apart : S.InjOn (Quoted.write .ascii))
    (withinX : ∀ x ∈ xs, x.Within S) (withinY : ∀ y ∈ ys, y.Within S) (h : Alike xs ys) :
    (mergeAll xs).canonical = (mergeAll ys).canonical := by
  induction xs using mergeInduction generalizing ys with
  | records records ih =>
      obtain ⟨others, eq⟩ := Option.isSome_iff_exists.1
        (h.records_isSome (by rw [records?_eq_some_iff.2 rfl]; rfl))
      cases records?_eq_some_iff.1 eq
      rw [mergeAll_of_records (records?_eq_some_iff.2 rfl), mergeAll_of_records eq]
      refine canonical_object_eq (by rw [Fields.keys_map_keys]; exact Fields.nodup_union _)
        (by rw [Fields.keys_map_keys]; exact Fields.nodup_union _) fun key => ?_
      rw [Fields.get?_map_keys, Fields.get?_map_keys]
      by_cases member : key ∈ Fields.union (records.map Fields.keys)
      · rw [if_pos member, if_pos (mem_union h.1 member), Option.map_some, Option.map_some]
        exact congrArg some (mergedField_canonical_eq h key (ih key member
          (Within.valuesAt withinX key) (Within.valuesAt withinY key) (h.valuesAt key)))
      · rw [if_neg member, if_neg fun there => member (mem_union h.2 there)]
  | only xs s hr single =>
      rw [mergeAll_of_unique hr single]
      have distinct := h.unique apart withinX withinY
      rw [single] at distinct
      obtain ⟨t, single', form⟩ := distinct.eq_singleton
      rw [mergeAll_of_unique (h.records_none hr) single', form]
  | elements xs elements hr several arrays ih =>
      have distinct := h.unique apart withinX withinY
      have several' := distinct.ne_singleton several
      obtain ⟨others, eq⟩ := Option.isSome_iff_exists.1
        (distinct.elements_isSome (by rw [elements?_eq_some_iff.2 arrays]; rfl))
      have arrays' := elements?_eq_some_iff.1 eq
      rw [mergeAll_of_elements hr several (elements?_eq_some_iff.2 arrays),
        mergeAll_of_elements (h.records_none hr) several' eq]
      rw [arrays, arrays'] at distinct
      refine canonical_eq_array_iff.2 ⟨_, rfl, ih ?_ ?_ distinct.of_arrays.informative⟩
      · exact Within.informative (arrays ▸ Within.unique withinX)
      · exact Within.informative (arrays' ▸ Within.unique withinY)
  | distinct xs hr several he =>
      have distinct := h.unique apart withinX withinY
      have several' := distinct.ne_singleton several
      rw [mergeAll_of_distinct hr several he,
        mergeAll_of_distinct (h.records_none hr) several' (distinct.elements_none he)]
      exact distinct.untagged_canonical_eq apart (Within.unique withinX) (Within.unique withinY)

end Alike

variable {S : Set Text}

/-- Both computations succeed, with shapes of one form. -/
def SameForm (a b : Except Fault Shape) : Prop :=
  ∃ m n, a = .ok m ∧ b = .ok n ∧ m.canonical = n.canonical

/-- Samples that are the same as sets have shapes of one form. -/
theorem inferSamples_sameForm (apart : S.InjOn (Quoted.write .ascii))
    {xs ys : List Json} (nonemptyX : xs ≠ []) (nonemptyY : ys ≠ [])
    (withinX : ∀ v ∈ xs, v.Within S .univ) (withinY : ∀ v ∈ ys, v.Within S .univ)
    (same : ∀ v, v ∈ xs ↔ v ∈ ys) : SameForm (inferSamples xs) (inferSamples ys) := by
  obtain ⟨rows, rfl, eachX, shapesX, eqX⟩ := exists_inferSamples nonemptyX withinX
  obtain ⟨others, rfl, eachY, shapesY, eqY⟩ := exists_inferSamples nonemptyY withinY
  -- a value that is in both lists has one shape
  have half : ∀ {rows others : List (Json × Shape)},
      (∀ row ∈ rows, infer row.1 = .ok row.2) → (∀ row ∈ others, infer row.1 = .ok row.2) →
      (∀ v, v ∈ rows.map Prod.fst → v ∈ others.map Prod.fst) →
      Represented (rows.map Prod.snd) (others.map Prod.snd) := by
    intro rows others eachX eachY included s hs
    obtain ⟨row, hr, rfl⟩ := List.mem_map.mp hs
    obtain ⟨other, ho, sameValue⟩ :=
      List.mem_map.mp (included row.1 (List.mem_map.mpr ⟨row, hr, rfl⟩))
    have sameShape : row.2 = other.2 :=
      Except.ok.inj ((eachX row hr).symm.trans (sameValue ▸ eachY other ho))
    exact ⟨other.2, List.mem_map.mpr ⟨other, ho, rfl⟩, congrArg canonical sameShape⟩
  have alike : Alike (rows.map Prod.snd) (others.map Prod.snd) :=
    ⟨half (fun r hr => (eachX r hr).1) (fun r hr => (eachY r hr).1) fun v => (same v).mp,
      half (fun r hr => (eachY r hr).1) (fun r hr => (eachX r hr).1) fun v => (same v).mpr⟩
  exact ⟨_, _, eqX, eqY,
    alike.mergeAll_canonical_eq (Quoted.injOn_write_union_plain apart) shapesX shapesY⟩

/-- Merging trees over the given texts regards them as a set, whether they are merged as shapes or
as records, and so does inferring the shape of samples. -/
structure MergesAsSets (S : Set Text) : Prop where
  shapes : ∀ xs ys : List Shape, xs ≠ [] → ys ≠ [] → (∀ x ∈ xs, x.Within S) →
    (∀ y ∈ ys, y.Within S) → Alike xs ys → SameForm (mergeShapes xs) (mergeShapes ys)
  records : ∀ xs ys : List Shape, xs ≠ [] → ys ≠ [] → (∀ x ∈ xs, x.Within S) →
    (∀ y ∈ ys, y.Within S) → (∀ x ∈ xs, x.fields?.isSome = true) →
    (∀ y ∈ ys, y.fields?.isSome = true) → Alike xs ys →
    SameForm (mergeRecords xs) (mergeRecords ys)
  samples : ∀ xs ys : List Json, xs ≠ [] → ys ≠ [] → (∀ v ∈ xs, v.Within S .univ) →
    (∀ v ∈ ys, v.Within S .univ) → (∀ v, v ∈ xs ↔ v ∈ ys) →
    ∃ m n, inferSamples xs = .ok m ∧ inferSamples ys = .ok n ∧ m.fingerprint = n.fingerprint

theorem mergesAsSets_of_injOn (apart : S.InjOn (Quoted.write .ascii)) : MergesAsSets S where
  shapes xs ys nonemptyX nonemptyY withinX withinY alike :=
    ⟨_, _, mergeShapes_eq_ok nonemptyX withinX, mergeShapes_eq_ok nonemptyY withinY,
      alike.mergeAll_canonical_eq apart withinX withinY⟩
  records xs ys nonemptyX nonemptyY withinX withinY recordsX recordsY alike :=
    ⟨_, _, mergeRecords_eq_ok nonemptyX withinX recordsX,
      mergeRecords_eq_ok nonemptyY withinY recordsY,
      alike.mergeAll_canonical_eq apart withinX withinY⟩
  samples xs ys nonemptyX nonemptyY withinX withinY same := by
    obtain ⟨m, n, eqX, eqY, form⟩ :=
      inferSamples_sameForm apart nonemptyX nonemptyY withinX withinY same
    refine ⟨m, n, eqX, eqY, ?_⟩
    rw [fingerprint, fingerprint, canonicalText, canonicalText, form]

theorem arraysOf_canonical_inj {key other : Text}
    (h : (arraysOf key).canonical = (arraysOf other).canonical) : key = other := by
  obtain ⟨_, eq, records⟩ := canonical_eq_array_iff.1 h
  cases eq
  obtain ⟨f, hf, sameKey, -⟩ := mem_fields_of_canonical_eq records List.mem_cons_self
  rw [List.mem_singleton.1 hf] at sameKey
  exact sameKey

/-- Merging regards its shapes as a set over exactly the sets of texts that spellings tell apart,
among them every set of texts without split pairs. -/
theorem mergesAsSets_iff_injOn_write (S : Set Text) :
    (MergesAsSets S ↔ S.InjOn (Quoted.write .ascii)) ∧
      ((∀ t ∈ S, t.Unsplit) → MergesAsSets S) := by
  refine ⟨⟨fun asSets key hk other ho h => ?_, mergesAsSets_of_injOn⟩,
    fun unsplit => mergesAsSets_of_injOn (Quoted.injOn_write_of_unsplit unsplit)⟩
  -- the two orders of two arrays that are taken for the same each keep their first
  have within : ∀ {a b : Text}, a ∈ S → b ∈ S →
      ∀ s ∈ [arraysOf a, arraysOf b], s.Within S := by
    intro a b ha hb
    simpa using ⟨Within.arraysOf ha, Within.arraysOf hb⟩
  have alike : Alike [arraysOf key, arraysOf other] [arraysOf other, arraysOf key] := by
    constructor <;> simp [Represented]
  obtain ⟨m, n, first, second, form⟩ :=
    asSets.shapes _ _ (by simp) (by simp) (within hk ho) (within ho hk) alike
  rw [mergeShapes_eq_ok (by simp) (within hk ho), mergeAll_arraysOf h] at first
  rw [mergeShapes_eq_ok (by simp) (within ho hk), mergeAll_arraysOf h.symm] at second
  cases first
  cases second
  exact arraysOf_canonical_inj form

/-- Three samples have shapes of different canonical texts in two of their orders. -/
theorem inferSamples_splitPair_order :
    ∃ m n, inferSamples [.arrayOf .splitPair, .arrayOf .wholePair,
        .arr [.obj [(.splitPair, .null), ("z", .null)]]] = .ok m ∧
      inferSamples [.arrayOf .wholePair, .arrayOf .splitPair,
        .arr [.obj [(.splitPair, .null), ("z", .null)]]] = .ok n ∧
      m.canonicalText ≠ n.canonicalText :=
  ⟨.array (.object [(.splitPair, .null), ("z", .optional .null)]),
    .array (.object [(.wholePair, .optional .null), (.splitPair, .optional .null),
      ("z", .optional .null)]),
    by decide +kernel, by decide +kernel, by decide +kernel⟩

end Shape

end JsonShapes
