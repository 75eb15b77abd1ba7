import JsonShapes.Proofs.DistinctItems
import JsonShapes.Proofs.MergedParts

/-!
# Merging again changes nothing

A merge absorbs its parts: merged once more with some of the shapes that it came from, it keeps its
form. The second merge rarely takes the way of the first. An array of a union meets an array of one
of the alternatives, an element type that was unknown has been dropped, a union meets one of the
alternatives into which it was dissolved, and an optional property meets a required one.

The induction follows the first merge. What it needs of the shapes is that they are tidy: then a
merge is never an option, is unknown only if one of its parts is, and an untagged union of several
shapes is never just one of their alternatives.
-/

namespace JsonShapes

namespace Shape

/-- A tidy tree. No record repeats a key, an option stands directly at a property only, and a union
has at least two variants of different forms. An untagged union has no untagged union among its
variants. -/
inductive Tidy : Shape → Prop
  | scalar (kind : Scalar) : Tidy (.scalar kind)
  | literal (value jsonType : Text) : Tidy (.literal value jsonType)
  | object {fields : List (Text × Shape)} (distinct : (Fields.keys fields).Nodup)
      (below : ∀ f ∈ fields, Tidy f.2.unwrap) : Tidy (.object fields)
  | array {element : Shape} (below : Tidy element) : Tidy (.array element)
  | union {discriminator : Option Text} {variants : List Shape} (several : 2 ≤ variants.length)
      (distinct : (variants.map canonical).Nodup)
      (flat : discriminator = none → ∀ s ∈ variants, ∀ inner, s ≠ .union none inner)
      (below : ∀ s ∈ variants, Tidy s) : Tidy (.union discriminator variants)

theorem Tidy.isOptional_eq_false {s : Shape} (h : s.Tidy) : s.isOptional = false := by
  cases h <;> rfl

theorem Tidy.of_mem_heldAt {records : List (List (Text × Shape))}
    (tidy : ∀ s ∈ records.map Shape.object, s.Tidy) {key : Text} {s : Shape}
    (hs : s ∈ heldAt records key) : s.Tidy := by
  obtain ⟨fields, hf, t, found, rfl⟩ := mem_valuesAt_unwrap.1 hs
  cases tidy _ (List.mem_map.2 ⟨fields, hf, rfl⟩) with
  | object distinct below => exact below _ (Fields.mem_of_get?_eq_some found)

variable {S : Set Text} {xs ys : List Shape}

/-- Several distinct tidy shapes offer several distinct alternatives. -/
theorem unique_alternatives_ne (apart : S.InjOn (Quoted.write .ascii)) (nonempty : xs ≠ [])
    (within : ∀ x ∈ xs, x.Within S) (tidy : ∀ x ∈ xs, x.Tidy)
    (several : ∀ s, unique xs ≠ [s]) (t : Shape) :
    unique ((unique xs).flatMap alternatives) ≠ [t] := by
  intro single
  -- suppose that all alternatives have one form; then no shape is an untagged union
  have sameForm : ∀ x ∈ unique xs, ∀ a ∈ alternatives x, a.canonical = t.canonical := by
    intro x hx a ha
    obtain ⟨u, hu, form⟩ := (Alike.unique_right apart
      (Within.flatMap_alternatives (Within.unique within))).1 a (List.mem_flatMap.2 ⟨x, hx, ha⟩)
    rw [single, List.mem_singleton] at hu
    rwa [hu] at form
  have dissolved : ∀ x ∈ unique xs, ∀ variants, x ≠ .union none variants := by
    rintro _ hx variants rfl
    cases tidy _ (mem_of_mem_unique hx) with
    | union two distinct flat below =>
        have same : ∀ s ∈ variants, s.canonical = t.canonical := sameForm _ hx
        rw [List.map_congr_left same, List.map_const'] at distinct
        exact absurd (List.nodup_replicate.1 distinct) (by omega)
  have sameForms : ∀ x ∈ unique xs, x.canonical = t.canonical := by
    intro x hx
    apply sameForm x hx x
    rw [alternatives_eq_singleton (dissolved x hx)]
    exact List.mem_singleton.2 rfl
  obtain ⟨x, hx⟩ := List.exists_mem_of_ne_nil _ (unique_ne_nil nonempty)
  refine several x (unique_eq_singleton hx fun u hu => ?_)
  rw [canonicalText, canonicalText, sameForms u hu, sameForms x hx]

/-- A merge of tidy shapes is no option, and it is unknown only if one of the shapes is. -/
theorem mergeAll_root (apart : S.InjOn (Quoted.write .ascii)) (nonempty : xs ≠ [])
    (within : ∀ x ∈ xs, x.Within S) (tidy : ∀ x ∈ xs, x.Tidy) :
    (mergeAll xs).isOptional = false ∧
      ((∀ x ∈ xs, x ≠ .unknown) → mergeAll xs ≠ .unknown) := by
  induction xs using mergeInduction with
  | records records ih =>
      rw [mergeAll_objects]
      simp [isOptional]
  | only xs s hr single =>
      have member := mem_of_unique_eq_singleton single
      rw [mergeAll_of_unique hr single]
      exact ⟨(tidy s member).isOptional_eq_false, fun known => known s member⟩
  | elements xs elements hr several arrays ih =>
      rw [mergeAll_of_elements hr several (elements?_eq_some_iff.2 arrays)]
      simp [isOptional]
  | distinct xs hr several he =>
      rw [mergeAll_of_distinct hr several he,
        untagged_eq_union (unique_alternatives_ne apart nonempty within tidy several)]
      simp [isOptional]

/-- Records merge again into a record of the same form, if the values at each key do. -/
theorem mergedFields_cons_canonical_eq {records others : List (List (Text × Shape))}
    (nonempty : records ≠ [])
    (part : Represented (others.map Shape.object) (records.map Shape.object))
    (required : ∀ key ∈ Fields.union (records.map Fields.keys),
      (mergeAll (heldAt records key)).isOptional = false)
    (values : ∀ key ∈ Fields.union (records.map Fields.keys),
      (mergeAll (mergeAll (heldAt records key) :: heldAt others key)).canonical =
        (mergeAll (heldAt records key)).canonical) :
    (Shape.object (mergedFields (mergedFields records :: others))).canonical =
      (Shape.object (mergedFields records)).canonical := by
  have keys : ∀ key, key ∈ Fields.union ((mergedFields records :: others).map Fields.keys) ↔
      key ∈ Fields.union (records.map Fields.keys) := by
    intro key
    rw [List.map_cons, keys_mergedFields]
    constructor
    · intro listed
      obtain ⟨ks, hk, member⟩ := Fields.mem_union.1 listed
      rcases List.mem_cons.1 hk with rfl | there
      · exact member
      · exact Alike.mem_union part (Fields.mem_union.2 ⟨ks, there, member⟩)
    · exact fun listed => Fields.mem_union.2 ⟨_, List.mem_cons_self, listed⟩
  refine mergedFields_canonical_eq keys fun key listed => ?_
  have listed := (keys key).1 listed
  have split : mergedFields records :: others = [mergedFields records] ++ others := rfl
  apply mergedAt_canonical_eq
  · rw [split, lax_append, lax_mergedFields (required key listed) nonempty]
    exact or_iff_left_of_imp (Alike.exists_lax part)
  · rw [split, heldAt_append, heldAt_singleton_of_some (get?_mergedFields listed),
      unwrap_mergedAt (required key listed)]
    exact values key listed

/-- What is merged again of the element types of arrays is known as far as the merge is. -/
theorem informative_cons_eq {elements others : List Shape} {merged : Shape}
    (part : Represented others elements)
    (known : merged = .unknown → ∀ e ∈ elements, e = .unknown) :
    ∃ rest, informative (merged :: others) = merged :: rest ∧
      Represented rest (informative elements) ∧ ∀ e ∈ rest, e ∈ others := by
  by_cases none : merged = .unknown
  · -- nothing is known at all
    have all := known none
    have all' : ∀ e ∈ others, e = .unknown := by
      intro e he
      obtain ⟨e', he', form⟩ := part e he
      rw [all e' he'] at form
      exact canonical_eq_scalar_iff.1 form
    have empty := filter_eq_nil_of_unknown (List.forall_mem_cons.2 ⟨none, all'⟩)
    refine ⟨others, by rw [informative, empty], fun e he => ?_, fun e he => he⟩
    obtain ⟨e', he', form⟩ := part e he
    exact ⟨e', mem_informative_iff.2 ⟨he', .inr all⟩, form⟩
  · refine ⟨others.filter (fun s => s ≠ .unknown), ?_, fun e he => ?_, fun e he => ?_⟩
    · rw [informative_eq_filter ⟨merged, List.mem_cons_self, none⟩,
        List.filter_cons_of_pos (by simpa using none)]
    · obtain ⟨he, notUnknown⟩ := List.mem_filter.1 he
      obtain ⟨e', he', form⟩ := part e he
      refine ⟨e', mem_informative_iff.2 ⟨he', .inl ?_⟩, form⟩
      rintro rfl
      simp [canonical_eq_scalar_iff.1 form] at notUnknown
    · exact (List.mem_filter.1 he).1

/-- An array of what is merged of element types absorbs arrays of these element types. -/
theorem array_absorbs (apart : S.InjOn (Quoted.write .ascii)) {elements others : List Shape}
    (nonempty : elements ≠ []) (within : ∀ s ∈ elements.map Shape.array, s.Within S)
    (within' : ∀ s ∈ others.map Shape.array, s.Within S) (tidy : ∀ e ∈ elements, e.Tidy)
    (part : Represented others elements)
    (again : ∀ rest, Represented rest (informative elements) → (∀ e ∈ rest, e ∈ others) →
      (mergeAll (mergeAll (informative elements) :: rest)).canonical =
        (mergeAll (informative elements)).canonical) :
    (mergeAll (.array (mergeAll (informative elements)) :: others.map Shape.array)).canonical =
      (Shape.array (mergeAll (informative elements))).canonical := by
  have withinKnown := Within.informative within
  have known : mergeAll (informative elements) = .unknown → ∀ e ∈ elements, e = .unknown := by
    intro unknown
    by_contra some
    have root := mergeAll_root apart (informative_ne_nil nonempty) withinKnown
      fun e he => tidy e (mem_of_mem_informative he)
    refine root.2 (fun e he => ?_) unknown
    exact (mem_informative_iff.1 he).2.resolve_right some
  obtain ⟨rest, eq, represented, listed⟩ := informative_cons_eq part known
  have same := again rest represented listed
  rw [← eq] at same
  have arrays := mergeAll_arrays_canonical_eq apart
    (List.cons_ne_nil (mergeAll (informative elements)) others)
    (List.forall_mem_cons.2 ⟨.array (Within.mergeAll withinKnown), within'⟩)
    fun e he uniform => same.trans (uniform _ List.mem_cons_self)
  exact arrays.trans (canonical_eq_array_iff.2 ⟨_, rfl, same⟩)

/-- An untagged union absorbs shapes that offer no further alternatives. -/
theorem untagged_absorbs (apart : S.InjOn (Quoted.write .ascii)) (within : ∀ x ∈ xs, x.Within S)
    (withinY : ∀ y ∈ ys, y.Within S) (part : Represented ys xs)
    (several : ∀ s, unique (xs.flatMap alternatives) ≠ [s]) :
    (mergeAll (untagged xs :: ys)).canonical = (untagged xs).canonical := by
  have union := untagged_eq_union several
  have mixed : records? (untagged xs :: ys) = none := by
    rw [union]
    rfl
  by_cases single : ∃ s, unique (untagged xs :: ys) = [s]
  · obtain ⟨s, single⟩ := single
    have first := single
    rw [unique_cons, List.cons.injEq] at first
    rw [mergeAll_of_unique mixed single, first.1]
  · have noArrays : elements? (unique (untagged xs :: ys)) = none := by
      rw [unique_cons, union]
      rfl
    have offered := Within.flatMap_alternatives within
    have withinAll : ∀ s ∈ untagged xs :: ys, s.Within S := by
      refine List.forall_mem_cons.2 ⟨?_, withinY⟩
      rw [union]
      exact .union (by simp) (Within.unique offered)
    have alike : Alike ((untagged xs :: ys).flatMap alternatives) (xs.flatMap alternatives) := by
      rw [List.flatMap_cons, union]
      refine ⟨fun a ha => ?_, fun a ha => ?_⟩
      · rcases List.mem_append.1 ha with here | there
        · exact ⟨a, mem_of_mem_unique here, rfl⟩
        · exact part.alternatives a there
      · obtain ⟨u, hu, form⟩ := (Alike.unique_right apart offered).1 a ha
        exact ⟨u, List.mem_append_left _ hu, form⟩
    rw [mergeAll_of_distinct mixed (fun s h => single ⟨s, h⟩) noArrays]
    exact Alike.untagged_canonical_eq_of_alternatives apart (Within.unique withinAll) within
      ((Alike.unique_right apart withinAll).symm.alternatives.trans alike)

/-- A merge absorbs shapes of the forms from which it was made. -/
theorem mergeAll_absorbs (apart : S.InjOn (Quoted.write .ascii)) (nonempty : xs ≠ [])
    (within : ∀ x ∈ xs, x.Within S) (tidy : ∀ x ∈ xs, x.Tidy) (withinY : ∀ y ∈ ys, y.Within S)
    (part : Represented ys xs) :
    (mergeAll (mergeAll xs :: ys)).canonical = (mergeAll xs).canonical := by
  induction xs using mergeInduction generalizing ys with
  | records records ih =>
      obtain ⟨others, eq⟩ := Option.isSome_iff_exists.1
        (part.records_isSome (by rw [records?_eq_some_iff.2 rfl]; rfl))
      cases records?_eq_some_iff.1 eq
      rw [mergeAll_objects, ← List.map_cons, mergeAll_objects]
      have tidyAt : ∀ key, ∀ s ∈ heldAt records key, s.Tidy :=
        fun key s hs => Tidy.of_mem_heldAt tidy hs
      apply mergedFields_cons_canonical_eq (by simpa using nonempty) part
      · intro key listed
        exact (mergeAll_root apart (heldAt_ne_nil listed) (Within.valuesAt within key)
          (tidyAt key)).1
      · intro key listed
        exact ih key listed (heldAt_ne_nil listed) (Within.valuesAt within key) (tidyAt key)
          (Within.valuesAt withinY key) (part.valuesAt key)
  | only xs s hr single =>
      have same : Alike xs [s] := single ▸ Alike.unique_right apart within
      have member := mem_of_unique_eq_singleton single
      have alike : Alike (s :: ys) xs := by
        refine ⟨?_, fun x hx => ?_⟩
        · rintro y (_ | ⟨_, hy⟩)
          · exact ⟨s, member, rfl⟩
          · exact part y hy
        · obtain ⟨t, ht, form⟩ := same.1 x hx
          rw [List.mem_singleton.1 ht] at form
          exact ⟨s, List.mem_cons_self, form⟩
      rw [← mergeAll_of_unique hr single] at alike
      refine alike.mergeAll_canonical_eq apart ?_ within
      exact List.forall_mem_cons.2 ⟨Within.mergeAll within, withinY⟩
  | elements xs elements hr several arrays ih =>
      have partHere : Represented ys (elements.map Shape.array) :=
        arrays ▸ part.trans (Alike.unique_right apart within).1
      obtain ⟨others, eq⟩ := Option.isSome_iff_exists.1
        (partHere.elements_isSome (by rw [elements?_eq_some_iff.2 rfl]; rfl))
      cases elements?_eq_some_iff.1 eq
      have withinHere : ∀ s ∈ elements.map Shape.array, s.Within S :=
        arrays ▸ Within.unique within
      have tidyHere : ∀ e ∈ elements, e.Tidy := by
        intro e he
        have listed : Shape.array e ∈ unique xs := by
          rw [arrays]
          exact List.mem_map.2 ⟨e, he, rfl⟩
        cases tidy _ (mem_of_mem_unique listed) with
        | array below => exact below
      have some : elements ≠ [] := by
        rintro rfl
        exact unique_ne_nil nonempty arrays
      rw [mergeAll_of_elements hr several (elements?_eq_some_iff.2 arrays)]
      refine array_absorbs apart some withinHere withinY tidyHere partHere.of_arrays
        fun rest represented listed => ih (informative_ne_nil some) (Within.informative withinHere)
          (fun e he => tidyHere e (mem_of_mem_informative he)) (fun e he => ?_) represented
      cases withinY _ (List.mem_map.2 ⟨e, listed e he, rfl⟩) with
      | array within => exact within
  | distinct xs hr several he =>
      rw [mergeAll_of_distinct hr several he]
      exact untagged_absorbs apart (Within.unique within) withinY
        (part.trans (Alike.unique_right apart within).1)
        (unique_alternatives_ne apart nonempty within tidy several)

/-- Merging what was merged of tidy trees over the given texts with some of the trees keeps its
form, whether they are merged as shapes or as records. -/
structure Absorbs (S : Set Text) : Prop where
  shapes : ∀ xs ys : List Shape, xs ≠ [] → (∀ x ∈ xs, x.Tidy ∧ x.Within S) →
    (∀ y ∈ ys, y ∈ xs) →
    ∃ m, mergeShapes xs = .ok m ∧ SameForm (mergeShapes (m :: ys)) (.ok m)
  records : ∀ xs ys : List Shape, xs ≠ [] → (∀ x ∈ xs, x.Tidy ∧ x.Within S) →
    (∀ x ∈ xs, x.fields?.isSome = true) → (∀ y ∈ ys, y ∈ xs) →
    ∃ m, mergeRecords xs = .ok m ∧ SameForm (mergeRecords (m :: ys)) (.ok m)

theorem absorbs_of_injOn (apart : S.InjOn (Quoted.write .ascii)) : Absorbs S := by
  have merges : ∀ xs ys : List Shape, xs ≠ [] → (∀ x ∈ xs, x.Tidy ∧ x.Within S) →
      (∀ y ∈ ys, y ∈ xs) → (∀ s ∈ mergeAll xs :: ys, s.Within S) ∧
        (mergeAll (mergeAll xs :: ys)).canonical = (mergeAll xs).canonical := by
    intro xs ys nonempty tidy part
    have within : ∀ x ∈ xs, x.Within S := fun x hx => (tidy x hx).2
    have withinY : ∀ y ∈ ys, y.Within S := fun y hy => within y (part y hy)
    refine ⟨List.forall_mem_cons.2 ⟨Within.mergeAll within, withinY⟩, ?_⟩
    exact mergeAll_absorbs apart nonempty within (fun x hx => (tidy x hx).1) withinY
      fun y hy => ⟨y, part y hy, rfl⟩
  constructor
  · intro xs ys nonempty tidy part
    obtain ⟨within, form⟩ := merges xs ys nonempty tidy part
    exact ⟨_, mergeShapes_eq_ok nonempty fun x hx => (tidy x hx).2, _, _,
      mergeShapes_eq_ok (List.cons_ne_nil _ _) within, rfl, form⟩
  · intro xs ys nonempty tidy records part
    obtain ⟨within, form⟩ := merges xs ys nonempty tidy part
    have records' : ∀ s ∈ mergeAll xs :: ys, s.fields?.isSome = true := by
      refine List.forall_mem_cons.2 ⟨?_, fun y hy => records y (part y hy)⟩
      obtain ⟨fields, eq⟩ := Option.isSome_iff_exists.1 (records?_isSome_iff.2 records)
      rw [mergeAll_of_records eq]
      rfl
    exact ⟨_, mergeRecords_eq_ok nonempty (fun x hx => (tidy x hx).2) records, _, _,
      mergeRecords_eq_ok (List.cons_ne_nil _ _) within records', rfl, form⟩

theorem canonicalText_arraysOf_ne_empty (key : Text) :
    (Shape.array (.object [])).canonicalText ≠ (arraysOf key).canonicalText := by
  simp [canonicalText, formText, arraysOf, canonical, canonicalFields, Sorting.sortOn,
    Sorting.insertOn, formPair, Json.print, Json.printBefore, Json.printItems, Json.printMembers,
    Text.ofString]

theorem canonicalText_arraysOf_ne_optional (key other : Text) :
    (arraysOf other).canonicalText ≠
      (Shape.array (.object [(key, .optional .null)])).canonicalText := by
  have differ : Quoted.write .ascii "kind" ≠ Quoted.write .ascii "inner" := by decide
  intro same
  simp [canonicalText, formText, arraysOf, canonical, canonicalFields, Sorting.sortOn,
    Sorting.insertOn, formPair, Json.print, Json.printBefore, Json.printItems,
    Json.printMembers] at same
  have after := (Quoted.write_append_inj same).2
  simp at after
  exact differ (Quoted.write_append_inj after).1

/-- Two of the arrays are taken for the same, and the key of the second is lost. -/
theorem mergeAll_arraysOf_empty {key other : Text}
    (h : Quoted.write .ascii key = Quoted.write .ascii other) :
    mergeAll [arraysOf key, arraysOf other, .array (.object [])] =
      .array (.object [(key, .optional .null)]) := by
  have distinct : unique [arraysOf key, arraysOf other, .array (.object [])] =
      [arraysOf key, .array (.object [])] := by
    simp [unique, uniqueAfter, canonicalText_arraysOf h, canonicalText_arraysOf_ne_empty]
  have elements : elements? (unique [arraysOf key, arraysOf other, .array (.object [])]) =
      some ([[(key, .null)], []].map Shape.object) := by
    rw [distinct]
    rfl
  have known : informative ([[(key, .null)], []].map Shape.object) =
      [[(key, .null)], []].map Shape.object := by
    simp [informative]
  have keys : Fields.union ([[(key, Shape.null)], []].map Fields.keys) = [key] := by
    simp [Fields.union_eq, Fields.keys, List.eraseDups_cons]
  have held : mergeAll (heldAt [[(key, .null)], []] key) = .null := by
    rw [show heldAt [[(key, .null)], []] key = [.null] by simp [heldAt, valuesAt, unwrap]]
    exact mergeAll_of_unique rfl (unique_singleton _)
  have lax : Lax [[(key, .null)], []] key := ⟨[], by simp, by simp⟩
  rw [mergeAll_of_elements rfl (by simp [distinct]) elements, known, mergeAll_objects,
    mergedFields, keys, List.map_singleton, mergedAt_of_lax lax, held]
  rfl

theorem mergeAll_optional_arraysOf (key other : Text) :
    mergeAll [.array (.object [(key, .optional .null)]), arraysOf other] =
      .array (.object (mergedFields [[(key, .optional .null)], [(other, .null)]])) := by
  have distinct : unique [.array (.object [(key, .optional .null)]), arraysOf other] =
      [.array (.object [(key, .optional .null)]), arraysOf other] := by
    simp [unique, uniqueAfter, canonicalText_arraysOf_ne_optional]
  have elements : elements? (unique [.array (.object [(key, .optional .null)]), arraysOf other]) =
      some ([[(key, .optional .null)], [(other, .null)]].map Shape.object) := by
    rw [distinct]
    rfl
  have known : informative ([[(key, .optional .null)], [(other, .null)]].map Shape.object) =
      [[(key, .optional .null)], [(other, .null)]].map Shape.object := by
    simp [informative]
  rw [mergeAll_of_elements rfl (by simp [distinct]) elements, known, mergeAll_objects]

theorem injOn_of_absorbs (absorbs : Absorbs S) : S.InjOn (Quoted.write .ascii) := by
  intro key hk other ho h
  have tidy : ∀ k, (arraysOf k).Tidy := fun k =>
    .array (.object (List.nodup_singleton k) (by simpa using .scalar _))
  have empty : (Shape.array (.object [])).Tidy ∧ (Shape.array (.object [])).Within S :=
    ⟨.array (.object .nil (by simp)), .array (.object (by simp) (by simp))⟩
  have listed : ∀ x ∈ [arraysOf key, arraysOf other, .array (.object [])],
      x.Tidy ∧ x.Within S := by
    simpa using ⟨⟨tidy key, .arraysOf hk⟩, ⟨tidy other, .arraysOf ho⟩, empty⟩
  obtain ⟨m, first, n, k, second, same, form⟩ := absorbs.shapes _ [arraysOf other]
    (by simp) listed (by simp)
  rw [mergeShapes_eq_ok (by simp) fun x hx => (listed x hx).2, mergeAll_arraysOf_empty h] at first
  cases first
  cases same
  have within : ∀ s ∈ [.array (.object [(key, .optional .null)]), arraysOf other],
      s.Within S := by
    simpa using ⟨.array (.object (by simpa using hk) (by simpa using .optional (.scalar _))),
      .arraysOf ho⟩
  rw [mergeShapes_eq_ok (by simp) within, mergeAll_optional_arraysOf] at second
  cases second
  -- the merge has gained the other key, which is the first one if it has kept its form
  obtain ⟨_, eq, records⟩ := canonical_eq_array_iff.1 form
  cases eq
  have held : other ∈ Fields.union
      ([[(key, .optional .null)], [(other, Shape.null)]].map Fields.keys) :=
    Fields.mem_union.2 ⟨[other], by simp [Fields.keys], List.mem_singleton.2 rfl⟩
  obtain ⟨t, found, -⟩ := exists_get?_of_canonical_eq records (get?_mergedFields held)
  have only := Fields.mem_of_get?_eq_some found
  rw [List.mem_singleton, Prod.mk.injEq] at only
  exact only.1.symm

/-- Merges absorb their parts over exactly the sets of texts that spellings tell apart, among them
every set of texts without split pairs. -/
theorem absorbs_iff_injOn_write (S : Set Text) :
    (Absorbs S ↔ S.InjOn (Quoted.write .ascii)) ∧ ((∀ t ∈ S, t.Unsplit) → Absorbs S) :=
  ⟨⟨injOn_of_absorbs, absorbs_of_injOn⟩,
    fun unsplit => absorbs_of_injOn (Quoted.injOn_write_of_unsplit unsplit)⟩

/-- The merge of three arrays gains a key when one of the arrays is merged again. -/
theorem mergeShapes_splitPair_again :
    ∃ m n, mergeShapes [arraysOf .splitPair, arraysOf .wholePair, .array (.object [])] = .ok m ∧
      mergeShapes [m, arraysOf .wholePair] = .ok n ∧ n.canonicalText ≠ m.canonicalText :=
  ⟨.array (.object [(.splitPair, .optional .null)]),
    .array (.object [(.splitPair, .optional .null), (.wholePair, .optional .null)]),
    by decide +kernel, by decide +kernel, by decide +kernel⟩

end Shape

end JsonShapes
