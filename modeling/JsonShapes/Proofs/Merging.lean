import JsonShapes.Merge
import JsonShapes.Proofs.Acceptance

/-!
# How merging proceeds

What every statement about merging starts from: what remains of a list of shapes once those of an
earlier canonical text are dropped, what the parts of a merge are, and an induction principle with
one case for each way in which shapes merge. Merging trees over a set of texts never fails and
stays over these texts.
-/

namespace JsonShapes

namespace Fields

variable {α : Type}

theorem nodup_distinctAfter (seen ks : List Text) : (distinctAfter seen ks).Nodup := by
  induction ks generalizing seen with
  | nil => exact .nil
  | cons key ks ih =>
      rw [distinctAfter]
      split
      · exact ih seen
      · refine List.nodup_cons.2 ⟨fun h => ?_, ih _⟩
        exact (mem_distinctAfter.1 h).2 List.mem_cons_self

theorem nodup_union (keyLists : List (List Text)) : (union keyLists).Nodup :=
  nodup_distinctAfter [] _

theorem keys_map_keys (ks : List Text) (value : Text → α) :
    keys (ks.map fun k => (k, value k)) = ks := by
  rw [keys, List.map_map]
  exact List.map_id ks

/-- Looking up a key in a record that holds a value for each of the given keys. -/
theorem get?_map_keys (ks : List Text) (value : Text → α) (key : Text) :
    get? (ks.map fun k => (k, value k)) key = if key ∈ ks then some (value key) else none := by
  induction ks with
  | nil => simp
  | cons k ks ih =>
      rw [List.map_cons, get?_cons, ih]
      by_cases same : k = key
      · simp [same]
      · have other : ¬key = k := fun h => same h.symm
        simp [same, other]

end Fields

namespace Shape

theorem exists_mem_uniqueAfter {s : Shape} {ss : List Shape} {seen : List Text} (h : s ∈ ss)
    (new : s.canonicalText ∉ seen) :
    ∃ t ∈ uniqueAfter seen ss, t.canonicalText = s.canonicalText := by
  induction ss generalizing seen with
  | nil => cases h
  | cons t ts ih =>
      rw [uniqueAfter]
      rcases List.mem_cons.1 h with rfl | h
      · rw [if_neg new]
        exact ⟨s, List.mem_cons_self, rfl⟩
      · split
        · exact ih h new
        · by_cases same : t.canonicalText = s.canonicalText
          · exact ⟨t, List.mem_cons_self, same⟩
          · have stillNew : s.canonicalText ∉ t.canonicalText :: seen := by
              rw [List.mem_cons, not_or]
              exact ⟨fun e => same e.symm, new⟩
            obtain ⟨u, hu, found⟩ := ih h stillNew
            exact ⟨u, List.mem_cons_of_mem _ hu, found⟩

/-- Every shape is represented among the distinct ones. -/
theorem exists_mem_unique {s : Shape} {ss : List Shape} (h : s ∈ ss) :
    ∃ t ∈ unique ss, t.canonicalText = s.canonicalText :=
  exists_mem_uniqueAfter h (by simp)

theorem text_notMem_of_mem_uniqueAfter {s : Shape} {ss : List Shape} {seen : List Text}
    (h : s ∈ uniqueAfter seen ss) : s.canonicalText ∉ seen := by
  induction ss generalizing seen with
  | nil => simp [uniqueAfter] at h
  | cons t ts ih =>
      rw [uniqueAfter] at h
      split at h
      · exact ih h
      · next new =>
          rcases List.mem_cons.1 h with rfl | h
          · exact new
          · exact fun old => ih h (List.mem_cons_of_mem _ old)

theorem nodup_uniqueAfter (seen : List Text) (ss : List Shape) :
    ((uniqueAfter seen ss).map canonicalText).Nodup := by
  induction ss generalizing seen with
  | nil => exact .nil
  | cons t ts ih =>
      rw [uniqueAfter]
      split
      · exact ih seen
      · rw [List.map_cons]
        refine List.nodup_cons.2 ⟨fun h => ?_, ih _⟩
        obtain ⟨u, hu, same⟩ := List.mem_map.1 h
        exact text_notMem_of_mem_uniqueAfter hu (same ▸ List.mem_cons_self)

/-- The distinct shapes have different canonical texts. -/
theorem nodup_unique (ss : List Shape) : ((unique ss).map canonicalText).Nodup :=
  nodup_uniqueAfter [] ss

/-- Distinct shapes of one canonical text are a single one. -/
theorem unique_eq_singleton {ss : List Shape} {t : Shape} (member : t ∈ unique ss)
    (same : ∀ u ∈ unique ss, u.canonicalText = t.canonicalText) : unique ss = [t] := by
  have distinct := nodup_unique ss
  match unique ss, member, distinct, same with
  | [u], member, _, _ => rw [List.mem_singleton.1 member]
  | u :: w :: rest, _, distinct, same =>
      rw [List.map_cons, List.map_cons, List.nodup_cons, same u (by simp),
        same w (by simp)] at distinct
      exact absurd List.mem_cons_self distinct.1

theorem unique_ne_nil {ss : List Shape} (h : ss ≠ []) : unique ss ≠ [] := by
  obtain ⟨s, rest, rfl⟩ := List.exists_cons_of_ne_nil h
  simp [unique, uniqueAfter]

theorem records?_eq_some_iff {shapes : List Shape} {records : List (List (Text × Shape))} :
    records? shapes = some records ↔ shapes = records.map Shape.object := by
  induction shapes generalizing records with
  | nil => cases records <;> simp [records?]
  | cons s rest ih =>
      rw [records?]
      constructor
      · intro h
        split at h
        · next fields others hf hr =>
            cases h
            rw [ih.1 hr, List.map_cons]
            cases s <;> simp_all [fields?]
        · cases h
      · intro h
        cases records with
        | nil => cases h
        | cons fields others =>
            rw [List.map_cons, List.cons.injEq] at h
            rw [h.1, ih.2 h.2]
            rfl

theorem elements?_eq_some_iff {shapes elements : List Shape} :
    elements? shapes = some elements ↔ shapes = elements.map Shape.array := by
  induction shapes generalizing elements with
  | nil => cases elements <;> simp [elements?]
  | cons s rest ih =>
      rw [elements?]
      constructor
      · intro h
        split at h
        · next element others he hr =>
            cases h
            rw [ih.1 hr, List.map_cons]
            cases s <;> simp_all [element?]
        · cases h
      · intro h
        cases elements with
        | nil => cases h
        | cons element others =>
            rw [List.map_cons, List.cons.injEq] at h
            rw [h.1, ih.2 h.2]
            rfl

theorem records?_isSome_iff {shapes : List Shape} :
    (records? shapes).isSome = true ↔ ∀ s ∈ shapes, s.fields?.isSome = true := by
  induction shapes with
  | nil => simp [records?]
  | cons s rest ih =>
      rw [List.forall_mem_cons, ← ih, records?]
      cases s.fields? <;> cases records? rest <;> simp

theorem elements?_isSome_iff {shapes : List Shape} :
    (elements? shapes).isSome = true ↔ ∀ s ∈ shapes, s.element?.isSome = true := by
  induction shapes with
  | nil => simp [elements?]
  | cons s rest ih =>
      rw [List.forall_mem_cons, ← ih, elements?]
      cases s.element? <;> cases elements? rest <;> simp

theorem mem_valuesAt {records : List (List (Text × Shape))} {key : Text} {s : Shape} :
    s ∈ valuesAt records key ↔ ∃ fields ∈ records, Fields.get? fields key = some s :=
  List.mem_filterMap

/-- An unknown element type counts only if there is no other. -/
theorem mem_informative_iff {s : Shape} {elements : List Shape} :
    s ∈ informative elements ↔
      s ∈ elements ∧ (s ≠ .unknown ∨ ∀ e ∈ elements, e = .unknown) := by
  rw [informative]
  split
  · next none =>
      have all : ∀ e ∈ elements, e = .unknown := by simpa [List.filter_eq_nil_iff] using none
      exact ⟨fun h => ⟨h, .inr all⟩, fun h => h.1⟩
  · next some =>
      have notAll : ¬∀ e ∈ elements, e = .unknown := by
        simpa [List.filter_eq_nil_iff] using some
      simp [notAll]

theorem informative_ne_nil {elements : List Shape} (h : elements ≠ []) :
    informative elements ≠ [] := by
  rw [informative]
  split
  · exact h
  · next some => exact fun none => some none

theorem length_valuesAt_lt_iff {records : List (List (Text × Shape))} {key : Text} :
    (valuesAt records key).length < records.length ↔
      ∃ fields ∈ records, Fields.get? fields key = none := by
  induction records with
  | nil => simp [valuesAt]
  | cons fields records ih =>
      have bound : (valuesAt records key).length ≤ records.length := List.length_filterMap_le _ _
      simp only [valuesAt] at ih bound ⊢
      rw [List.filterMap_cons, List.length_cons, List.exists_mem_cons_iff, ← ih]
      cases found : Fields.get? fields key with
      | none =>
          simp only [true_or, iff_true]
          omega
      | some s =>
          rw [List.length_cons]
          simp

/-- A merged property is optional if one of the records lacks it or has it as an option, and as
it was merged if all of them require it. -/
theorem mergedField_cases (records : List (List (Text × Shape))) (key : Text) (merged : Shape) :
    ((∃ fields ∈ records, ∀ s, Fields.get? fields key = some s → s.isOptional = true) ∧
      mergedField records.length (valuesAt records key) merged = merged.asOptional) ∨
    ((∀ fields ∈ records, ∃ s, Fields.get? fields key = some s ∧ s.isOptional = false) ∧
      mergedField records.length (valuesAt records key) merged = merged) := by
  rw [mergedField]
  split
  · next lax =>
      refine .inl ⟨?_, rfl⟩
      rw [Bool.or_eq_true, decide_eq_true_eq, length_valuesAt_lt_iff, List.any_eq_true] at lax
      rcases lax with ⟨fields, hf, missing⟩ | ⟨s, hs, optional⟩
      · exact ⟨fields, hf, fun s found => by simp [missing] at found⟩
      · obtain ⟨fields, hf, found⟩ := mem_valuesAt.1 hs
        refine ⟨fields, hf, fun t ht => ?_⟩
        rw [← Option.some.inj (found.symm.trans ht)]
        exact optional
  · next strict =>
      refine .inr ⟨fun fields hf => ?_, rfl⟩
      rw [Bool.or_eq_true, decide_eq_true_eq, length_valuesAt_lt_iff, List.any_eq_true,
        not_or] at strict
      obtain ⟨s, found⟩ : ∃ s, Fields.get? fields key = some s := by
        rw [← Option.ne_none_iff_exists']
        exact fun missing => strict.1 ⟨fields, hf, missing⟩
      refine ⟨s, found, Bool.eq_false_iff.2 fun optional => ?_⟩
      exact strict.2 ⟨s, mem_valuesAt.2 ⟨fields, hf, found⟩, optional⟩

theorem exists_get?_of_mem_union {records : List (List (Text × Shape))} {key : Text}
    (h : key ∈ Fields.union (records.map Fields.keys)) :
    ∃ fields ∈ records, ∃ s, Fields.get? fields key = some s := by
  obtain ⟨keys, hk, member⟩ := Fields.mem_union.1 h
  obtain ⟨fields, hf, rfl⟩ := List.mem_map.1 hk
  exact ⟨fields, hf, Fields.exists_get?_of_mem_keys member⟩

theorem mem_union_of_get? {records : List (List (Text × Shape))} {fields : List (Text × Shape)}
    {key : Text} {s : Shape} (h : fields ∈ records) (found : Fields.get? fields key = some s) :
    key ∈ Fields.union (records.map Fields.keys) := by
  refine Fields.mem_union.2 ⟨_, List.mem_map.2 ⟨fields, h, rfl⟩, ?_⟩
  exact List.mem_map.2 ⟨_, Fields.mem_of_get?_eq_some found, rfl⟩

theorem mem_valuesAt_unwrap {records : List (List (Text × Shape))} {key : Text} {s : Shape} :
    s ∈ (valuesAt records key).map unwrap ↔
      ∃ fields ∈ records, ∃ t, Fields.get? fields key = some t ∧ t.unwrap = s := by
  constructor
  · intro h
    obtain ⟨t, ht, rfl⟩ := List.mem_map.1 h
    obtain ⟨fields, hf, found⟩ := mem_valuesAt.1 ht
    exact ⟨fields, hf, t, found, rfl⟩
  · rintro ⟨fields, hf, t, found, rfl⟩
    exact List.mem_map.2 ⟨t, mem_valuesAt.2 ⟨fields, hf, found⟩, rfl⟩

theorem alternatives_eq_singleton {s : Shape} (h : ∀ variants, s ≠ .union none variants) :
    alternatives s = [s] := by
  unfold alternatives
  split
  · next variants => exact absurd rfl (h variants)
  · rfl

/-- What an untagged union is made of: each variant was one of the shapes or a variant of an
untagged union among them. -/
theorem mem_alternatives {s t : Shape} (h : t ∈ alternatives s) :
    t = s ∨ ∃ variants, s = .union none variants ∧ t ∈ variants := by
  unfold alternatives at h
  split at h
  · next variants => exact .inr ⟨variants, rfl, h⟩
  · exact .inl (List.mem_singleton.1 h)

/-- Induction over merges: the properties of records and the element types of arrays are merged in
turn, and the other two ways of merging go no deeper. -/
@[elab_as_elim]
theorem mergeInduction {motive : List Shape → Prop}
    (records : ∀ records : List (List (Text × Shape)),
      (∀ key ∈ Fields.union (records.map Fields.keys),
        motive ((valuesAt records key).map unwrap)) → motive (records.map Shape.object))
    (only : ∀ shapes s, records? shapes = none → unique shapes = [s] → motive shapes)
    (elements : ∀ shapes elements, records? shapes = none → (∀ s, unique shapes ≠ [s]) →
      unique shapes = elements.map Shape.array → motive (informative elements) → motive shapes)
    (distinct : ∀ shapes, records? shapes = none → (∀ s, unique shapes ≠ [s]) →
      elements? (unique shapes) = none → motive shapes)
    (shapes : List Shape) : motive shapes := by
  induction size : depthAll shapes using Nat.strong_induction_on generalizing shapes with
  | _ n ih =>
      subst size
      cases hr : records? shapes with
      | some rs =>
          rw [records?_eq_some_iff.1 hr]
          exact records rs fun key hk => ih _ (depthAll_valuesAt_lt hr hk) _ rfl
      | none =>
          by_cases single : ∃ s, unique shapes = [s]
          · obtain ⟨s, single⟩ := single
            exact only shapes s hr single
          · have several : ∀ s, unique shapes ≠ [s] := fun s h => single ⟨s, h⟩
            cases he : elements? (unique shapes) with
            | some es =>
                exact elements shapes es hr several (elements?_eq_some_iff.1 he)
                  (ih _ (depthAll_informative_lt hr he) _ rfl)
            | none => exact distinct shapes hr several he

variable {S : Set Text}

theorem Within.unwrap {s : Shape} (h : s.Within S) : s.unwrap.Within S := by
  cases h with
  | optional within => exact within
  | scalar kind => exact .scalar kind
  | literal word typeWord => exact .literal word typeWord
  | object words within => exact .object words within
  | array within => exact .array within
  | union word within => exact .union word within

theorem Within.asOptional {s : Shape} (h : s.Within S) : s.asOptional.Within S := by
  refine .optional ?_
  induction h with
  | optional within ih => exact ih
  | scalar kind => exact .scalar kind
  | literal word typeWord => exact .literal word typeWord
  | object words within => exact .object words within
  | array within => exact .array within
  | union word within => exact .union word within

theorem Within.of_mem_alternatives {s t : Shape} (h : s.Within S) (m : t ∈ alternatives s) :
    t.Within S := by
  rcases mem_alternatives m with rfl | ⟨variants, rfl, member⟩
  · exact h
  · cases h with
    | union _ within => exact within t member

theorem Within.of_get? {fields : List (Text × Shape)} (h : (Shape.object fields).Within S)
    {key : Text} {s : Shape} (found : Fields.get? fields key = some s) : key ∈ S ∧ s.Within S := by
  cases h with
  | object words within =>
      have member := Fields.mem_of_get?_eq_some found
      exact ⟨words _ member, within _ member⟩

theorem Within.valuesAt {records : List (List (Text × Shape))}
    (within : ∀ s ∈ records.map Shape.object, s.Within S) (key : Text) :
    ∀ s ∈ (valuesAt records key).map Shape.unwrap, s.Within S := by
  intro s hs
  obtain ⟨fields, hf, t, found, rfl⟩ := mem_valuesAt_unwrap.1 hs
  exact ((within _ (List.mem_map.2 ⟨fields, hf, rfl⟩)).of_get? found).2.unwrap

theorem Within.unique {shapes : List Shape} (within : ∀ s ∈ shapes, s.Within S) :
    ∀ s ∈ unique shapes, s.Within S :=
  fun s hs => within s (mem_of_mem_unique hs)

theorem Within.informative {elements : List Shape}
    (within : ∀ s ∈ elements.map Shape.array, s.Within S) :
    ∀ s ∈ informative elements, s.Within S := by
  intro s hs
  cases within _ (List.mem_map.2 ⟨s, mem_of_mem_informative hs, rfl⟩) with
  | array within => exact within

theorem Within.flatMap_alternatives {shapes : List Shape} (within : ∀ s ∈ shapes, s.Within S) :
    ∀ s ∈ shapes.flatMap alternatives, s.Within S := by
  intro s hs
  obtain ⟨t, ht, member⟩ := List.mem_flatMap.1 hs
  exact (within t ht).of_mem_alternatives member

/-- Merging trees adds no texts. -/
theorem Within.mergeAll {shapes : List Shape} (within : ∀ s ∈ shapes, s.Within S) :
    (mergeAll shapes).Within S := by
  induction shapes using mergeInduction with
  | records records ih =>
      rw [mergeAll_of_records (records?_eq_some_iff.2 rfl)]
      refine .object (fun f hf => ?_) fun f hf => ?_
      · obtain ⟨key, hk, rfl⟩ := List.mem_map.1 hf
        obtain ⟨fields, hm, s, found⟩ := exists_get?_of_mem_union hk
        exact ((within _ (List.mem_map.2 ⟨fields, hm, rfl⟩)).of_get? found).1
      · obtain ⟨key, hk, rfl⟩ := List.mem_map.1 hf
        have inner := ih key hk (Within.valuesAt within key)
        rcases mergedField_cases records key
          (Shape.mergeAll ((Shape.valuesAt records key).map Shape.unwrap)) with ⟨-, eq⟩ | ⟨-, eq⟩
        · simpa only [eq] using inner.asOptional
        · simpa only [eq] using inner
  | only shapes s hr single =>
      rw [mergeAll_of_unique hr single]
      exact Within.unique within s (single ▸ List.mem_singleton.2 rfl)
  | elements shapes elements hr several arrays ih =>
      rw [mergeAll_of_elements hr several (elements?_eq_some_iff.2 arrays)]
      exact .array (ih (Within.informative (arrays ▸ Within.unique within)))
  | distinct shapes hr several he =>
      rw [mergeAll_of_distinct hr several he, untagged]
      have part := Within.unique (Within.flatMap_alternatives (Within.unique within))
      split
      · next s single => exact part s (single ▸ List.mem_singleton.2 rfl)
      · exact .union (by simp) part

theorem foreignField?_eq_none_iff {fields : List (Text × Shape)} :
    foreignField? fields = none ↔ ∀ f ∈ fields, f.2.foreign? = none := by
  induction fields with
  | nil => simp [foreignField?]
  | cons f fields ih => rw [foreignField?, Option.or_eq_none_iff, ih, List.forall_mem_cons]

theorem foreignAmong?_eq_none_iff {shapes : List Shape} :
    foreignAmong? shapes = none ↔ ∀ s ∈ shapes, s.foreign? = none := by
  induction shapes with
  | nil => simp [foreignAmong?]
  | cons s shapes ih => rw [foreignAmong?, Option.or_eq_none_iff, ih, List.forall_mem_cons]

theorem Within.foreign?_eq_none {s : Shape} (h : s.Within S) : s.foreign? = none := by
  induction h with
  | scalar kind => rfl
  | literal word typeWord => rfl
  | optional within ih => exact ih
  | object words within ih => exact foreignField?_eq_none_iff.2 ih
  | array within ih => exact ih
  | union word within ih => exact foreignAmong?_eq_none_iff.2 ih

/-- Every tree without foreign leaves is one over all texts. -/
theorem within_univ {s : Shape} (h : s.foreign? = none) : s.Within .univ := by
  induction s using treeInduction with
  | scalar kind => exact .scalar kind
  | literal value jsonType => exact .literal trivial trivial
  | optional inner ih => exact .optional (ih h)
  | object fields ih =>
      rw [foreign?, foreignField?_eq_none_iff] at h
      exact .object (fun f _ => trivial) fun f hf => ih f hf (h f hf)
  | array element ih => exact .array (ih h)
  | union discriminator variants ih =>
      rw [foreign?, foreignAmong?_eq_none_iff] at h
      exact .union (fun d _ => trivial) fun s hs => ih s hs (h s hs)
  | foreign kind => cases h

theorem checkAll_eq_ok (context : Text) {shapes : List Shape} (h : ∀ s ∈ shapes, s.Within S) :
    checkAll context shapes = .ok () := by
  rw [checkAll, foreignAmong?_eq_none_iff.2 fun s hs => (h s hs).foreign?_eq_none]

/-- Merging shapes succeeds. -/
theorem mergeShapes_eq_ok {shapes : List Shape} (nonempty : shapes ≠ [])
    (within : ∀ s ∈ shapes, s.Within S) :
    mergeShapes shapes = .ok (Shape.mergeAll shapes) := by
  rw [mergeShapes, if_neg (by simpa using nonempty), checkAll_eq_ok _ within]

/-- Merging records succeeds, and is merging them as shapes. -/
theorem mergeRecords_eq_ok {shapes : List Shape} (nonempty : shapes ≠ [])
    (within : ∀ s ∈ shapes, s.Within S) (records : ∀ s ∈ shapes, s.fields?.isSome = true) :
    mergeRecords shapes = .ok (Shape.mergeAll shapes) := by
  have none : shapes.find? (fun s => s.fields?.isNone) = none := by
    rw [List.find?_eq_none]
    intro s hs
    simpa using Option.isSome_iff_ne_none.1 (records s hs)
  rw [mergeRecords, if_neg (by simpa using nonempty), none]
  exact mergeShapes_eq_ok nonempty within

end Shape

end JsonShapes
