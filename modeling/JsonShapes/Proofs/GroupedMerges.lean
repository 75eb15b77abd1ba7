import JsonShapes.Proofs.EquivalentMerges

/-!
# Merging in groups

Records may be merged in groups, and the merges of the groups merged again. The result has the keys
that merging all records at once gives, in the same order, and the same of them are optional: the
option around a property of a merge stands for the records that do not require it.

The latter takes that no option is hidden in an untagged union. Merging two unions of which each
offers one option leaves only this option, which then counts as one around the property, whereas
among further alternatives it is one of them.

The forms of the values agree as well if the records are compatible: wherever two of them meet, they
hold scalars, arrays or records alike. Merges of compatible shapes are not compatible any more,
since they hold unions of scalars. What carries the induction is that a union is known by its
alternatives, and that a merge is unknown only if one of its parts is.
-/

namespace JsonShapes

namespace Shape

/-- No option, and no untagged union with an option among its alternatives, at any depth of such
unions. -/
inductive Definite : Shape → Prop
  | union {variants : List Shape} (below : ∀ s ∈ variants, Definite s) :
      Definite (.union none variants)
  | other {s : Shape} (required : s.isOptional = false)
      (solid : ∀ variants, s ≠ .union none variants) : Definite s

namespace Definite

theorem isOptional_eq_false {s : Shape} (h : s.Definite) : s.isOptional = false := by
  cases h with
  | union below => rfl
  | other required solid => exact required

theorem of_mem_alternatives {s t : Shape} (h : s.Definite) (member : t ∈ alternatives s) :
    t.Definite := by
  rcases mem_alternatives member with rfl | ⟨variants, rfl, listed⟩
  · exact h
  · cases h with
    | union below => exact below t listed
    | other required solid => exact absurd rfl (solid variants)

/-- Definite shapes merge into a definite one. -/
theorem mergeAll {shapes : List Shape} (definite : ∀ s ∈ shapes, s.Definite) :
    (mergeAll shapes).Definite := by
  induction shapes using mergeInduction with
  | records records ih =>
      rw [mergeAll_objects]
      exact .other rfl (by simp)
  | only shapes s hr single =>
      rw [mergeAll_of_unique hr single]
      exact definite s (mem_of_unique_eq_singleton single)
  | elements shapes elements hr several arrays ih =>
      rw [mergeAll_of_elements hr several (elements?_eq_some_iff.2 arrays)]
      exact .other rfl (by simp)
  | distinct shapes hr several he =>
      rw [mergeAll_of_distinct hr several he]
      refine untagged_induction (fun s hs t member => ?_) fun _ => .union
      exact (definite s (mem_of_mem_unique hs)).of_mem_alternatives member

end Definite

variable {records others : List (List (Text × Shape))} {key : Text}

theorem keys_grouped (records others : List (List (Text × Shape))) :
    Fields.union ([mergedFields records, mergedFields others].map Fields.keys) =
      Fields.union ((records ++ others).map Fields.keys) := by
  rw [List.map_cons, List.map_singleton, keys_mergedFields, keys_mergedFields, Fields.union_pair,
    List.map_append]

theorem mergeAll_pair_objects (fields others : List (Text × Shape)) :
    mergeAll [.object fields, .object others] = .object (mergedFields [fields, others]) :=
  mergeAll_objects [fields, others]

/-- The records of two groups all require a key exactly if both of their merges do. -/
theorem lax_grouped (nonempty : records ≠ []) (nonempty' : others ≠ [])
    (required : (mergeAll (heldAt records key)).isOptional = false)
    (required' : (mergeAll (heldAt others key)).isOptional = false) :
    Lax [mergedFields records, mergedFields others] key ↔ Lax (records ++ others) key := by
  rw [← List.singleton_append, lax_append, lax_mergedFields required nonempty,
    lax_mergedFields required' nonempty', lax_append]

/-- The values that the merge of records holds at a key. -/
theorem heldAt_mergedFields (required : (mergeAll (heldAt records key)).isOptional = false) :
    heldAt [mergedFields records] key =
      if key ∈ Fields.union (records.map Fields.keys) then [mergeAll (heldAt records key)]
      else [] := by
  by_cases listed : key ∈ Fields.union (records.map Fields.keys)
  · rw [if_pos listed, heldAt_singleton_of_some (get?_mergedFields listed),
      unwrap_mergedAt required]
  · rw [if_neg listed, heldAt_singleton_of_none (get?_mergedFields_eq_none listed)]

theorem eq_of_mem_heldAt_mergedFields
    (required : (mergeAll (heldAt records key)).isOptional = false) {s : Shape}
    (hs : s ∈ heldAt [mergedFields records] key) : s = mergeAll (heldAt records key) := by
  rw [heldAt_mergedFields required] at hs
  split at hs
  · exact List.mem_singleton.1 hs
  · cases hs

/-- The keys of optional properties. -/
def optionalKeys (fields : List (Text × Shape)) : List Text :=
  (fields.filter fun f => f.2.isOptional).map Prod.fst

theorem optionalKeys_mergedFields (records : List (List (Text × Shape))) :
    optionalKeys (mergedFields records) =
      (Fields.union (records.map Fields.keys)).filter
        fun key => (mergedAt records key).isOptional := by
  rw [optionalKeys, mergedFields, List.filter_map, List.map_map]
  exact List.map_id _

/-- Every property of the records is definite below its option. -/
def DefiniteAt (records : List (List (Text × Shape))) : Prop :=
  ∀ fields ∈ records, ∀ f ∈ fields, f.2.unwrap.Definite

theorem DefiniteAt.heldAt (h : DefiniteAt records) (key : Text) :
    ∀ s ∈ heldAt records key, s.Definite := by
  intro s hs
  obtain ⟨fields, hf, t, found, rfl⟩ := mem_valuesAt_unwrap.1 hs
  exact h fields hf _ (Fields.mem_of_get?_eq_some found)

/-- Merging in groups gives the optional keys that merging at once gives. -/
theorem optionalKeys_grouped (nonempty : records ≠ []) (nonempty' : others ≠ [])
    (definite : DefiniteAt (records ++ others)) :
    optionalKeys (mergedFields [mergedFields records, mergedFields others]) =
      optionalKeys (mergedFields (records ++ others)) := by
  have first : DefiniteAt records := fun fields hf => definite fields (List.mem_append_left _ hf)
  have second : DefiniteAt others := fun fields hf => definite fields (List.mem_append_right _ hf)
  rw [optionalKeys_mergedFields, optionalKeys_mergedFields, keys_grouped]
  refine List.filter_congr fun key _ => ?_
  have mergedHere := Definite.mergeAll (first.heldAt key)
  have mergedThere := Definite.mergeAll (second.heldAt key)
  have required := mergedHere.isOptional_eq_false
  have required' := mergedThere.isOptional_eq_false
  have again : ∀ s ∈ heldAt [mergedFields records, mergedFields others] key, s.Definite := by
    rw [← List.singleton_append, heldAt_append]
    intro s hs
    rcases List.mem_append.1 hs with here | there
    · exact eq_of_mem_heldAt_mergedFields required here ▸ mergedHere
    · exact eq_of_mem_heldAt_mergedFields required' there ▸ mergedThere
  rw [Bool.eq_iff_iff, isOptional_mergedAt_iff (Definite.mergeAll again).isOptional_eq_false,
    isOptional_mergedAt_iff (Definite.mergeAll (definite.heldAt key)).isOptional_eq_false,
    lax_grouped nonempty nonempty' required required']

/-- A scalar of which something is known, or a literal. -/
def isSimple : Shape → Bool
  | .scalar kind => kind ≠ .unknown
  | .literal _ _ => true
  | _ => false

/-- Shapes of one kind, down to what they hold in common: both are simple, both are arrays of
compatible element types unless one of these is unknown, or both are records with compatible values,
apart from the options around them, at every key that they share. -/
inductive Compatible : Shape → Shape → Prop
  | simple {a b : Shape} (simple : a.isSimple = true) (simple' : b.isSimple = true) :
      Compatible a b
  | arrays {e f : Shape} (below : Compatible e f) : Compatible (.array e) (.array f)
  | unknownLeft (f : Shape) : Compatible (.array .unknown) (.array f)
  | unknownRight (e : Shape) : Compatible (.array e) (.array .unknown)
  | records {fields others : List (Text × Shape)}
      (below : ∀ key s t, Fields.get? fields key = some s → Fields.get? others key = some t →
        Compatible s.unwrap t.unwrap) : Compatible (.object fields) (.object others)

theorem Compatible.of_arrays {e f : Shape} (h : Compatible (.array e) (.array f))
    (known : e ≠ .unknown) (known' : f ≠ .unknown) : Compatible e f := by
  cases h with
  | simple simple simple' => cases simple
  | arrays below => exact below
  | unknownLeft => exact absurd rfl known
  | unknownRight => exact absurd rfl known'

theorem Compatible.of_records {fields others : List (Text × Shape)}
    (h : Compatible (.object fields) (.object others)) {key : Text} {s t : Shape}
    (found : Fields.get? fields key = some s) (found' : Fields.get? others key = some t) :
    Compatible s.unwrap t.unwrap := by
  cases h with
  | simple simple simple' => cases simple
  | records below => exact below key s t found found'

variable {xs : List Shape}

theorem parts_of_isSimple {s : Shape} (h : s.isSimple = true) :
    s.element? = none ∧ s.fields? = none ∧ alternatives s = [s] := by
  cases s with
  | scalar kind => exact ⟨rfl, rfl, rfl⟩
  | literal value jsonType => exact ⟨rfl, rfl, rfl⟩
  | _ => cases h

theorem required_of_isSimple {s : Shape} (h : s.isSimple = true) :
    s.isOptional = false ∧ s ≠ .unknown := by
  cases s with
  | scalar kind => exact ⟨rfl, by simpa [isSimple] using h⟩
  | literal value jsonType => exact ⟨rfl, by simp⟩
  | _ => cases h

theorem Compatible.sameKind {a b : Shape} (h : Compatible a b) :
    (a.isSimple = true ∧ b.isSimple = true) ∨
      (a.element?.isSome = true ∧ b.element?.isSome = true) ∨
      (a.fields?.isSome = true ∧ b.fields?.isSome = true) := by
  cases h with
  | simple simple simple' => exact .inl ⟨simple, simple'⟩
  | arrays below => exact .inr (.inl ⟨rfl, rfl⟩)
  | unknownLeft => exact .inr (.inl ⟨rfl, rfl⟩)
  | unknownRight => exact .inr (.inl ⟨rfl, rfl⟩)
  | records below => exact .inr (.inr ⟨rfl, rfl⟩)

/-- Several compatible shapes are all simple, all arrays or all records. -/
theorem Compatible.kinds (several : 2 ≤ xs.length) (compatible : xs.Pairwise Compatible) :
    (∀ x ∈ xs, x.isSimple = true) ∨ (∃ elements : List Shape, xs = elements.map Shape.array) ∨
      ∃ records : List (List (Text × Shape)), xs = records.map Shape.object := by
  obtain ⟨a, b, rest, rfl⟩ : ∃ a b rest, xs = a :: b :: rest := by
    obtain ⟨a, others, rfl⟩ := List.exists_cons_of_length_pos (by omega : 0 < xs.length)
    rw [List.length_cons] at several
    obtain ⟨b, rest, rfl⟩ := List.exists_cons_of_length_pos (by omega : 0 < others.length)
    exact ⟨a, b, rest, rfl⟩
  have first := (List.pairwise_cons.1 compatible).1
  cases a with
  | array element =>
      right; left
      have arrays : ∀ x ∈ Shape.array element :: b :: rest, x.element?.isSome = true := by
        refine List.forall_mem_cons.2 ⟨rfl, fun x hx => ?_⟩
        rcases (first x hx).sameKind with ⟨simple, -⟩ | ⟨-, array⟩ | ⟨record, -⟩
        · cases simple
        · exact array
        · cases record
      obtain ⟨elements, eq⟩ := Option.isSome_iff_exists.1 (elements?_isSome_iff.2 arrays)
      exact ⟨elements, elements?_eq_some_iff.1 eq⟩
  | object fields =>
      right; right
      have records : ∀ x ∈ Shape.object fields :: b :: rest, x.fields?.isSome = true := by
        refine List.forall_mem_cons.2 ⟨rfl, fun x hx => ?_⟩
        rcases (first x hx).sameKind with ⟨simple, -⟩ | ⟨array, -⟩ | ⟨-, record⟩
        · cases simple
        · cases array
        · exact record
      obtain ⟨records, eq⟩ := Option.isSome_iff_exists.1 (records?_isSome_iff.2 records)
      exact ⟨records, records?_eq_some_iff.1 eq⟩
  | _ =>
      left
      have simple := fun x (hx : x ∈ b :: rest) => (first x hx).sameKind.resolve_right (by
        rintro (⟨array, -⟩ | ⟨record, -⟩)
        · cases array
        · cases record)
      exact List.forall_mem_cons.2 ⟨(simple b List.mem_cons_self).1, fun x hx => (simple x hx).2⟩

theorem Compatible.heldAt (compatible : (records.map Shape.object).Pairwise Compatible)
    (key : Text) : (heldAt records key).Pairwise Compatible := by
  rw [Shape.heldAt, valuesAt, List.pairwise_map, List.pairwise_filterMap]
  rw [List.pairwise_map] at compatible
  refine compatible.imp ?_
  intro fields others h s found t found'
  exact h.of_records found found'

theorem Compatible.known {elements : List Shape}
    (compatible : (elements.map Shape.array).Pairwise Compatible) :
    (elements.filter fun e => e ≠ .unknown).Pairwise Compatible := by
  rw [List.pairwise_map] at compatible
  refine (compatible.filter _).imp_of_mem fun he hf h => ?_
  exact h.of_arrays (by simpa using (List.mem_filter.1 he).2)
    (by simpa using (List.mem_filter.1 hf).2)

variable {S : Set Text} {zs ws : List Shape}

theorem flatMap_alternatives_of_simple (simple : ∀ x ∈ xs, x.isSimple = true) :
    xs.flatMap alternatives = xs := by
  induction xs with
  | nil => rfl
  | cons x xs ih =>
      obtain ⟨here, later⟩ := List.forall_mem_cons.1 simple
      rw [List.flatMap_cons, (parts_of_isSimple here).2.2, ih later, List.singleton_append]

theorem uniqueAfter_eq_self {seen : List Text} (distinct : (xs.map canonicalText).Nodup)
    (new : ∀ x ∈ xs, x.canonicalText ∉ seen) : uniqueAfter seen xs = xs := by
  induction xs generalizing seen with
  | nil => rfl
  | cons x xs ih =>
      obtain ⟨fresh, distinct⟩ := List.nodup_cons.1 distinct
      rw [uniqueAfter, if_neg (new x List.mem_cons_self), ih distinct]
      intro y hy
      rw [List.mem_cons, not_or]
      refine ⟨fun same => fresh ?_, new y (List.mem_cons_of_mem _ hy)⟩
      exact same ▸ List.mem_map.2 ⟨y, hy, rfl⟩

theorem unique_eq_self (distinct : (xs.map canonicalText).Nodup) : unique xs = xs :=
  uniqueAfter_eq_self distinct (by simp)

/-- The union of simple shapes, and what it offers. -/
theorem untagged_of_simple (simple : ∀ x ∈ xs, x.isSimple = true) :
    ((untagged xs).isSimple = true ∨ ∃ variants, untagged xs = .union none variants) ∧
      alternatives (untagged xs) = unique xs ∧ untagged [untagged xs] = untagged xs := by
  have offered := flatMap_alternatives_of_simple simple
  by_cases single : ∃ s, unique xs = [s]
  · obtain ⟨s, single⟩ := single
    have isSimple := simple s (mem_of_unique_eq_singleton single)
    have eq : untagged xs = s := by
      rw [untagged, offered, single]
    have alone := (parts_of_isSimple isSimple).2.2
    refine ⟨.inl (eq ▸ isSimple), by rw [eq, alone, single], ?_⟩
    rw [eq, untagged_singleton alone]
  · have several : ∀ s, unique (xs.flatMap alternatives) ≠ [s] := by
      rw [offered]
      exact fun s h => single ⟨s, h⟩
    have eq := untagged_eq_union several
    rw [offered] at eq
    refine ⟨.inr ⟨_, eq⟩, by rw [eq]; rfl, ?_⟩
    have again : unique ([untagged xs].flatMap alternatives) = unique xs := by
      rw [List.flatMap_singleton, eq]
      exact unique_eq_self (nodup_unique xs)
    rw [untagged_eq_union (by rw [again]; exact fun s h => single ⟨s, h⟩), again, eq]

theorem records?_eq_none_of_mem {s : Shape} (member : s ∈ xs) (noRecord : s.fields? = none) :
    records? xs = none := by
  rw [← Option.not_isSome_iff_eq_none, records?_isSome_iff]
  intro records
  simpa [noRecord] using records s member

theorem elements?_eq_none_of_mem {s : Shape} (member : s ∈ xs) (noArray : s.element? = none) :
    elements? xs = none := by
  rw [← Option.not_isSome_iff_eq_none, elements?_isSome_iff]
  intro arrays
  simpa [noArray] using arrays s member

theorem Within.untagged (within : ∀ x ∈ xs, x.Within S) : (untagged xs).Within S := by
  have offered := Within.flatMap_alternatives within
  refine untagged_induction (fun s hs t member => ?_) fun _ => .union (by simp)
  exact offered t (List.mem_flatMap.2 ⟨s, hs, member⟩)

/-- Simple shapes merge into their union. -/
theorem mergeAll_simple_canonical_eq (apart : S.InjOn (Quoted.write .ascii)) (nonempty : xs ≠ [])
    (within : ∀ x ∈ xs, x.Within S) (simple : ∀ x ∈ xs, x.isSimple = true) :
    (mergeAll xs).canonical = (untagged xs).canonical := by
  obtain ⟨x, hx⟩ := List.exists_mem_of_ne_nil _ (unique_ne_nil nonempty)
  obtain ⟨noArray, noRecord, -⟩ := parts_of_isSimple (simple x (mem_of_mem_unique hx))
  apply mergeAll_canonical_eq_untagged apart within
  · exact records?_eq_none_of_mem (mem_of_mem_unique hx) noRecord
  · exact elements?_eq_none_of_mem hx noArray
  · intro y hy
    rw [untagged_singleton (parts_of_isSimple (simple y hy)).2.2]

theorem grouped_simple_canonical_eq (apart : S.InjOn (Quoted.write .ascii)) (nonempty : zs ≠ [])
    (nonempty' : ws ≠ []) (within : ∀ s ∈ zs ++ ws, s.Within S)
    (simple : ∀ s ∈ zs ++ ws, s.isSimple = true) :
    (mergeAll [mergeAll zs, mergeAll ws]).canonical = (mergeAll (zs ++ ws)).canonical := by
  obtain ⟨withinZ, withinW⟩ := List.forall_mem_append.1 within
  obtain ⟨simpleZ, simpleW⟩ := List.forall_mem_append.1 simple
  obtain ⟨rootZ, offersZ, wholeZ⟩ := untagged_of_simple simpleZ
  obtain ⟨-, offersW, wholeW⟩ := untagged_of_simple simpleW
  have unions : ∀ s ∈ [untagged zs, untagged ws], s.Within S := by
    simpa using ⟨Within.untagged withinZ, Within.untagged withinW⟩
  have merges : ∀ s ∈ [mergeAll zs, mergeAll ws], s.Within S := by
    simpa using ⟨Within.mergeAll withinZ, Within.mergeAll withinW⟩
  have noParts : (untagged zs).fields? = none ∧ (untagged zs).element? = none := by
    rcases rootZ with isSimple | ⟨variants, union⟩
    · exact ⟨(parts_of_isSimple isSimple).2.1, (parts_of_isSimple isSimple).1⟩
    · rw [union]
      exact ⟨rfl, rfl⟩
  have first : untagged zs ∈ unique [untagged zs, untagged ws] := by
    rw [unique_cons]
    exact List.mem_cons_self
  have alternatives : Alike ([untagged zs, untagged ws].flatMap alternatives)
      ((zs ++ ws).flatMap alternatives) := by
    rw [flatMap_alternatives_of_simple simple, List.flatMap_cons, List.flatMap_singleton, offersZ,
      offersW]
    exact (Alike.unique_right apart withinZ).symm.append (Alike.unique_right apart withinW).symm
  calc (mergeAll [mergeAll zs, mergeAll ws]).canonical
      = (mergeAll [untagged zs, untagged ws]).canonical :=
        (Alike.pair (mergeAll_simple_canonical_eq apart nonempty withinZ simpleZ)
          (mergeAll_simple_canonical_eq apart nonempty' withinW simpleW)).mergeAll_canonical_eq
          apart merges unions
    _ = (untagged [untagged zs, untagged ws]).canonical := by
        apply mergeAll_canonical_eq_untagged apart unions
        · exact records?_eq_none_of_mem List.mem_cons_self noParts.1
        · exact elements?_eq_none_of_mem first noParts.2
        · simp [wholeZ, wholeW]
    _ = (untagged (zs ++ ws)).canonical :=
        Alike.untagged_canonical_eq_of_alternatives apart unions within alternatives
    _ = (mergeAll (zs ++ ws)).canonical :=
        (mergeAll_simple_canonical_eq apart (List.append_ne_nil_of_left_ne_nil nonempty ws) within
          simple).symm

/-- A merge of compatible shapes is one of them, or neither an option nor unknown. -/
theorem mergeAll_mem_or (nonempty : xs ≠ []) (compatible : xs.Pairwise Compatible) :
    mergeAll xs ∈ xs ∨ ((mergeAll xs).isOptional = false ∧ mergeAll xs ≠ .unknown) := by
  induction xs using mergeInduction with
  | records records ih =>
      rw [mergeAll_objects]
      exact .inr ⟨rfl, by simp⟩
  | only xs s hr single =>
      rw [mergeAll_of_unique hr single]
      exact .inl (mem_of_unique_eq_singleton single)
  | elements xs elements hr several arrays ih =>
      rw [mergeAll_of_elements hr several (elements?_eq_some_iff.2 arrays)]
      exact .inr ⟨rfl, by simp⟩
  | distinct xs hr several he =>
      have two : 2 ≤ xs.length := by
        apply two_le_length nonempty
        rintro s rfl
        exact several s (unique_singleton s)
      rw [mergeAll_of_distinct hr several he]
      rcases Compatible.kinds two compatible with simple | ⟨elements, rfl⟩ | ⟨records, rfl⟩
      · obtain ⟨isSimple | ⟨variants, union⟩, -⟩ :=
          untagged_of_simple fun s hs => simple s (mem_of_mem_unique hs)
        · exact .inr (required_of_isSimple isSimple)
        · rw [union]
          exact .inr ⟨rfl, by simp⟩
      · have arrays : ∀ s ∈ unique (elements.map Shape.array), s.element?.isSome = true := by
          intro s hs
          obtain ⟨e, -, rfl⟩ := List.mem_map.1 (mem_of_mem_unique hs)
          rfl
        simp [← elements?_isSome_iff, he] at arrays
      · cases hr.symm.trans (records?_eq_some_iff.2 rfl)

theorem mergeAll_informative_unknown {elements : List Shape} (nonempty : elements ≠ [])
    (h : ∀ e ∈ elements, e = .unknown) : mergeAll (informative elements) = .unknown := by
  obtain ⟨first, rest, eq⟩ := List.exists_cons_of_ne_nil (informative_ne_nil nonempty)
  have unknown : ∀ e ∈ first :: rest, e = .unknown :=
    fun e he => h e (mem_of_mem_informative (eq ▸ he))
  rw [eq, unknown first List.mem_cons_self]
  apply (Built.scalar _).mergeAll_eq_self
  intro e he
  rw [unknown e (List.mem_cons_of_mem _ he)]

variable {es fs : List Shape}

/-- A merge of element types is unknown exactly if nothing is known of them. -/
theorem informative_cases (nonempty : es ≠ [])
    (compatible : (es.map Shape.array).Pairwise Compatible) :
    ((∀ e ∈ es, e = .unknown) ∧ mergeAll (informative es) = .unknown) ∨
      ((∃ e ∈ es, e ≠ .unknown) ∧ mergeAll (informative es) ≠ .unknown) := by
  by_cases none : ∀ e ∈ es, e = .unknown
  · exact .inl ⟨none, mergeAll_informative_unknown nonempty none⟩
  · have some : ∃ e ∈ es, e ≠ .unknown := by
      simpa using none
    have eq := informative_eq_filter some
    refine .inr ⟨some, ?_⟩
    rcases mergeAll_mem_or (informative_ne_nil nonempty) (eq ▸ Compatible.known compatible)
      with member | ⟨-, known⟩
    · have kept := (mem_informative_iff.1 member).2
      exact kept.resolve_right none
    · exact known

/-- What is known of the element types of two groups of arrays merges in groups, if it does where
something is known of both. -/
theorem grouped_elements_canonical_eq (nonempty : es ≠ []) (nonempty' : fs ≠ [])
    (built : ∀ e ∈ es ++ fs, e.Built)
    (compatible : ((es ++ fs).map Shape.array).Pairwise Compatible)
    (known : (∃ e ∈ es, e ≠ .unknown) → (∃ f ∈ fs, f ≠ .unknown) →
      (mergeAll [mergeAll (informative es), mergeAll (informative fs)]).canonical =
        (mergeAll (informative es ++ informative fs)).canonical) :
    (mergeAll (informative [mergeAll (informative es), mergeAll (informative fs)])).canonical =
      (mergeAll (informative (es ++ fs))).canonical := by
  rw [List.map_append] at compatible
  obtain ⟨builtE, builtF⟩ := List.forall_mem_append.1 built
  have mergedE := Built.mergeAll fun e he => builtE e (mem_of_mem_informative he)
  have mergedF := Built.mergeAll fun e he => builtF e (mem_of_mem_informative he)
  have casesE := informative_cases nonempty (List.pairwise_append.1 compatible).1
  have casesF := informative_cases nonempty' (List.pairwise_append.1 compatible).2.1
  rw [← List.singleton_append]
  rcases casesE with ⟨noneE, unknownE⟩ | ⟨someE, knownE⟩
  · rcases casesF with ⟨noneF, unknownF⟩ | ⟨someF, knownF⟩
    · -- nothing is known
      rw [mergeAll_informative_unknown (by simp) (by simp [unknownE, unknownF]),
        mergeAll_informative_unknown (by simp [nonempty])
          (List.forall_mem_append.2 ⟨noneE, noneF⟩)]
    · rw [informative_append_of_unknown_left (by simpa using unknownE) (by simpa using knownF),
        informative_append_of_unknown_left noneE someF, informative_singleton,
        mergedF.mergeAll_singleton]
  · rcases casesF with ⟨noneF, unknownF⟩ | ⟨someF, knownF⟩
    · rw [informative_append_of_unknown_right (by simpa using knownE) (by simpa using unknownF),
        informative_append_of_unknown_right someE noneF, informative_singleton,
        mergedE.mergeAll_singleton]
    · rw [informative_append (by simpa using knownE) (by simpa using knownF),
        informative_append someE someF, informative_singleton, informative_singleton]
      exact known someE someF

theorem grouped_arrays_canonical_eq (apart : S.InjOn (Quoted.write .ascii)) (nonempty : es ≠ [])
    (nonempty' : fs ≠ []) (built : ∀ e ∈ es ++ fs, e.Built)
    (within : ∀ s ∈ (es ++ fs).map Shape.array, s.Within S)
    (same : (mergeAll (informative [mergeAll (informative es),
      mergeAll (informative fs)])).canonical = (mergeAll (informative (es ++ fs))).canonical) :
    (mergeAll [mergeAll (es.map Shape.array), mergeAll (fs.map Shape.array)]).canonical =
      (mergeAll ((es ++ fs).map Shape.array)).canonical := by
  obtain ⟨builtE, builtF⟩ := List.forall_mem_append.1 built
  obtain ⟨withinE, withinF⟩ := List.forall_mem_append.1 (List.map_append ▸ within)
  have merged : ∀ e ∈ [mergeAll (informative es), mergeAll (informative fs)], e.Built := by
    simpa using ⟨Built.mergeAll fun e he => builtE e (mem_of_mem_informative he),
      Built.mergeAll fun e he => builtF e (mem_of_mem_informative he)⟩
  have arrays : ∀ s ∈ [mergeAll (informative es), mergeAll (informative fs)].map Shape.array,
      s.Within S := by
    simpa using ⟨.array (Within.mergeAll (Within.informative withinE)),
      .array (Within.mergeAll (Within.informative withinF))⟩
  have merges : ∀ s ∈ [mergeAll (es.map Shape.array), mergeAll (fs.map Shape.array)],
      s.Within S := by
    simpa using ⟨Within.mergeAll withinE, Within.mergeAll withinF⟩
  calc (mergeAll [mergeAll (es.map Shape.array), mergeAll (fs.map Shape.array)]).canonical
      = (mergeAll ([mergeAll (informative es),
          mergeAll (informative fs)].map Shape.array)).canonical :=
        (Alike.pair
          (mergeAll_arrays_canonical_eq apart nonempty withinE (Built.uniform nonempty builtE))
          (mergeAll_arrays_canonical_eq apart nonempty' withinF
            (Built.uniform nonempty' builtF))).mergeAll_canonical_eq apart merges arrays
    _ = (Shape.array (mergeAll (informative [mergeAll (informative es),
          mergeAll (informative fs)]))).canonical :=
        mergeAll_arrays_canonical_eq apart (by simp) arrays (Built.uniform (by simp) merged)
    _ = (Shape.array (mergeAll (informative (es ++ fs)))).canonical :=
        canonical_eq_array_iff.2 ⟨_, rfl, same⟩
    _ = (mergeAll ((es ++ fs).map Shape.array)).canonical :=
        (mergeAll_arrays_canonical_eq apart (by simp [nonempty]) within
          (Built.uniform (by simp [nonempty]) built)).symm

theorem isOptional_mergeAll_heldAt (built : ∀ s ∈ records.map Shape.object, s.Built)
    (compatible : (records.map Shape.object).Pairwise Compatible) (key : Text) :
    (mergeAll (heldAt records key)).isOptional = false := by
  by_cases nothing : heldAt records key = []
  · rw [nothing]
    exact congrArg isOptional (mergeAll_objects [])
  · rcases mergeAll_mem_or nothing (Compatible.heldAt compatible key) with member | ⟨required, -⟩
    · exact (Built.heldAt built key _ member).2
    · exact required

/-- Records merge in groups, if their values do at each key that both groups hold. -/
theorem grouped_records_canonical_eq (nonempty : records ≠ []) (nonempty' : others ≠ [])
    (built : ∀ s ∈ (records ++ others).map Shape.object, s.Built)
    (compatible : ((records ++ others).map Shape.object).Pairwise Compatible)
    (values : ∀ key ∈ Fields.union ((records ++ others).map Fields.keys),
      heldAt records key ≠ [] → heldAt others key ≠ [] →
      (mergeAll [mergeAll (heldAt records key), mergeAll (heldAt others key)]).canonical =
        (mergeAll (heldAt records key ++ heldAt others key)).canonical) :
    (Shape.object (mergedFields [mergedFields records, mergedFields others])).canonical =
      (Shape.object (mergedFields (records ++ others))).canonical := by
  rw [List.map_append] at built compatible
  obtain ⟨builtHere, builtThere⟩ := List.forall_mem_append.1 built
  obtain ⟨compatibleHere, compatibleThere, -⟩ := List.pairwise_append.1 compatible
  refine mergedFields_canonical_eq (fun key => by rw [keys_grouped]) fun key listed => ?_
  rw [keys_grouped] at listed
  have required := isOptional_mergeAll_heldAt builtHere compatibleHere key
  have required' := isOptional_mergeAll_heldAt builtThere compatibleThere key
  refine mergedAt_canonical_eq (lax_grouped nonempty nonempty' required required') ?_
  have mergedHere := Built.mergeAll fun s hs => (Built.heldAt builtHere key s hs).1
  have mergedThere := Built.mergeAll fun s hs => (Built.heldAt builtThere key s hs).1
  rw [← List.singleton_append, heldAt_append, heldAt_append, heldAt_mergedFields required,
    heldAt_mergedFields required']
  by_cases here : key ∈ Fields.union (records.map Fields.keys)
  · by_cases there : key ∈ Fields.union (others.map Fields.keys)
    · rw [if_pos here, if_pos there]
      exact values key listed (heldAt_ne_nil here) (heldAt_ne_nil there)
    · rw [if_pos here, if_neg there, heldAt_eq_nil there, List.append_nil, List.append_nil,
        mergedHere.mergeAll_singleton]
  · by_cases there : key ∈ Fields.union (others.map Fields.keys)
    · rw [if_neg here, if_pos there, heldAt_eq_nil here, List.nil_append, List.nil_append,
        mergedThere.mergeAll_singleton]
    · rw [if_neg here, if_neg there, heldAt_eq_nil here, heldAt_eq_nil there]

theorem depthAll_lt_of_arrays {elements part : List Shape} (nonempty : elements ≠ [])
    (listed : ∀ e ∈ part, e ∈ elements) : depthAll part < depthAll (elements.map Shape.array) := by
  obtain ⟨e, he⟩ := List.exists_mem_of_ne_nil elements nonempty
  have pos := depthAll_pos_of_mem (List.mem_map.2 ⟨e, he, rfl⟩ :
    Shape.array e ∈ elements.map Shape.array)
  have bound : depthAll part ≤ depthAll (elements.map Shape.array) - 1 := by
    refine depthAll_le_iff.2 fun s hs => ?_
    have outer := depth_le_depthAll (List.mem_map.2 ⟨s, listed s hs, rfl⟩ :
      Shape.array s ∈ elements.map Shape.array)
    rw [depth] at outer
    omega
  omega

/-- Compatible shapes merge in groups into the form that they merge into at once. -/
theorem grouped_canonical_eq (apart : S.InjOn (Quoted.write .ascii)) (nonempty : zs ≠ [])
    (nonempty' : ws ≠ []) (built : ∀ s ∈ zs ++ ws, s.Built) (within : ∀ s ∈ zs ++ ws, s.Within S)
    (compatible : (zs ++ ws).Pairwise Compatible) :
    (mergeAll [mergeAll zs, mergeAll ws]).canonical = (mergeAll (zs ++ ws)).canonical := by
  -- both merges go down the same way, so the depth of all shapes together decreases
  induction size : depthAll (zs ++ ws) using Nat.strong_induction_on generalizing zs ws with
  | _ n ih =>
      subst size
      have two : 2 ≤ (zs ++ ws).length := by
        have some := List.length_pos_iff.2 nonempty
        have some' := List.length_pos_iff.2 nonempty'
        rw [List.length_append]
        omega
      rcases Compatible.kinds two compatible with simple | ⟨elements, eq⟩ | ⟨records, eq⟩
      · exact grouped_simple_canonical_eq apart nonempty nonempty' within simple
      · obtain ⟨es, fs, rfl, rfl, rfl⟩ := List.append_eq_map_iff.1 eq
        rw [← List.map_append] at built within compatible ih ⊢
        have some : es ≠ [] := by simpa using nonempty
        have some' : fs ≠ [] := by simpa using nonempty'
        have below := Built.of_arrays built
        apply grouped_arrays_canonical_eq apart some some' below within
        apply grouped_elements_canonical_eq some some' below compatible
        intro someE someF
        have parts := informative_append someE someF
        obtain ⟨e, he, known⟩ := someE
        have filtered := informative_eq_filter ⟨e, List.mem_append_left fs he, known⟩
        refine ih _ ?_ (informative_ne_nil some) (informative_ne_nil some') ?_ ?_ ?_ rfl <;>
          rw [← parts]
        · exact depthAll_lt_of_arrays (by simp [some]) fun e he => mem_of_mem_informative he
        · exact fun e he => below e (mem_of_mem_informative he)
        · exact Within.informative within
        · exact filtered ▸ Compatible.known compatible
      · obtain ⟨records, others, rfl, rfl, rfl⟩ := List.append_eq_map_iff.1 eq
        rw [← List.map_append] at built within compatible ih
        rw [mergeAll_objects, mergeAll_objects, ← List.map_append, mergeAll_objects,
          mergeAll_pair_objects]
        apply grouped_records_canonical_eq (by simpa using nonempty) (by simpa using nonempty')
          built compatible
        intro key listed some some'
        have parts := heldAt_append records others key
        refine ih _ ?_ some some' ?_ ?_ ?_ rfl <;> rw [← parts]
        · exact depthAll_valuesAt_lt (records?_eq_some_iff.2 rfl) listed
        · exact fun s hs => (Built.heldAt built key s hs).1
        · exact Within.valuesAt within key
        · exact Compatible.heldAt compatible key

/-- Merging records in two groups and merging the merges succeeds, and so does merging them at once.
The keys are the same in the same order. The same keys are optional if the values of the records are
definite. If the records are compatible trees over texts that spellings tell apart, the merges have
one form. -/
theorem grouped_merges_agree (xs ys : List Shape) (nonempty : xs ≠ []) (nonempty' : ys ≠ [])
    (records : ∀ s ∈ xs ++ ys, s.fields?.isSome = true)
    (known : ∀ s ∈ xs ++ ys, s.foreign? = none) :
    ∃ m n grouped whole, mergeRecords xs = .ok m ∧ mergeRecords ys = .ok n ∧
      mergeRecords [m, n] = .ok (.object grouped) ∧
      mergeRecords (xs ++ ys) = .ok (.object whole) ∧
      Fields.keys grouped = Fields.keys whole ∧
      ((∀ fields, .object fields ∈ xs ++ ys → ∀ f ∈ fields, f.2.unwrap.Definite) →
        optionalKeys grouped = optionalKeys whole) ∧
      ∀ S : Set Text, S.InjOn (Quoted.write .ascii) →
        (∀ s ∈ xs ++ ys, s.Built ∧ s.Within S) → (xs ++ ys).Pairwise Compatible →
        (Shape.object grouped).canonical = (Shape.object whole).canonical := by
  obtain ⟨all, eq⟩ := Option.isSome_iff_exists.1 (records?_isSome_iff.2 records)
  obtain ⟨as, bs, rfl, rfl, rfl⟩ := List.append_eq_map_iff.1 (records?_eq_some_iff.1 eq)
  have within : ∀ s ∈ as.map Shape.object ++ bs.map Shape.object, s.Within .univ :=
    fun s hs => within_univ (known s hs)
  obtain ⟨withinA, withinB⟩ := List.forall_mem_append.1 within
  obtain ⟨recordsA, recordsB⟩ := List.forall_mem_append.1 records
  have merges : ∀ s ∈ [Shape.object (mergedFields as), .object (mergedFields bs)],
      s.Within .univ := by
    rw [← mergeAll_objects, ← mergeAll_objects]
    simpa using ⟨Within.mergeAll withinA, Within.mergeAll withinB⟩
  refine ⟨.object (mergedFields as), .object (mergedFields bs),
    mergedFields [mergedFields as, mergedFields bs], mergedFields (as ++ bs), ?_, ?_, ?_, ?_, ?_,
    ?_, ?_⟩
  · rw [mergeRecords_eq_ok nonempty withinA recordsA, mergeAll_objects]
  · rw [mergeRecords_eq_ok nonempty' withinB recordsB, mergeAll_objects]
  · rw [mergeRecords_eq_ok (by simp) merges (by simp [fields?]),
      mergeAll_pair_objects]
  · rw [mergeRecords_eq_ok (by simp [nonempty]) within records, ← List.map_append,
      mergeAll_objects]
  · rw [keys_mergedFields, keys_mergedFields, keys_grouped]
  · intro definite
    apply optionalKeys_grouped (by simpa using nonempty) (by simpa using nonempty')
    intro fields hf
    apply definite
    rw [← List.map_append]
    exact List.mem_map.2 ⟨fields, hf, rfl⟩
  · intro S apart tree compatible
    have same := grouped_canonical_eq apart nonempty nonempty' (fun s hs => (tree s hs).1)
      (fun s hs => (tree s hs).2) compatible
    rwa [← List.map_append, mergeAll_objects, mergeAll_objects, mergeAll_objects,
      mergeAll_pair_objects] at same

/-- Two groups of two records hold four scalars at a key, one of them as an option. -/
theorem grouped_merges_agree_scalars :
    let xs : List Shape := [.object [("a", .number)], .object [("a", .optional .string)]]
    let ys : List Shape := [.object [("a", .boolean)], .object [("a", .null)]]
    ∃ m n grouped whole, mergeRecords xs = .ok m ∧ mergeRecords ys = .ok n ∧
      mergeRecords [m, n] = .ok (.object grouped) ∧
      mergeRecords (xs ++ ys) = .ok (.object whole) ∧
      Fields.keys grouped = Fields.keys whole ∧ optionalKeys grouped = optionalKeys whole ∧
      (Shape.object grouped).canonical = (Shape.object whole).canonical := by
  intro xs ys
  obtain ⟨m, n, grouped, whole, first, second, pair, all, keys, flags, form⟩ :=
    grouped_merges_agree xs ys (List.cons_ne_nil _ _) (List.cons_ne_nil _ _) (by decide) (by decide)
  have apart : {t : Text | t.IsPlain}.InjOn (Quoted.write .ascii) :=
    Quoted.injOn_write_of_unsplit fun t => Text.unsplit_of_isPlain
  have records : ∀ s ∈ xs ++ ys, ∃ t : Shape, s = .object [("a", t)] ∧ t.Built ∧
      t.Within {t | t.IsPlain} ∧ t.unwrap.isSimple = true := by
    have scalar : ∀ kind : Scalar, kind ≠ .unknown → ∃ t : Shape,
        Shape.object [("a", .scalar kind)] = .object [("a", t)] ∧ t.Built ∧
          t.Within {t | t.IsPlain} ∧ t.unwrap.isSimple = true :=
      fun kind known => ⟨_, rfl, .scalar kind, .scalar kind, decide_eq_true known⟩
    refine List.forall_mem_cons.2 ⟨scalar .number (by decide), List.forall_mem_cons.2 ⟨?_,
      List.forall_mem_cons.2 ⟨scalar .boolean (by decide),
        List.forall_mem_singleton.2 (scalar .null (by decide))⟩⟩⟩
    exact ⟨_, rfl, .optional rfl (.scalar _), .optional (.scalar _), rfl⟩
  refine ⟨m, n, grouped, whole, first, second, pair, all, keys, flags ?_, form _ apart ?_ ?_⟩
  · intro fields listed
    obtain ⟨t, eq, -, -, simple⟩ := records _ listed
    cases eq
    refine List.forall_mem_singleton.2 (.other (required_of_isSimple simple).1 ?_)
    rintro variants union
    rw [union] at simple
    cases simple
  · intro s listed
    obtain ⟨t, rfl, built, within, -⟩ := records s listed
    have word : Text.ofString "a" ∈ {t : Text | t.IsPlain} := by decide
    exact ⟨.object (List.nodup_singleton _) (List.forall_mem_singleton.2 built),
      .object (List.forall_mem_singleton.2 word) (List.forall_mem_singleton.2 within)⟩
  · refine List.pairwise_of_forall_mem_list fun s hs s' hs' => ?_
    obtain ⟨t, rfl, -, -, simple⟩ := records s hs
    obtain ⟨t', rfl, -, -, simple'⟩ := records s' hs'
    refine .records fun key u u' found found' => ?_
    obtain ⟨-, rfl⟩ := Prod.mk.inj (List.mem_singleton.1 (Fields.mem_of_get?_eq_some found))
    obtain ⟨-, rfl⟩ := Prod.mk.inj (List.mem_singleton.1 (Fields.mem_of_get?_eq_some found'))
    exact .simple simple simple'

/-- A merge of two unions with one option each holds this option at the key. It counts as one around
the property when the merge is merged again, but not when all records are merged at once. -/
theorem mergeRecords_hiddenOption :
    ∃ m n grouped whole,
      mergeRecords [.object [("k", .union none [.optional .number])],
        .object [("k", .union none [.optional .number, .optional .number])]] = .ok m ∧
      mergeRecords [.object [("k", .string)]] = .ok n ∧
      mergeRecords [m, n] = .ok (.object grouped) ∧
      mergeRecords [.object [("k", .union none [.optional .number])],
        .object [("k", .union none [.optional .number, .optional .number])],
        .object [("k", .string)]] = .ok (.object whole) ∧
      optionalKeys grouped ≠ optionalKeys whole :=
  ⟨.object [("k", .optional .number)], .object [("k", .string)],
    [("k", .optional (.union none [.number, .string]))],
    [("k", .union none [.optional .number, .string])],
    by decide +kernel, by decide +kernel, by decide +kernel, by decide +kernel, by decide +kernel⟩

end Shape

end JsonShapes
