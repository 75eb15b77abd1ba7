import JsonShapes.Proofs.MergeOrder

/-!
# What records, arrays and unions merge into

The merge of records holds all of their keys, and at each key the merge of what they hold there. A
key that one of them does not require is optional in the merge. Two merges of records have one form
if they hold the same keys, at each of them values that merge into one form, and both or neither of
them an option.

As long as a merge of values is not an option itself, the option around a merged property says
exactly that one of the records does not require it, and what is below the option is the merge.

Arrays merge into an array of the merge of what is known of their element types, and whatever is
neither all records nor all arrays into the untagged union of all alternatives.
-/

namespace JsonShapes

namespace Shape

/-- What records hold at a key, without the options around it. -/
def heldAt (records : List (List (Text × Shape))) (key : Text) : List Shape :=
  (valuesAt records key).map unwrap

/-- One of the records does not require the key: it lacks it or holds an option there. -/
def Lax (records : List (List (Text × Shape))) (key : Text) : Prop :=
  ∃ fields ∈ records, ∀ s, Fields.get? fields key = some s → s.isOptional = true

/-- What the merge of records holds at one of their keys. -/
def mergedAt (records : List (List (Text × Shape))) (key : Text) : Shape :=
  mergedField records.length (valuesAt records key) (mergeAll (heldAt records key))

/-- The properties of the merge of records. -/
def mergedFields (records : List (List (Text × Shape))) : List (Text × Shape) :=
  (Fields.union (records.map Fields.keys)).map fun key => (key, mergedAt records key)

theorem required_eq_self {s : Shape} (h : s.isOptional = false) : s.required = s := by
  cases s with
  | optional inner => cases h
  | _ => rfl

theorem unwrap_eq_self {s : Shape} (h : s.isOptional = false) : s.unwrap = s := by
  cases s with
  | optional inner => cases h
  | _ => rfl

variable {records others : List (List (Text × Shape))} {fields : List (Text × Shape)} {key : Text}

theorem mergeAll_objects (records : List (List (Text × Shape))) :
    mergeAll (records.map Shape.object) = .object (mergedFields records) :=
  mergeAll_of_records (records?_eq_some_iff.2 rfl)

theorem keys_mergedFields (records : List (List (Text × Shape))) :
    Fields.keys (mergedFields records) = Fields.union (records.map Fields.keys) :=
  Fields.keys_map_keys _ _

theorem get?_mergedFields (h : key ∈ Fields.union (records.map Fields.keys)) :
    Fields.get? (mergedFields records) key = some (mergedAt records key) := by
  rw [mergedFields, Fields.get?_map_keys, if_pos h]

theorem get?_mergedFields_eq_none (h : key ∉ Fields.union (records.map Fields.keys)) :
    Fields.get? (mergedFields records) key = none := by
  rw [mergedFields, Fields.get?_map_keys, if_neg h]

theorem heldAt_append (records others : List (List (Text × Shape))) (key : Text) :
    heldAt (records ++ others) key = heldAt records key ++ heldAt others key := by
  rw [heldAt, valuesAt, List.filterMap_append, List.map_append]
  rfl

theorem heldAt_singleton_of_some {s : Shape} (found : Fields.get? fields key = some s) :
    heldAt [fields] key = [s.unwrap] := by
  simp [heldAt, valuesAt, found]

theorem heldAt_singleton_of_none (missing : Fields.get? fields key = none) :
    heldAt [fields] key = [] := by
  simp [heldAt, valuesAt, missing]

theorem heldAt_ne_nil (h : key ∈ Fields.union (records.map Fields.keys)) :
    heldAt records key ≠ [] := by
  obtain ⟨fields, hf, s, found⟩ := exists_get?_of_mem_union h
  exact List.ne_nil_of_mem (mem_valuesAt_unwrap.2 ⟨fields, hf, s, found, rfl⟩)

theorem heldAt_eq_nil (h : key ∉ Fields.union (records.map Fields.keys)) :
    heldAt records key = [] := by
  refine List.eq_nil_iff_forall_not_mem.2 fun s hs => h ?_
  obtain ⟨fields, hf, t, found, -⟩ := mem_valuesAt_unwrap.1 hs
  exact mem_union_of_get? hf found

theorem lax_append : Lax (records ++ others) key ↔ Lax records key ∨ Lax others key := by
  simp only [Lax, List.mem_append, or_and_right, exists_or]

theorem lax_singleton :
    Lax [fields] key ↔ ∀ s, Fields.get? fields key = some s → s.isOptional = true := by
  simp only [Lax, List.mem_singleton, exists_eq_left]

theorem lax_of_not_mem (nonempty : records ≠ [])
    (h : key ∉ Fields.union (records.map Fields.keys)) : Lax records key := by
  obtain ⟨fields, hf⟩ := List.exists_mem_of_ne_nil records nonempty
  exact ⟨fields, hf, fun s found => absurd (mem_union_of_get? hf found) h⟩

theorem mergedAt_of_lax (lax : Lax records key) :
    mergedAt records key = (mergeAll (heldAt records key)).asOptional := by
  rcases mergedField_cases records key (mergeAll (heldAt records key)) with ⟨-, eq⟩ | ⟨strict, -⟩
  · exact eq
  · obtain ⟨fields, hf, optional⟩ := lax
    obtain ⟨s, found, required⟩ := strict fields hf
    cases (optional s found).symm.trans required

theorem mergedAt_of_not_lax (strict : ¬Lax records key) :
    mergedAt records key = mergeAll (heldAt records key) := by
  rcases mergedField_cases records key (mergeAll (heldAt records key)) with ⟨lax, -⟩ | ⟨-, eq⟩
  · exact absurd lax strict
  · exact eq

section

variable (required : (mergeAll (heldAt records key)).isOptional = false)

include required

/-- Below its option a merged property is the merge of the values. -/
theorem unwrap_mergedAt : (mergedAt records key).unwrap = mergeAll (heldAt records key) := by
  by_cases lax : Lax records key
  · rw [mergedAt_of_lax lax, asOptional, required_eq_self required]
    rfl
  · rw [mergedAt_of_not_lax lax, unwrap_eq_self required]

theorem isOptional_mergedAt_iff : (mergedAt records key).isOptional = true ↔ Lax records key := by
  by_cases lax : Lax records key
  · rw [mergedAt_of_lax lax]
    exact ⟨fun _ => lax, fun _ => rfl⟩
  · rw [mergedAt_of_not_lax lax, required]
    simp [lax]

/-- A merge of records requires the keys that all of them require. -/
theorem lax_mergedFields (nonempty : records ≠ []) :
    Lax [mergedFields records] key ↔ Lax records key := by
  rw [lax_singleton]
  by_cases listed : key ∈ Fields.union (records.map Fields.keys)
  · rw [get?_mergedFields listed]
    simpa using isOptional_mergedAt_iff required
  · rw [get?_mergedFields_eq_none listed]
    simpa using lax_of_not_mem nonempty listed

end

theorem mergedAt_canonical_eq (flags : Lax records key ↔ Lax others key)
    (same : (mergeAll (heldAt records key)).canonical = (mergeAll (heldAt others key)).canonical) :
    (mergedAt records key).canonical = (mergedAt others key).canonical := by
  by_cases lax : Lax records key
  · rw [mergedAt_of_lax lax, mergedAt_of_lax (flags.1 lax), asOptional_canonical_eq same]
  · rw [mergedAt_of_not_lax lax, mergedAt_of_not_lax fun there => lax (flags.2 there), same]

theorem mergedFields_canonical_eq
    (keys : ∀ key, key ∈ Fields.union (records.map Fields.keys) ↔
      key ∈ Fields.union (others.map Fields.keys))
    (values : ∀ key ∈ Fields.union (records.map Fields.keys),
      (mergedAt records key).canonical = (mergedAt others key).canonical) :
    (Shape.object (mergedFields records)).canonical =
      (Shape.object (mergedFields others)).canonical := by
  refine canonical_object_eq (by rw [keys_mergedFields]; exact Fields.nodup_union _)
    (by rw [keys_mergedFields]; exact Fields.nodup_union _) fun key => ?_
  by_cases listed : key ∈ Fields.union (records.map Fields.keys)
  · rw [get?_mergedFields listed, get?_mergedFields ((keys key).1 listed), Option.map_some,
      Option.map_some, values key listed]
  · rw [get?_mergedFields_eq_none listed,
      get?_mergedFields_eq_none fun there => listed ((keys key).2 there)]

variable {S : Set Text} {xs ys : List Shape}

theorem unique_cons (s : Shape) (rest : List Shape) :
    unique (s :: rest) = s :: uniqueAfter [s.canonicalText] rest := by
  simp [unique, uniqueAfter]

@[simp] theorem unique_singleton (s : Shape) : unique [s] = [s] :=
  unique_cons s []

theorem mem_of_unique_eq_singleton {s : Shape} (single : unique xs = [s]) : s ∈ xs :=
  mem_of_mem_unique (single ▸ List.mem_singleton_self s)

/-- Beside element types that are known, unknown ones do not count. -/
theorem informative_eq_filter (some : ∃ e ∈ xs, e ≠ .unknown) :
    informative xs = xs.filter fun e => e ≠ .unknown := by
  rw [informative]
  split
  · next none =>
      obtain ⟨e, he, known⟩ := some
      exact absurd (by simpa using known) (List.filter_eq_nil_iff.1 none e he)
  · rfl

theorem informative_singleton (s : Shape) : informative [s] = [s] := by
  rw [informative]
  split
  · rfl
  · next some => exact List.filter_eq_self.2 (by simpa using some)

theorem informative_append (some : ∃ e ∈ xs, e ≠ .unknown) (some' : ∃ e ∈ ys, e ≠ .unknown) :
    informative (xs ++ ys) = informative xs ++ informative ys := by
  obtain ⟨e, he, known⟩ := id some
  rw [informative_eq_filter ⟨e, List.mem_append_left _ he, known⟩, List.filter_append,
    informative_eq_filter some, informative_eq_filter some']

theorem filter_eq_nil_of_unknown (none : ∀ e ∈ xs, e = .unknown) :
    xs.filter (fun e => e ≠ .unknown) = [] := by
  simpa [List.filter_eq_nil_iff] using none

theorem informative_append_of_unknown_left (none : ∀ e ∈ xs, e = .unknown)
    (some : ∃ e ∈ ys, e ≠ .unknown) : informative (xs ++ ys) = informative ys := by
  obtain ⟨e, he, known⟩ := id some
  rw [informative_eq_filter ⟨e, List.mem_append_right _ he, known⟩, List.filter_append,
    filter_eq_nil_of_unknown none, List.nil_append, informative_eq_filter some]

theorem informative_append_of_unknown_right (some : ∃ e ∈ xs, e ≠ .unknown)
    (none : ∀ e ∈ ys, e = .unknown) : informative (xs ++ ys) = informative xs := by
  obtain ⟨e, he, known⟩ := id some
  rw [informative_eq_filter ⟨e, List.mem_append_left _ he, known⟩, List.filter_append,
    filter_eq_nil_of_unknown none, List.append_nil, informative_eq_filter some]

/-- Arrays merge into an array of what is merged of their element types, if element types of one
form merge into that form. -/
theorem mergeAll_arrays_canonical_eq (apart : S.InjOn (Quoted.write .ascii)) {elements : List Shape}
    (nonempty : elements ≠ []) (within : ∀ s ∈ elements.map Shape.array, s.Within S)
    (uniform : ∀ e ∈ elements, (∀ f ∈ elements, f.canonical = e.canonical) →
      (mergeAll (informative elements)).canonical = e.canonical) :
    (mergeAll (elements.map Shape.array)).canonical =
      (Shape.array (mergeAll (informative elements))).canonical := by
  have mixed : records? (elements.map Shape.array) = none := by
    obtain ⟨e, rest, rfl⟩ := List.exists_cons_of_ne_nil nonempty
    rfl
  have distinct := Alike.unique_right apart within
  by_cases single : ∃ s, unique (elements.map Shape.array) = [s]
  · obtain ⟨s, single⟩ := single
    obtain ⟨e, he, rfl⟩ := List.mem_map.1 (mem_of_unique_eq_singleton single)
    rw [mergeAll_of_unique mixed single]
    refine canonical_eq_array_iff.2 ⟨e, rfl, (uniform e he fun f hf => ?_).symm⟩
    rw [single] at distinct
    have alike : Represented (elements.map Shape.array) ([e].map Shape.array) := distinct.1
    obtain ⟨f', hf', form⟩ := alike.of_arrays f hf
    rwa [List.mem_singleton.1 hf'] at form
  · have several : ∀ s, unique (elements.map Shape.array) ≠ [s] := fun s h => single ⟨s, h⟩
    obtain ⟨others, eq⟩ := Option.isSome_iff_exists.1
      (distinct.elements_isSome (by rw [elements?_eq_some_iff.2 rfl]; rfl))
    have arrays := elements?_eq_some_iff.1 eq
    rw [mergeAll_of_elements mixed several eq]
    rw [arrays] at distinct
    refine canonical_eq_array_iff.2 ⟨_, rfl, ?_⟩
    refine distinct.symm.of_arrays.informative.mergeAll_canonical_eq apart ?_ ?_
    · exact Within.informative (arrays ▸ Within.unique within)
    · exact Within.informative within

theorem untagged_eq_union (several : ∀ s, unique (xs.flatMap alternatives) ≠ [s]) :
    untagged xs = .union none (unique (xs.flatMap alternatives)) := by
  rw [untagged]
  split
  · next s single => exact absurd single (several s)
  · rfl

theorem untagged_singleton {s : Shape} (solid : alternatives s = [s]) : untagged [s] = s := by
  rw [untagged, List.flatMap_singleton, solid, unique_singleton]

/-- A union of shapes has what all alternatives have, if a union of such alternatives has it. -/
theorem untagged_induction {P : Shape → Prop} (offered : ∀ s ∈ xs, ∀ t ∈ alternatives s, P t)
    (union : ∀ variants, (∀ t ∈ variants, P t) → P (.union none variants)) : P (untagged xs) := by
  have distinct : ∀ t ∈ unique (xs.flatMap alternatives), P t := by
    intro t ht
    obtain ⟨s, hs, member⟩ := List.mem_flatMap.1 (mem_of_mem_unique ht)
    exact offered s hs t member
  rw [untagged]
  split
  · next t single => exact distinct t (single ▸ List.mem_singleton_self t)
  · exact union _ distinct

/-- Shapes that are neither all records nor all arrays merge into the union of their alternatives,
if each of them is the union of its own. -/
theorem mergeAll_canonical_eq_untagged (apart : S.InjOn (Quoted.write .ascii))
    (within : ∀ x ∈ xs, x.Within S) (mixed : records? xs = none)
    (noArrays : elements? (unique xs) = none)
    (whole : ∀ x ∈ xs, (untagged [x]).canonical = x.canonical) :
    (mergeAll xs).canonical = (untagged xs).canonical := by
  have distinct := Alike.unique_right apart within
  by_cases single : ∃ s, unique xs = [s]
  · obtain ⟨s, single⟩ := single
    have member := mem_of_unique_eq_singleton single
    rw [mergeAll_of_unique mixed single, ← whole s member]
    rw [single] at distinct
    exact distinct.symm.untagged_canonical_eq apart (by simpa using within s member) within
  · rw [mergeAll_of_distinct mixed (fun s h => single ⟨s, h⟩) noArrays]
    exact distinct.symm.untagged_canonical_eq apart (Within.unique within) within

end Shape

end JsonShapes
