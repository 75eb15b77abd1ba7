import JsonShapes.Shape.Canonical

/-!
# Merging shapes

Several shapes observed at one position are reconciled into one. Records merge property by
property; a property that some record lacks, or that is already optional in one, is optional in the
result. Shapes of one canonical text collapse into the first of them, arrays merge their element
types, and anything else becomes an untagged union of the distinct shapes.
-/

namespace JsonShapes

namespace Shape

/-- The properties of all the shapes, if all of them are records. -/
def records? : List Shape → Option (List (List (Text × Shape)))
  | [] => some []
  | s :: rest =>
    match s.fields?, records? rest with
    | some fields, some records => some (fields :: records)
    | _, _ => none

/-- The element types of all the shapes, if all of them are arrays. -/
def elements? : List Shape → Option (List Shape)
  | [] => some []
  | s :: rest =>
    match s.element?, elements? rest with
    | some element, some elements => some (element :: elements)
    | _, _ => none

/-- The values that records hold at a key, in the order of the records. -/
def valuesAt (records : List (List (Text × Shape))) (key : Text) : List Shape :=
  records.filterMap (Fields.get? · key)

/-- The element types of which something is known, or all of them if nothing is. -/
def informative (elements : List Shape) : List Shape :=
  match elements.filter (fun s => s ≠ .unknown) with
  | [] => elements
  | known => known

/-- The alternatives that a shape contributes to an untagged union. -/
def alternatives : Shape → List Shape
  | .union none variants => variants
  | s => [s]

/-- The untagged union of shapes, with untagged unions among them dissolved. -/
def untagged (shapes : List Shape) : Shape :=
  match unique (shapes.flatMap alternatives) with
  | [only] => only
  | variants => .union none variants

/-- A merged property: optional if a record lacks it or if it is optional in one of them. -/
def mergedField (recordCount : Nat) (values : List Shape) (merged : Shape) : Shape :=
  if values.length < recordCount || values.any isOptional then merged.asOptional else merged

theorem object_mem_of_records? {shapes : List Shape} {records : List (List (Text × Shape))}
    (h : records? shapes = some records) {fields : List (Text × Shape)} (m : fields ∈ records) :
    Shape.object fields ∈ shapes := by
  induction shapes generalizing records with
  | nil =>
    cases h
    cases m
  | cons s rest ih =>
    rw [records?] at h
    split at h
    · next fs rs hf hr =>
      cases h
      rcases List.mem_cons.1 m with e | m
      · subst e
        cases s <;> simp_all [fields?]
      · exact List.mem_cons_of_mem s (ih hr m)
    · cases h

theorem array_mem_of_elements? {shapes elements : List Shape} (h : elements? shapes = some elements)
    {element : Shape} (m : element ∈ elements) : Shape.array element ∈ shapes := by
  induction shapes generalizing elements with
  | nil =>
    cases h
    cases m
  | cons s rest ih =>
    rw [elements?] at h
    split at h
    · next e es he hs =>
      cases h
      rcases List.mem_cons.1 m with e | m
      · subst e
        cases s <;> simp_all [element?]
      · exact List.mem_cons_of_mem s (ih hs m)
    · cases h

theorem mem_of_mem_informative {s : Shape} {elements : List Shape} (h : s ∈ informative elements) :
    s ∈ elements := by
  rw [informative] at h
  split at h
  · exact h
  · exact (List.mem_filter.1 h).1

theorem depthAll_pos_of_mem {s : Shape} {shapes : List Shape} (h : s ∈ shapes) :
    0 < depthAll shapes :=
  Nat.lt_of_lt_of_le s.depth_pos (depth_le_depthAll h)

theorem depthAll_valuesAt_lt {shapes : List Shape} {records : List (List (Text × Shape))}
    (h : records? shapes = some records) {key : Text}
    (m : key ∈ Fields.union (records.map Fields.keys)) :
    depthAll ((valuesAt records key).map unwrap) < depthAll shapes := by
  obtain ⟨keys, hk, -⟩ := Fields.mem_union.1 m
  obtain ⟨first, hm, -⟩ := List.mem_map.1 hk
  have pos := depthAll_pos_of_mem (object_mem_of_records? h hm)
  have bound : depthAll ((valuesAt records key).map unwrap) ≤ depthAll shapes - 1 := by
    refine depthAll_le_iff.2 fun x hx => ?_
    obtain ⟨value, hv, rfl⟩ := List.mem_map.1 hx
    obtain ⟨fields, hf, hg⟩ := List.mem_filterMap.1 hv
    have inner := depth_le_depthFields (Fields.mem_of_get?_eq_some hg)
    have outer := depth_le_depthAll (object_mem_of_records? h hf)
    have under := depth_unwrap_le value
    rw [depth] at outer
    omega
  omega

theorem depthAll_informative_lt {shapes elements : List Shape} (hr : records? shapes = none)
    (h : elements? (unique shapes) = some elements) :
    depthAll (informative elements) < depthAll shapes := by
  have pos : 0 < depthAll shapes := by
    cases shapes with
    | nil => simp [records?] at hr
    | cons s rest => exact depthAll_pos_of_mem List.mem_cons_self
  have bound : depthAll (informative elements) ≤ depthAll shapes - 1 := by
    refine depthAll_le_iff.2 fun x hx => ?_
    have outer := depth_le_depthAll
      (mem_of_mem_unique (array_mem_of_elements? h (mem_of_mem_informative hx)))
    rw [depth] at outer
    omega
  omega

/-- The merge of shapes, of which there is at least one and none has a foreign leaf. -/
def mergeAll (shapes : List Shape) : Shape :=
  match _hr : records? shapes with
  | some records =>
    .object ((Fields.union (records.map Fields.keys)).attach.map fun key =>
      (key.1, mergedField records.length (valuesAt records key.1)
        (mergeAll ((valuesAt records key.1).map unwrap))))
  | none =>
    match unique shapes with
    | [only] => only
    | _ =>
      match _he : elements? (unique shapes) with
      | some elements => .array (mergeAll (informative elements))
      | none => untagged (unique shapes)
termination_by depthAll shapes
decreasing_by
  · exact depthAll_valuesAt_lt _hr key.2
  · exact depthAll_informative_lt _hr _he

/-- Records merge property by property. -/
theorem mergeAll_of_records {shapes : List Shape} {records : List (List (Text × Shape))}
    (h : records? shapes = some records) :
    mergeAll shapes =
      .object ((Fields.union (records.map Fields.keys)).map fun key =>
        (key, mergedField records.length (valuesAt records key)
          (mergeAll ((valuesAt records key).map unwrap)))) := by
  rw [mergeAll]
  split
  · next rs hr =>
    cases h.symm.trans hr
    simp
  · next hr => cases h.symm.trans hr

/-- Shapes that are not all records, with one canonical text among them, merge into the first. -/
theorem mergeAll_of_unique {shapes : List Shape} {only : Shape} (h : records? shapes = none)
    (u : unique shapes = [only]) : mergeAll shapes = only := by
  rw [mergeAll]
  split
  · next hr => cases h.symm.trans hr
  · simp [u]

/-- Distinct arrays merge their element types. -/
theorem mergeAll_of_elements {shapes elements : List Shape} (h : records? shapes = none)
    (u : ∀ only, unique shapes ≠ [only]) (e : elements? (unique shapes) = some elements) :
    mergeAll shapes = .array (mergeAll (informative elements)) := by
  rw [mergeAll]
  split
  · next hr => cases h.symm.trans hr
  · split
    · next only ho => exact absurd ho (u only)
    · split
      · next es he => cases e.symm.trans he; rfl
      · next he => cases e.symm.trans he

/-- Whatever else is distinct becomes an untagged union. -/
theorem mergeAll_of_distinct {shapes : List Shape} (h : records? shapes = none)
    (u : ∀ only, unique shapes ≠ [only]) (e : elements? (unique shapes) = none) :
    mergeAll shapes = untagged (unique shapes) := by
  rw [mergeAll]
  split
  · next hr => cases h.symm.trans hr
  · split
    · next only ho => exact absurd ho (u only)
    · split
      · next es he => cases e.symm.trans he
      · rfl

/-- The merge of shapes that are observed at one position. -/
def mergeShapes (shapes : List Shape) : Except Fault Shape :=
  if shapes.isEmpty then .error .noShapes
  else
    match checkAll "canonical_form" shapes with
    | .error e => .error e
    | .ok _ => .ok (mergeAll shapes)

/-- The merge of records. -/
def mergeRecords (shapes : List Shape) : Except Fault Shape :=
  if shapes.isEmpty then .error .noRecords
  else
    match shapes.find? fun s => s.fields?.isNone with
    | some s => .error (.notRecord s.nodeName)
    | none => mergeShapes shapes

end Shape

end JsonShapes
