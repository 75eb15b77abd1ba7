import JsonShapes.Proofs.Merging

/-!
# A merge accepts what each of its parts accepts

Dropping shapes of an earlier canonical text loses no value, because shapes of one form accept the
same values, and a canonical text determines the form as long as spellings tell the texts apart.
The latter cannot be left out: arrays of records whose keys are different but have one spelling
merge into the first of them. So merging is an upper bound over exactly the sets of texts that
spellings tell apart.
-/

namespace JsonShapes

namespace Text

/-- A code point beyond the first plane. -/
def wholePair : Text := [⟨0x1F600, by decide⟩]

/-- The two surrogates that spell it. -/
def splitPair : Text := [⟨0xD83D, by decide⟩, ⟨0xDE00, by decide⟩]

end Text

namespace Json

/-- An array of one object with one member. -/
def arrayOf (key : Text) : Json := .arr [.obj [(key, .null)]]

end Json

namespace Shape

/-- Arrays of records with one property. -/
def arraysOf (key : Text) : Shape := .array (.object [(key, .null)])

theorem accepts_arraysOf_iff {key other : Text} :
    (arraysOf key).accepts (.arrayOf other) = true ↔ key = other := by
  simp only [arraysOf, Json.arrayOf, accepts_array_iff, Json.arr.injEq, exists_eq_left',
    List.mem_singleton, forall_eq, accepts_object_iff, Json.obj.injEq, Fields.keys, List.map_cons,
    List.map_nil]
  constructor
  · rintro ⟨known, -⟩
    exact known.symm
  · rintro rfl
    simp [AcceptsField, Scalar.accepts]

theorem canonicalText_arraysOf {key other : Text}
    (h : Quoted.write .ascii key = Quoted.write .ascii other) :
    (arraysOf key).canonicalText = (arraysOf other).canonicalText := by
  simp [canonicalText, formText, arraysOf, canonical, canonicalFields, Sorting.sortOn,
    Sorting.insertOn, formPair, Json.print, Json.printBefore, Json.printItems, Json.printMembers,
    h]

/-- Keys of one spelling make shapes that are taken for the same. -/
theorem unique_arraysOf {key other : Text}
    (h : Quoted.write .ascii key = Quoted.write .ascii other) :
    unique [arraysOf key, arraysOf other] = [arraysOf key] := by
  simp [unique, uniqueAfter, canonicalText_arraysOf h]

theorem mergeAll_arraysOf {key other : Text}
    (h : Quoted.write .ascii key = Quoted.write .ascii other) :
    mergeAll [arraysOf key, arraysOf other] = arraysOf key :=
  mergeAll_of_unique rfl (unique_arraysOf h)

variable {S : Set Text}

theorem Within.arraysOf {key : Text} (h : key ∈ S) : (arraysOf key).Within S := by
  refine .array (.object ?_ ?_)
  · simpa using h
  · simpa using Within.scalar .null

/-- What a shape accepts is accepted by a distinct one. -/
theorem exists_unique_accepts (apart : S.InjOn (Quoted.write .ascii)) {shapes : List Shape}
    (within : ∀ s ∈ shapes, s.Within S) {s : Shape} (member : s ∈ shapes) {v : Json}
    (accepted : s.accepts v = true) : ∃ t ∈ unique shapes, t.accepts v = true := by
  obtain ⟨t, ht, sameText⟩ := exists_mem_unique member
  have sameForm := (canonicalText_eq_iff apart (within t (mem_of_mem_unique ht))
    (within s member)).1 sameText
  exact ⟨t, ht, accepts_of_canonical_eq sameForm.symm accepted⟩

theorem exists_alternative_accepts {s : Shape} {v : Json} (accepted : s.accepts v = true) :
    ∃ t ∈ alternatives s, t.accepts v = true := by
  unfold alternatives
  split
  · exact accepts_union_iff.1 accepted
  · exact ⟨_, List.mem_singleton.2 rfl, accepted⟩

theorem accepts_untagged (apart : S.InjOn (Quoted.write .ascii)) {shapes : List Shape}
    (within : ∀ s ∈ shapes, s.Within S) {s : Shape} (member : s ∈ shapes) {v : Json}
    (accepted : s.accepts v = true) : (untagged shapes).accepts v = true := by
  obtain ⟨t, ht, accepted⟩ := exists_alternative_accepts accepted
  obtain ⟨u, hu, accepted⟩ := exists_unique_accepts apart (Within.flatMap_alternatives within)
    (List.mem_flatMap.2 ⟨s, member, ht⟩) accepted
  rw [untagged]
  split
  · next only single =>
      rw [single, List.mem_singleton] at hu
      exact hu ▸ accepted
  · exact accepts_union_iff.2 ⟨u, hu, accepted⟩

theorem accepts_mergedField (count : Nat) (values : List Shape) (merged : Shape) (v : Json) :
    (mergedField count values merged).accepts v = merged.accepts v := by
  rw [mergedField]
  split
  · exact accepts_asOptional merged v
  · rfl

/-- A merged record accepts what one of the records accepts, if its properties do. -/
theorem accepts_mergedRecord {records : List (List (Text × Shape))}
    {fields : List (Text × Shape)} (member : fields ∈ records) {v : Json}
    (accepted : (Shape.object fields).accepts v = true)
    (inner : ∀ key s value, Fields.get? fields key = some s → s.accepts value = true →
      (mergeAll ((valuesAt records key).map unwrap)).accepts value = true) :
    (mergeAll (records.map Shape.object)).accepts v = true := by
  obtain ⟨members, rfl, known, held⟩ := accepts_object_iff.1 accepted
  rw [mergeAll_of_records (records?_eq_some_iff.2 rfl)]
  refine accepts_object_iff.2 ⟨members, rfl, fun key hk => ?_, fun f hf => ?_⟩
  · obtain ⟨s, found⟩ := Fields.exists_get?_of_mem_keys (known key hk)
    rw [Fields.keys_map_keys]
    exact mem_union_of_get? member found
  · obtain ⟨key, -, rfl⟩ := List.mem_map.1 hf
    refine ⟨fun value present => ?_, fun absent => ?_⟩
    · have listed : key ∈ Fields.keys members :=
        List.mem_map.2 ⟨_, Fields.mem_of_get?_eq_some present, rfl⟩
      obtain ⟨s, found⟩ := Fields.exists_get?_of_mem_keys (known key listed)
      have merged := inner key s value found
        ((held (key, s) (Fields.mem_of_get?_eq_some found)).1 value present)
      rw [accepts_mergedField]
      exact merged
    · rcases mergedField_cases records key (mergeAll ((valuesAt records key).map unwrap))
        with ⟨-, eq⟩ | ⟨strict, -⟩
      · simp only [eq, asOptional, isOptional]
      · obtain ⟨s, found, required⟩ := strict fields member
        have optional := (held (key, s) (Fields.mem_of_get?_eq_some found)).2 absent
        simp only [required] at optional
        cases optional

/-- A merge accepts whatever one of the merged shapes accepts. -/
theorem accepts_mergeAll (apart : S.InjOn (Quoted.write .ascii)) {shapes : List Shape}
    (within : ∀ s ∈ shapes, s.Within S) {s : Shape} (member : s ∈ shapes) {v : Json}
    (accepted : s.accepts v = true) : (mergeAll shapes).accepts v = true := by
  induction shapes using mergeInduction generalizing s v with
  | records records ih =>
      obtain ⟨fields, hf, rfl⟩ := List.mem_map.1 member
      refine accepts_mergedRecord hf accepted fun key t value found held => ?_
      exact ih key (mem_union_of_get? hf found) (Within.valuesAt within key)
        (mem_valuesAt_unwrap.2 ⟨fields, hf, t, found, rfl⟩) (by rwa [accepts_unwrap])
  | only shapes only hr single =>
      rw [mergeAll_of_unique hr single]
      obtain ⟨t, ht, accepted⟩ := exists_unique_accepts apart within member accepted
      rw [single, List.mem_singleton] at ht
      exact ht ▸ accepted
  | elements shapes elements hr several arrays ih =>
      rw [mergeAll_of_elements hr several (elements?_eq_some_iff.2 arrays)]
      obtain ⟨t, ht, accepted⟩ := exists_unique_accepts apart within member accepted
      rw [arrays] at ht
      obtain ⟨element, he, rfl⟩ := List.mem_map.1 ht
      obtain ⟨items, rfl, held⟩ := accepts_array_iff.1 accepted
      refine accepts_array_iff.2 ⟨items, rfl, fun item hi => ?_⟩
      -- an array with items is not one of unknown elements, so its element type is merged
      have known : element ≠ .unknown := by
        rintro rfl
        have impossible := held item hi
        simp [Scalar.accepts] at impossible
      exact ih (Within.informative (arrays ▸ Within.unique within))
        (mem_informative_iff.2 ⟨he, .inl known⟩) (held item hi)
  | distinct shapes hr several he =>
      rw [mergeAll_of_distinct hr several he]
      obtain ⟨t, ht, accepted⟩ := exists_unique_accepts apart within member accepted
      exact accepts_untagged apart (Within.unique within) ht accepted

/-- The shape accepts whatever one of the given shapes accepts. -/
def Covers (merged : Shape) (shapes : List Shape) : Prop :=
  ∀ s ∈ shapes, ∀ v, s.accepts v = true → merged.accepts v = true

/-- Merging trees over the given texts, as shapes or as records, gives an upper bound. -/
def MergesUpward (S : Set Text) : Prop :=
  ∀ shapes : List Shape, shapes ≠ [] → (∀ s ∈ shapes, s.Within S) →
    (∃ merged, mergeShapes shapes = .ok merged ∧ merged.Covers shapes) ∧
    ((∀ s ∈ shapes, s.fields?.isSome = true) →
      ∃ merged, mergeRecords shapes = .ok merged ∧ merged.Covers shapes)

theorem mergesUpward_of_injOn (apart : S.InjOn (Quoted.write .ascii)) : MergesUpward S := by
  intro shapes nonempty within
  have covers : (mergeAll shapes).Covers shapes := fun s member v accepted =>
    accepts_mergeAll apart within member accepted
  exact ⟨⟨_, mergeShapes_eq_ok nonempty within, covers⟩,
    fun records => ⟨_, mergeRecords_eq_ok nonempty within records, covers⟩⟩

/-- Merging is an upper bound over exactly the sets of texts that spellings tell apart, among them
every set of texts without split pairs. -/
theorem mergesUpward_iff_injOn_write (S : Set Text) :
    (MergesUpward S ↔ S.InjOn (Quoted.write .ascii)) ∧
      ((∀ t ∈ S, t.Unsplit) → MergesUpward S) := by
  refine ⟨⟨fun upward key hk other ho h => ?_, mergesUpward_of_injOn⟩,
    fun unsplit => mergesUpward_of_injOn (Quoted.injOn_write_of_unsplit unsplit)⟩
  have within : ∀ s ∈ [arraysOf key, arraysOf other], s.Within S := by
    simpa using ⟨Within.arraysOf hk, Within.arraysOf ho⟩
  obtain ⟨⟨merged, eq, covers⟩, -⟩ := upward _ (by simp) within
  rw [mergeShapes_eq_ok (by simp) within, mergeAll_arraysOf h] at eq
  cases eq
  exact accepts_arraysOf_iff.1 (covers (arraysOf other) (by simp) _ (accepts_arraysOf_iff.2 rfl))

/-- Two arrays of records merge into the first, which does not accept a value of the second. -/
theorem mergeShapes_splitPair_loses :
    ∃ merged, mergeShapes [arraysOf .splitPair, arraysOf .wholePair] = .ok merged ∧
      (arraysOf .wholePair).accepts (.arrayOf .wholePair) = true ∧
      merged.accepts (.arrayOf .wholePair) = false :=
  ⟨arraysOf .splitPair, by decide +kernel, by decide +kernel, by decide +kernel⟩

end Shape

end JsonShapes
