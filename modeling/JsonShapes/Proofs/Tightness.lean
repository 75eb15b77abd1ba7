import JsonShapes.Proofs.Soundness

/-!
# Nothing in an inferred shape is unobserved

A shape is walked together with the values that were observed at each of its nodes: all samples at
the root, the values at its key under a property, the elements of the observed arrays under an
element type, and what was observed at a union under each of its variants. On such a walk every node
but an unknown one accepts a value that was observed there, and for every optional property of a
record a value was observed that the record accepts and that lacks the property.

`Tight` carries this through inference: it relates a tree to the values that all of its parts were
built from. Adding observations keeps it, and merging keeps it because a merge accepts what its
parts accept. Over texts that spellings do not tell apart it fails, as soundness does.
-/

namespace JsonShapes

open Discriminator

namespace Shape

/-- The values at a key of the objects among the given values. -/
def valuesUnder (key : Text) (seen : Set Json) : Set Json :=
  {x | ∃ v ∈ seen, v.get? key = some x}

/-- The elements of the arrays among the given values. -/
def elementsOf (seen : Set Json) : Set Json :=
  {x | ∃ items, Json.arr items ∈ seen ∧ x ∈ items}

/-- One of the given values has the shape. -/
def Observed (seen : Set Json) (s : Shape) : Prop := ∃ v ∈ seen, s.accepts v = true

/-- Every part of the tree is observed, and so is the absence of every optional property. Options
stand at properties only, and only an element type may be unknown. -/
inductive Tight : Set Json → Shape → Prop
  | scalar {seen : Set Json} {kind : Scalar} (observed : Observed seen (.scalar kind)) :
      Tight seen (.scalar kind)
  | literal {seen : Set Json} {value jsonType : Text}
      (observed : Observed seen (.literal value jsonType)) : Tight seen (.literal value jsonType)
  | object {seen : Set Json} {fields : List (Text × Shape)}
      (observed : Observed seen (.object fields))
      (lacking : ∀ f ∈ fields, f.2.isOptional = true →
        ∃ v ∈ seen, (Shape.object fields).accepts v = true ∧ v.get? f.1 = none)
      (tight : ∀ f ∈ fields, Tight (valuesUnder f.1 seen) f.2.unwrap) :
      Tight seen (.object fields)
  | array {seen : Set Json} {element : Shape} (observed : Observed seen (.array element))
      (tight : element ≠ .unknown → Tight (elementsOf seen) element) :
      Tight seen (.array element)
  | union {seen : Set Json} {discriminator : Option Text} {variants : List Shape}
      (observed : Observed seen (.union discriminator variants))
      (tight : ∀ s ∈ variants, Tight seen s) : Tight seen (.union discriminator variants)

variable {S : Set Text} {seen more : Set Json}

theorem valuesUnder_mono (h : seen ⊆ more) (key : Text) :
    valuesUnder key seen ⊆ valuesUnder key more := by
  rintro x ⟨v, hv, held⟩
  exact ⟨v, h hv, held⟩

theorem elementsOf_mono (h : seen ⊆ more) : elementsOf seen ⊆ elementsOf more := by
  rintro x ⟨items, hi, listed⟩
  exact ⟨items, h hi, listed⟩

theorem Observed.mono {s : Shape} (observed : Observed seen s) (h : seen ⊆ more) :
    Observed more s := by
  obtain ⟨v, hv, accepted⟩ := observed
  exact ⟨v, h hv, accepted⟩

namespace Tight

theorem observed {s : Shape} (h : Tight seen s) : Observed seen s := by
  cases h <;> assumption

theorem isOptional_eq {s : Shape} (h : Tight seen s) : s.isOptional = false := by
  cases h <;> rfl

theorem unwrap_eq {s : Shape} (h : Tight seen s) : s.unwrap = s := by
  cases h <;> rfl

theorem unwrap_asOptional_eq {s : Shape} (h : Tight seen s) : s.asOptional.unwrap = s := by
  cases h <;> rfl

/-- More observations keep a tree tight. -/
theorem mono {s : Shape} (h : Tight seen s) (included : seen ⊆ more) : Tight more s := by
  induction h generalizing more with
  | scalar observed => exact .scalar (observed.mono included)
  | literal observed => exact .literal (observed.mono included)
  | object observed lacking tight ih =>
      refine .object (observed.mono included) (fun f hf optional => ?_) fun f hf => ?_
      · obtain ⟨v, hv, lacks⟩ := lacking f hf optional
        exact ⟨v, included hv, lacks⟩
      · exact ih f hf (valuesUnder_mono included f.1)
  | array observed tight ih =>
      exact .array (observed.mono included) fun known => ih known (elementsOf_mono included)
  | union observed tight ih =>
      exact .union (observed.mono included) fun s hs => ih s hs included

/-- A union of tight variants is tight. -/
theorem of_variants {discriminator : Option Text} {variants : List Shape}
    (nonempty : variants ≠ []) (tight : ∀ s ∈ variants, Tight seen s) :
    Tight seen (.union discriminator variants) := by
  obtain ⟨s, hs⟩ := List.exists_mem_of_ne_nil variants nonempty
  obtain ⟨v, hv, accepted⟩ := (tight s hs).observed
  exact .union ⟨v, hv, accepts_union_iff.2 ⟨s, hs, accepted⟩⟩ tight

theorem observed_mergeAll (apart : S.InjOn (Quoted.write .ascii)) {shapes : List Shape}
    (nonempty : shapes ≠ []) (within : ∀ s ∈ shapes, s.Within S)
    (tight : ∀ s ∈ shapes, Tight seen s) : Observed seen (mergeAll shapes) := by
  obtain ⟨s, hs⟩ := List.exists_mem_of_ne_nil shapes nonempty
  obtain ⟨v, hv, accepted⟩ := (tight s hs).observed
  exact ⟨v, hv, accepts_mergeAll apart within hs accepted⟩

/-- A record that has no such property, or an optional one, accepts an observed value that lacks
it. -/
theorem exists_lacking {fields : List (Text × Shape)} (h : Tight seen (.object fields)) {key : Text}
    (lax : ∀ s, Fields.get? fields key = some s → s.isOptional = true) :
    ∃ v ∈ seen, (Shape.object fields).accepts v = true ∧ v.get? key = none := by
  cases h with
  | object observed lacking tight =>
      cases found : Fields.get? fields key with
      | some s => exact lacking (key, s) (Fields.mem_of_get?_eq_some found) (lax s found)
      | none =>
          obtain ⟨v, hv, accepted⟩ := observed
          refine ⟨v, hv, accepted, ?_⟩
          obtain ⟨members, rfl, known, -⟩ := accepts_object_iff.1 accepted
          refine Fields.get?_eq_none_iff.2 fun listed => ?_
          exact Fields.get?_eq_none_iff.1 found (known key listed)

/-- A merged record is tight if its properties are. -/
theorem mergedRecord (apart : S.InjOn (Quoted.write .ascii))
    {records : List (List (Text × Shape))} (nonempty : records ≠ [])
    (within : ∀ s ∈ records.map Shape.object, s.Within S)
    (tight : ∀ s ∈ records.map Shape.object, Tight seen s)
    (inner : ∀ key ∈ Fields.union (records.map Fields.keys),
      Tight (valuesUnder key seen) (mergeAll ((valuesAt records key).map unwrap))) :
    Tight seen (mergeAll (records.map Shape.object)) := by
  have observed := observed_mergeAll apart (by simpa using nonempty) within tight
  have merged := mergeAll_of_records (records?_eq_some_iff.2 (rfl : records.map Shape.object = _))
  rw [merged] at observed ⊢
  refine .object observed (List.forall_mem_map.mpr fun key hk optional => ?_)
    (List.forall_mem_map.mpr fun key hk => ?_)
  · rcases mergedField_cases records key (mergeAll ((valuesAt records key).map unwrap))
      with ⟨⟨fields, hf, lax⟩, -⟩ | ⟨-, eq⟩
    · have member : Shape.object fields ∈ records.map Shape.object :=
        List.mem_map.2 ⟨fields, hf, rfl⟩
      obtain ⟨v, hv, accepted, lacks⟩ := (tight _ member).exists_lacking lax
      exact ⟨v, hv, merged ▸ accepts_mergeAll apart within member accepted, lacks⟩
    · simp only [eq, (inner key hk).isOptional_eq] at optional
      cases optional
  · rcases mergedField_cases records key (mergeAll ((valuesAt records key).map unwrap))
      with ⟨-, eq⟩ | ⟨-, eq⟩
    · simpa only [eq, (inner key hk).unwrap_asOptional_eq] using inner key hk
    · simpa only [eq, (inner key hk).unwrap_eq] using inner key hk

theorem of_mem_alternatives {s t : Shape} (h : Tight seen s) (member : t ∈ alternatives s) :
    Tight seen t := by
  rcases mem_alternatives member with rfl | ⟨variants, rfl, listed⟩
  · exact h
  · cases h with
    | union observed tight => exact tight t listed

/-- The untagged union of tight shapes is tight. -/
theorem untagged {shapes : List Shape} (nonempty : shapes ≠ [])
    (tight : ∀ s ∈ shapes, Tight seen s) : Tight seen (Shape.untagged shapes) := by
  have part : ∀ t ∈ unique (shapes.flatMap alternatives), Tight seen t := by
    intro t ht
    obtain ⟨s, hs, offered⟩ := List.mem_flatMap.1 (mem_of_mem_unique ht)
    exact (tight s hs).of_mem_alternatives offered
  rw [Shape.untagged]
  split
  · next only single => exact part only (single ▸ List.mem_singleton.2 rfl)
  · refine of_variants (unique_ne_nil ?_) part
    obtain ⟨s, hs⟩ := List.exists_mem_of_ne_nil shapes nonempty
    obtain ⟨v, -, accepted⟩ := (tight s hs).observed
    obtain ⟨t, offered, -⟩ := exists_alternative_accepts accepted
    exact List.ne_nil_of_mem (List.mem_flatMap.2 ⟨s, hs, offered⟩)

/-- Merging keeps shapes tight. -/
theorem mergeAll (apart : S.InjOn (Quoted.write .ascii)) {shapes : List Shape}
    (nonempty : shapes ≠ []) (within : ∀ s ∈ shapes, s.Within S)
    (tight : ∀ s ∈ shapes, Tight seen s) : Tight seen (Shape.mergeAll shapes) := by
  induction shapes using mergeInduction generalizing seen with
  | records records ih =>
      refine mergedRecord apart (by simpa using nonempty) within tight fun key hk => ?_
      refine ih key hk ?_ (Within.valuesAt within key) fun s hs => ?_
      · obtain ⟨fields, hf, s, found⟩ := exists_get?_of_mem_union hk
        exact List.ne_nil_of_mem (mem_valuesAt_unwrap.2 ⟨fields, hf, s, found, rfl⟩)
      · obtain ⟨fields, hf, t, found, rfl⟩ := mem_valuesAt_unwrap.1 hs
        cases tight _ (List.mem_map.2 ⟨fields, hf, rfl⟩) with
        | object observed lacking tight => exact tight _ (Fields.mem_of_get?_eq_some found)
  | only shapes s hr single =>
      rw [mergeAll_of_unique hr single]
      exact tight s (mem_of_mem_unique (single ▸ List.mem_singleton.2 rfl))
  | elements shapes elements hr several arrays ih =>
      have observed := observed_mergeAll apart nonempty within tight
      have merged := mergeAll_of_elements hr several (elements?_eq_some_iff.2 arrays)
      rw [merged] at observed ⊢
      refine .array observed fun _ => ?_
      have listed : ∀ e ∈ elements, Shape.array e ∈ unique shapes := by
        intro e he
        rw [arrays]
        exact List.mem_map.2 ⟨e, he, rfl⟩
      have notAll : ¬∀ e ∈ elements, e = .unknown := by
        intro all
        obtain ⟨s, hs⟩ := List.exists_mem_of_ne_nil _ (unique_ne_nil nonempty)
        refine several s (unique_eq_singleton hs fun t ht => ?_)
        rw [arrays] at hs ht
        obtain ⟨e, he, rfl⟩ := List.mem_map.1 hs
        obtain ⟨f, hf, rfl⟩ := List.mem_map.1 ht
        rw [all e he, all f hf]
      refine ih ?_ (Within.informative (arrays ▸ Within.unique within)) fun e he => ?_
      · refine informative_ne_nil fun empty => notAll ?_
        rw [empty]
        exact fun e he => nomatch he
      · obtain ⟨he, known⟩ := mem_informative_iff.1 he
        cases tight _ (mem_of_mem_unique (listed e he)) with
        | array observed tight => exact tight (known.resolve_right notAll)
  | distinct shapes hr several he =>
      rw [mergeAll_of_distinct hr several he]
      exact untagged (unique_ne_nil nonempty) fun s hs => tight s (mem_of_mem_unique hs)

/-- Pinning a literal that all of the observed values hold keeps a shape tight. -/
theorem pin {field value jsonType : Text} {s : Shape} (h : Tight seen s)
    (held : ∀ v ∈ seen, ∃ x, v.get? field = some x ∧
      (Shape.literal value jsonType).accepts x = true) :
    Tight seen (Unification.pin field (.literal value jsonType) s) := by
  have kept : ∀ v ∈ seen, s.accepts v = true →
      (Unification.pin field (.literal value jsonType) s).accepts v = true := by
    intro v hv accepted
    obtain ⟨x, found, literal⟩ := held v hv
    exact accepts_pin found literal accepted
  cases h with
  | object observed lacking tight =>
      obtain ⟨v, hv, accepted⟩ := observed
      refine .object ⟨v, hv, kept v hv accepted⟩ (fun f hf optional => ?_) fun f hf => ?_
      · rcases Fields.mem_set hf with rfl | old
        · cases optional
        · obtain ⟨w, hw, accepted, lacks⟩ := lacking f old optional
          exact ⟨w, hw, kept w hw accepted, lacks⟩
      · rcases Fields.mem_set hf with rfl | old
        · obtain ⟨x, found, literal⟩ := held v hv
          exact .literal ⟨x, ⟨v, hv, found⟩, literal⟩
        · exact tight f old
  | scalar observed => exact .scalar observed
  | literal observed => exact .literal observed
  | array observed tight => exact .array observed tight
  | union observed tight => exact .union observed tight

end Tight

/-- The variant of a group is tight over the elements of the group. -/
theorem tight_pinned (apart : S.InjOn (Quoted.write .ascii)) {rows : List (Json × Shape)}
    (inferred : ∀ row ∈ rows, Inferred row.1 row.2) (within : ∀ row ∈ rows, row.2.Within S)
    (tight : ∀ row ∈ rows, Tight {row.1} row.2) {c : Candidate} (splits : c.Splits rows)
    {p : Partition} (hp : p ∈ c.partitions) :
    Tight {v | ∃ row value, Filed rows c.field p row value ∧ row.1 = v}
      (pinned rows c.field p) := by
  have shapes : ∀ s ∈ p.group rows, s.Within S := fun s hs => Within.of_mem_group within hs
  refine Tight.pin (Tight.mergeAll apart (splits.group_ne_nil hp) shapes ?_) ?_
  · intro s hs
    obtain ⟨row, value, rfl, filed⟩ := splits.filed_of_mem_group hp hs
    apply (tight row filed.listed).mono
    rintro _ rfl
    exact ⟨row, value, filed, rfl⟩
  · rintro _ ⟨row, value, filed, rfl⟩
    have typed := literalType_eq_of_filed apart inferred within splits hp filed
    exact ⟨value, filed.held, accepts_literal_iff.2 ⟨filed.text, typed⟩⟩

/-- The one type of the elements of an array is tight over them. -/
theorem Unified.tight (apart : S.InjOn (Quoted.write .ascii)) {rows : List (Json × Shape)}
    {element : Shape} (h : Unified rows element)
    (inferred : ∀ row ∈ rows, Inferred row.1 row.2) (within : ∀ row ∈ rows, row.2.Within S)
    (tight : ∀ row ∈ rows, Tight {row.1} row.2) (known : element ≠ .unknown) :
    Tight {v | v ∈ rows.map Prod.fst} element := by
  have listed : ∀ s ∈ unique (rows.map Prod.snd), Tight {v | v ∈ rows.map Prod.fst} s := by
    intro s hs
    obtain ⟨row, hr, rfl⟩ := List.mem_map.1 (mem_of_mem_unique hs)
    apply (tight row hr).mono
    rintro _ rfl
    exact List.mem_map.2 ⟨row, hr, rfl⟩
  have shapes : ∀ s ∈ unique (rows.map Prod.snd), s.Within S :=
    Within.unique (List.forall_mem_map.mpr within)
  have distinct : rows ≠ [] → unique (rows.map Prod.snd) ≠ [] :=
    fun nonempty => unique_ne_nil (by simpa using nonempty)
  cases h with
  | nothing empty => exact absurd rfl known
  | uniform single => exact listed _ (single ▸ List.mem_singleton.2 rfl)
  | tagged nonempty splits =>
      next c =>
        refine Tight.of_variants ?_ (List.forall_mem_map.mpr fun p hp => ?_)
        · obtain ⟨row, hr⟩ := List.exists_mem_of_ne_nil rows nonempty
          obtain ⟨p, hp, -⟩ := splits.exists_filed hr
          exact List.ne_nil_of_mem (List.mem_map.2 ⟨p, hp, rfl⟩)
        · apply (tight_pinned apart inferred within tight splits hp).mono
          rintro _ ⟨row, value, filed, rfl⟩
          exact List.mem_map.2 ⟨row, filed.listed, rfl⟩
  | folded nonempty => exact Tight.mergeAll apart (distinct nonempty) shapes listed
  | alternatives nonempty => exact Tight.of_variants (distinct nonempty) listed

/-- The shape of a value is tight over that value. -/
theorem Inferred.tight (apart : S.InjOn (Quoted.write .ascii)) {v : Json} {s : Shape}
    (h : Inferred v s) (values : v.Within S finiteDoubles) : Tight {v} s := by
  have observed : ∀ {v s}, Inferred v s → v.Within S finiteDoubles → Observed {v} s :=
    fun h values => ⟨_, rfl, h.accepts apart values⟩
  induction h with
  | null => exact .scalar (observed .null values)
  | bool b => exact .scalar (observed (.bool b) values)
  | int n => exact .scalar (observed (.int n) values)
  | finite x => exact .scalar (observed (.finite x) values)
  | notFinite infinite => exact .scalar (observed (.notFinite infinite) values)
  | str s => exact .scalar (observed (.str s) values)
  | arr inferred unified ih =>
      next rows element =>
        refine .array (observed (.arr inferred unified) values) fun known => ?_
        cases values with
        | arr values =>
            have values := List.forall_mem_map.mp values
            have within : ∀ row ∈ rows, row.2.Within (S ∪ {t | t.IsPlain}) :=
              fun row hr => (inferred row hr).within (values row hr)
            apply (unified.tight (Quoted.injOn_write_union_plain apart) inferred within
              (fun r hr => ih r hr (values r hr)) known).mono
            exact fun v hv => ⟨_, rfl, hv⟩
  | obj distinct inferred ih =>
      next members =>
        have whole := observed (.obj distinct inferred) values
        cases values with
        | obj keysDistinct words values =>
            have parts : ∀ m ∈ members, Tight {m.2.1} m.2.2 :=
              fun m hm => ih m hm (values _ (List.mem_map.2 ⟨m, hm, rfl⟩))
            refine .object whole (List.forall_mem_map.mpr fun m hm optional => ?_)
              (List.forall_mem_map.mpr fun m hm => ?_)
            · simp only [(parts m hm).isOptional_eq] at optional
              cases optional
            · simp only [(parts m hm).unwrap_eq]
              apply (parts m hm).mono
              rintro _ rfl
              refine ⟨_, rfl, ?_⟩
              exact Fields.get?_eq_some_of_mem keysDistinct (List.mem_map.2 ⟨m, hm, rfl⟩)

/-- The walk over a shape meets a node, where the given values were observed. -/
inductive Met (samples : Set Json) (root : Shape) : Set Json → Shape → Prop
  | root : Met samples root samples root
  | property {seen : Set Json} {fields : List (Text × Shape)} {key : Text} {s : Shape}
      (met : Met samples root seen (.object fields)) (listed : (key, s) ∈ fields) :
      Met samples root (valuesUnder key seen) s
  | option {seen : Set Json} {inner : Shape} (met : Met samples root seen (.optional inner)) :
      Met samples root seen inner
  | element {seen : Set Json} {element : Shape} (met : Met samples root seen (.array element)) :
      Met samples root (elementsOf seen) element
  | variant {seen : Set Json} {discriminator : Option Text} {variants : List Shape} {s : Shape}
      (met : Met samples root seen (.union discriminator variants)) (listed : s ∈ variants) :
      Met samples root seen s

/-- A node is observed unless it is unknown, and so is the absence of its optional properties. -/
structure Evident (seen : Set Json) (node : Shape) : Prop where
  observed : node ≠ .unknown → Observed seen node
  lacking : ∀ fields, node = .object fields → ∀ key inner, (key, Shape.optional inner) ∈ fields →
    ∃ v ∈ seen, node.accepts v = true ∧ v.get? key = none

/-- Every part of a tight shape that the walk meets is tight below its option. -/
theorem Met.tight {samples : Set Json} {root : Shape} (h : Tight samples root) {node : Shape}
    (met : Met samples root seen node) (known : node ≠ .unknown) : Tight seen node.unwrap := by
  induction met with
  | root =>
      rw [h.unwrap_eq]
      exact h
  | property met listed ih =>
      cases ih (by simp) with
      | object observed lacking tight => exact tight _ listed
  | option met ih =>
      next seen inner =>
        have tight : Tight seen inner := ih (by simp)
        rw [tight.unwrap_eq]
        exact tight
  | element met ih =>
      cases ih (by simp) with
      | array observed tight =>
          rw [(tight known).unwrap_eq]
          exact tight known
  | variant met listed ih =>
      cases ih (by simp) with
      | union observed tight =>
          rw [(tight _ listed).unwrap_eq]
          exact tight _ listed

theorem Met.evident {samples : Set Json} {root : Shape} (h : Tight samples root) {node : Shape}
    (met : Met samples root seen node) : Evident seen node where
  observed known := by
    obtain ⟨v, hv, accepted⟩ := (met.tight h known).observed
    exact ⟨v, hv, by rwa [accepts_unwrap] at accepted⟩
  lacking := by
    rintro fields rfl key inner listed
    cases met.tight h (by simp) with
    | object observed lacking tight => exact lacking _ listed rfl

/-- In the shape that is inferred from samples over the given texts, whose doubles are finite,
every node is evident. -/
def InfersTightly (S : Set Text) : Prop :=
  ∀ samples : List Json, samples ≠ [] → (∀ v ∈ samples, v.Within S finiteDoubles) →
    ∃ root, inferSamples samples = .ok root ∧
      ∀ seen node, Met {v | v ∈ samples} root seen node → Evident seen node

theorem infersTightly_of_injOn (apart : S.InjOn (Quoted.write .ascii)) : InfersTightly S := by
  intro samples nonempty within
  obtain ⟨rows, rfl, each, shapes, eq⟩ := exists_inferSamples nonempty within
  refine ⟨_, eq, fun seen node met => met.evident ?_⟩
  apply Tight.mergeAll (Quoted.injOn_write_union_plain apart) (by simpa using nonempty) shapes
  refine List.forall_mem_map.mpr fun row hr => ?_
  have listed : row.1 ∈ rows.map Prod.fst := List.mem_map.2 ⟨row, hr, rfl⟩
  apply ((each row hr).2.tight apart (within _ listed)).mono
  rintro _ rfl
  exact listed

/-- Two objects with an array under the first key, of which only one has the second key. -/
def nested (key other : Text) : List Json :=
  [.obj [(key, .arrayOf key), (other, .null)], .obj [(key, .arrayOf other)]]

/-- The records that are inferred from them. -/
def nestedRecords (key other : Text) : List (List (Text × Shape)) :=
  [[(key, arraysOf key), (other, .null)], [(key, arraysOf other)]]

theorem within_nested {key other : Text} (hk : key ∈ S) (ho : other ∈ S) (differ : key ≠ other) :
    ∀ v ∈ nested key other, v.Within S finiteDoubles := by
  refine List.forall_mem_cons.2 ⟨.obj ?_ ?_ ?_, List.forall_mem_singleton.2 (.obj ?_ ?_ ?_)⟩
  · simpa [Fields.keys] using differ
  · simpa using ⟨hk, ho⟩
  · simpa using ⟨within_arrayOf hk, Json.Within.null⟩
  · exact List.nodup_singleton key
  · simpa using hk
  · simpa using within_arrayOf ho

theorem inferSamples_nested {key other : Text} (differ : key ≠ other) :
    inferSamples (nested key other) =
      .ok (mergeAll ((nestedRecords key other).map Shape.object)) := by
  have first : infer (.obj [(key, .arrayOf key), (other, .null)]) =
      .ok (.object [(key, arraysOf key), (other, .null)]) :=
    ofFields_eq_ok (by simpa [Fields.keys] using differ)
  have second : infer (.obj [(key, .arrayOf other)]) = .ok (.object [(key, arraysOf other)]) := rfl
  rw [inferSamples, nested, inferAll, first, inferAll, second]
  rfl

/-- The second key is optional in the merged record. -/
theorem exists_optional_nested {key other : Text} (differ : key ≠ other) :
    ∃ fields inner, mergeAll ((nestedRecords key other).map Shape.object) = .object fields ∧
      (other, Shape.optional inner) ∈ fields := by
  rw [mergeAll_of_records (records?_eq_some_iff.2 rfl)]
  rcases mergedField_cases (nestedRecords key other) other
    (mergeAll ((valuesAt (nestedRecords key other) other).map unwrap)) with ⟨-, eq⟩ | ⟨strict, -⟩
  · refine ⟨_, _, rfl, List.mem_map.2 ⟨other, ?_, congrArg (Prod.mk other) eq⟩⟩
    exact mem_union_of_get? List.mem_cons_self (s := .null) (by simp [differ])
  · obtain ⟨s, found, -⟩ := strict [(key, arraysOf other)] (by simp [nestedRecords])
    simp [differ] at found

/-- If the keys have one spelling, the merged record accepts the second object only if the keys are
the same. -/
theorem eq_of_accepts_nested {key other : Text}
    (h : Quoted.write .ascii key = Quoted.write .ascii other)
    (accepted : (mergeAll ((nestedRecords key other).map Shape.object)).accepts
      (.obj [(key, .arrayOf other)]) = true) : key = other := by
  rw [mergeAll_of_records (records?_eq_some_iff.2 rfl)] at accepted
  obtain ⟨members, eq, -, asked⟩ := accepts_object_iff.1 accepted
  cases eq
  have listed : key ∈ Fields.union ((nestedRecords key other).map Fields.keys) :=
    mem_union_of_get? List.mem_cons_self (s := arraysOf key) (by simp)
  have inner := (asked _ (List.mem_map.2 ⟨key, listed, rfl⟩)).1 (.arrayOf other) (by simp)
  have values : (valuesAt (nestedRecords key other) key).map unwrap =
      [arraysOf key, arraysOf other] := by
    simp [valuesAt, nestedRecords, arraysOf, unwrap]
  rw [accepts_mergedField, values, mergeAll_arraysOf h] at inner
  exact accepts_arraysOf_iff.1 inner

/-- Inference is tight over exactly the sets of texts that spellings tell apart, among them every
set of texts without split pairs. -/
theorem infersTightly_iff_injOn_write (S : Set Text) :
    (InfersTightly S ↔ S.InjOn (Quoted.write .ascii)) ∧
      ((∀ t ∈ S, t.Unsplit) → InfersTightly S) := by
  refine ⟨⟨fun tight key hk other ho h => ?_, infersTightly_of_injOn⟩,
    fun unsplit => infersTightly_of_injOn (Quoted.injOn_write_of_unsplit unsplit)⟩
  by_contra differ
  obtain ⟨root, eq, evident⟩ :=
    tight (nested key other) (List.cons_ne_nil _ _) (within_nested hk ho differ)
  rw [inferSamples_nested differ] at eq
  cases eq
  obtain ⟨fields, inner, record, listed⟩ := exists_optional_nested differ
  obtain ⟨v, hv, accepted, lacks⟩ := (evident _ _ .root).lacking fields record other inner listed
  rcases List.mem_pair.1 hv with rfl | rfl
  · simp [Json.get?, Json.members?, differ] at lacks
  · exact differ (eq_of_accepts_nested h accepted)

/-- The second key is optional, but the one sample that lacks it is not accepted. -/
theorem inferSamples_splitPair_unobserved :
    ∃ fields, inferSamples [.obj [("a", .arrayOf .splitPair), ("k", .null)],
        .obj [("a", .arrayOf .wholePair)]] = .ok (.object fields) ∧
      (Text.ofString "k", Shape.optional .null) ∈ fields ∧
      ∀ v ∈ [Json.obj [("a", .arrayOf .splitPair), ("k", .null)],
        .obj [("a", .arrayOf .wholePair)]],
        (Shape.object fields).accepts v = true → v.get? "k" ≠ none :=
  ⟨[("a", arraysOf .splitPair), ("k", .optional .null)], by decide +kernel, by decide +kernel,
    by decide +kernel⟩

end Shape

end JsonShapes
