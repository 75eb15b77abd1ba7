import JsonShapes.Proofs.EquivalentMerges
import JsonShapes.Proofs.Soundness

/-!
# The order of array elements

The first element of an array says in which order properties are tried as discriminators. Nothing
else in the type of the elements depends on their order: a property discriminates the elements in
every order or in none, its groups hold the same elements, and shapes that no property tells apart
are folded or listed as a set.

Each variant of a tagged union is taken from the first element of its group, and its JSON type as
well. The elements of a group have one canonical text, so that it makes no difference which of them
comes first, as long as spellings tell texts apart. Elsewhere the element that comes first can be
seen in the type.
-/

namespace JsonShapes

open Discriminator

namespace Shape

variable {S : Set Text} {rows others : List (Json × Shape)}

/-- The property that discriminates the elements, if one does. -/
def tagField? (rows : List (Json × Shape)) : Option Text :=
  if 2 ≤ (unique (rows.map Prod.snd)).length then
    (leadingKeys (rows.map Prod.fst)).find? fun key => decide (Discerns canonicalText rows key)
  else none

/-- The type of elements that no property discriminates, from their distinct shapes. -/
def untaggedType : List Shape → Shape
  | [only] => only
  | distinct =>
    if distinct.all fun s => s.fields?.isSome then mergeAll distinct else .union none distinct

theorem unify_of_tagField? (inferred : ∀ row ∈ rows, Inferred row.1 row.2)
    (within : ∀ row ∈ rows, row.2.Within S) {field : Text} (tagged : tagField? rows = some field) :
    unify (rows.map Prod.fst) (rows.map Prod.snd) =
      .ok (.union (some field) ((classes id field rows).map (pinned rows field))) := by
  rw [unify_eq_tagged_iff inferred within]
  rw [tagField?, Option.ite_none_right_eq_some] at tagged
  exact ⟨tagged, rfl⟩

theorem unify_of_tagField?_eq_none (nonempty : rows ≠ []) (within : ∀ row ∈ rows, row.2.Within S)
    (untagged : tagField? rows = none) :
    unify (rows.map Prod.fst) (rows.map Prod.snd) =
      .ok (untaggedType (unique (rows.map Prod.snd))) := by
  have shapes : ∀ s ∈ rows.map Prod.snd, s.Within S := List.forall_mem_map.mpr within
  have known : ∀ row ∈ rows, row.2.foreign? = none :=
    fun row hr => (within row hr).foreign?_eq_none
  have search : find id (rows.map Prod.fst) (rows.map Prod.snd)
      (unique (rows.map Prod.snd)).length = .ok none := by
    rw [tagField?] at untagged
    rw [find_id_eq_ok known]
    split
    · next several => rw [if_pos several] at untagged; rw [untagged]; rfl
    · rfl
  have listed : unique (rows.map Prod.snd) ≠ [] := unique_ne_nil (by simpa using nonempty)
  have inside := Within.unique shapes
  have distinct : unique? (rows.map Prod.snd) = .ok (unique (rows.map Prod.snd)) := by
    rw [unique?, checkAll_eq_ok _ shapes]
  rw [unify, Unification.of, if_neg (by simpa using nonempty), distinct]
  generalize unique (rows.map Prod.snd) = distinct at search listed inside
  cases distinct with
  | nil => exact absurd rfl listed
  | cons s rest =>
      cases rest with
      | nil => rfl
      | cons t rest =>
          dsimp only
          rw [search]
          dsimp only [untaggedType]
          split
          · next records =>
              exact mergeRecords_eq_ok listed inside (List.all_eq_true.mp records)
          · rfl

theorem discerns_of_perm {κ : Type} {print : Shape → κ} (perm : rows.Perm others) {key : Text}
    (h : Discerns print rows key) : Discerns print others key where
  literal row hr := h.literal row (perm.mem_iff.mpr hr)
  bijective row hr other ho := h.bijective row (perm.mem_iff.mpr hr) other (perm.mem_iff.mpr ho)

theorem length_unique_of_perm {shapes shapes' : List Shape} (perm : shapes.Perm shapes') :
    (unique shapes).length = (unique shapes').length := by
  rw [length_unique, length_unique, length_eraseDups, length_eraseDups,
    List.toFinset_eq_of_perm _ _ (perm.map canonicalText)]

/-- The same property discriminates the elements, as long as the first of them is the same. -/
theorem tagField?_eq_of_perm (perm : rows.Perm others) (first : rows.head? = others.head?) :
    tagField? rows = tagField? others := by
  have leading : leadingKeys (rows.map Prod.fst) = leadingKeys (others.map Prod.fst) := by
    rw [leadingKeys, leadingKeys, List.head?_map, List.head?_map, first]
  have discerns : ∀ key, Discerns canonicalText rows key ↔ Discerns canonicalText others key :=
    fun key => ⟨discerns_of_perm perm, discerns_of_perm perm.symm⟩
  rw [tagField?, tagField?, length_unique_of_perm (perm.map Prod.snd), leading]
  simp only [discerns]

theorem alike_of_perm {shapes shapes' : List Shape} (perm : shapes.Perm shapes') :
    Alike shapes shapes' :=
  ⟨fun s hs => ⟨s, perm.mem_iff.mp hs, rfl⟩, fun s hs => ⟨s, perm.mem_iff.mpr hs, rfl⟩⟩

/-- Shapes that are the same as sets make one type, if no property tells them apart. -/
theorem untaggedType_canonical_eq (apart : S.InjOn (Quoted.write .ascii))
    {shapes shapes' : List Shape} (within : ∀ s ∈ shapes, s.Within S)
    (within' : ∀ s ∈ shapes', s.Within S) (alike : Alike shapes shapes') :
    (untaggedType (unique shapes)).canonical = (untaggedType (unique shapes')).canonical := by
  have distinct := alike.unique apart within within'
  by_cases single : ∃ s, unique shapes = [s]
  · obtain ⟨s, eq⟩ := single
    rw [eq] at distinct
    obtain ⟨t, eq', form⟩ := distinct.eq_singleton
    rw [eq, eq']
    exact form
  · have several : ∀ s, unique shapes ≠ [s] := fun s eq => single ⟨s, eq⟩
    have several' := distinct.ne_singleton several
    have records : (unique shapes).all (fun s => s.fields?.isSome) =
        (unique shapes').all fun s => s.fields?.isSome := by
      rw [Bool.eq_iff_iff, List.all_eq_true, List.all_eq_true, ← records?_isSome_iff,
        ← records?_isSome_iff]
      exact ⟨distinct.records_isSome, distinct.symm.records_isSome⟩
    rw [untaggedType, untaggedType, records]
    · split
      · exact distinct.mergeAll_canonical_eq apart (Within.unique within) (Within.unique within')
      · exact canonical_union_eq (nodup_unique _) (nodup_unique _) distinct.1 distinct.2
    · exact several'
    · exact several

/-- A value that can discriminate has a scalar for its shape, by whose name its JSON type goes. -/
theorem Inferred.exists_scalar {v : Json} {s : Shape} (h : Inferred v s)
    (literal : v.literalText.isSome = true) :
    ∃ kind : Scalar, s = .scalar kind ∧ v.literalType = kind.name := by
  cases h with
  | bool b => exact ⟨.boolean, rfl, rfl⟩
  | int n => exact ⟨.number, rfl, rfl⟩
  | finite x => exact ⟨.number, rfl, rfl⟩
  | str s => exact ⟨.string, rfl, rfl⟩
  | @notFinite x h =>
      cases x with
      | finite x => cases h
      | _ => cases literal
  | _ => cases literal

theorem Inferred.nodup_keys {v : Json} {fields : List (Text × Shape)}
    (h : Inferred v (.object fields)) : (Fields.keys fields).Nodup := by
  cases h.wellFormed (Set.subset_univ _) with
  | object distinct wellFormed => exact distinct

/-- Setting a property of records of one form gives records of one form. -/
theorem canonical_set_eq {fields fields' : List (Text × Shape)}
    (distinct : (Fields.keys fields).Nodup) (distinct' : (Fields.keys fields').Nodup)
    (form : (Shape.object fields).canonical = (Shape.object fields').canonical) (key : Text)
    (value : Shape) :
    (Shape.object (Fields.set fields key value)).canonical =
      (Shape.object (Fields.set fields' key value)).canonical := by
  refine canonical_object_eq (Fields.nodup_keys_set distinct key value)
    (Fields.nodup_keys_set distinct' key value) fun other => ?_
  rw [Fields.get?_set, Fields.get?_set]
  split
  · rfl
  · exact get?_of_canonical_eq form other

/-- The JSON type of a discriminating value follows from the form of the record that holds it. -/
theorem literalType_eq_of_canonical_eq {v v' value value' : Json}
    {fields fields' : List (Text × Shape)} {key : Text} (h : Inferred v (.object fields))
    (h' : Inferred v' (.object fields'))
    (form : (Shape.object fields).canonical = (Shape.object fields').canonical)
    (held : v.get? key = some value) (held' : v'.get? key = some value')
    (literal : value.literalText.isSome = true) (literal' : value'.literalText.isSome = true) :
    value.literalType = value'.literalType := by
  obtain ⟨_, s, same, found, inferred⟩ := h.exists_get? held
  obtain ⟨_, s', same', found', inferred'⟩ := h'.exists_get? held'
  cases same
  cases same'
  obtain ⟨kind, rfl, type⟩ := inferred.exists_scalar literal
  obtain ⟨kind', rfl, type'⟩ := inferred'.exists_scalar literal'
  obtain ⟨t, foundThere, same⟩ := exists_get?_of_canonical_eq form found
  cases found'.symm.trans foundThere
  cases canonical_eq_scalar_iff.mp same
  exact type.trans type'.symm

/-- The variant for a literal has one form, whichever of its elements comes first. -/
theorem pinned_canonical_eq (apart : S.InjOn (Quoted.write .ascii))
    (each : ∀ row ∈ rows, infer row.1 = .ok row.2 ∧ Inferred row.1 row.2)
    (within : ∀ row ∈ rows, row.2.Within S) (perm : rows.Perm others) {field : Text}
    (discerns : Discerns canonicalText rows field) {row : Json × Shape} (listed : row ∈ rows) :
    (pinned rows field (classOf id field rows (literalAt field row.1))).canonical =
      (pinned others field (classOf id field others (literalAt field row.1))).canonical := by
  have there : ∀ row ∈ others, row ∈ rows := fun row hr => perm.mem_iff.mpr hr
  obtain ⟨v, value, text, fields, first, held, spelled, shape, eq⟩ :=
    exactVariant_pinned apart each within discerns listed
  obtain ⟨v', value', text', fields', first', held', spelled', shape', eq'⟩ :=
    exactVariant_pinned apart (fun row hr => each row (there row hr))
      (fun row hr => within row (there row hr)) (discerns_of_perm perm discerns)
      (perm.mem_iff.mp listed)
  have literal : literalAt field v = literalAt field row.1 := by
    simpa using List.find?_some first
  have literal' : literalAt field v' = literalAt field row.1 := by
    simpa using List.find?_some first'
  obtain ⟨⟨element, s⟩, hr, rfl⟩ := List.mem_map.mp (List.mem_of_find?_eq_some first)
  obtain ⟨⟨element', s'⟩, hr', rfl⟩ := List.mem_map.mp (List.mem_of_find?_eq_some first')
  have hr' := there _ hr'
  obtain ⟨inferShape, inferred⟩ := each _ hr
  obtain ⟨inferShape', inferred'⟩ := each _ hr'
  cases inferShape.symm.trans shape
  cases inferShape'.symm.trans shape'
  have form : (Shape.object fields).canonical = (Shape.object fields').canonical := by
    refine (canonicalText_eq_iff apart (within _ hr) (within _ hr')).mp ?_
    exact (discerns.bijective _ hr _ hr').mp (literal.trans literal'.symm)
  have sameText : text = text' := by
    rw [literalAt, held, Option.bind_some, spelled] at literal
    rw [literalAt, held', Option.bind_some, spelled'] at literal'
    exact Option.some.inj (literal.trans literal'.symm)
  have sameType := literalType_eq_of_canonical_eq inferred inferred' form held held'
    (by rw [spelled]; rfl) (by rw [spelled']; rfl)
  rw [eq, eq', sameText, sameType]
  exact canonical_set_eq inferred.nodup_keys inferred'.nodup_keys form _ _

theorem canonical_union_map_eq {α : Type} {discriminator : Option Text} {keys : List α}
    {variant variant' : α → Shape}
    (agree : ∀ key ∈ keys, (variant key).canonical = (variant' key).canonical) :
    (Shape.union discriminator (keys.map variant)).canonical =
      (Shape.union discriminator (keys.map variant')).canonical := by
  have same : canonicalVariants (keys.map variant) = canonicalVariants (keys.map variant') := by
    rw [canonicalVariants_eq_map, canonicalVariants_eq_map, List.map_map, List.map_map]
    refine List.map_congr_left fun key hk => ?_
    simp only [Function.comp_apply, canonicalText, agree key hk]
  rw [canonical, canonical, same]

/-- Tagged unions of the elements in two orders have one form. -/
theorem taggedUnion_canonical_eq (apart : S.InjOn (Quoted.write .ascii))
    (each : ∀ row ∈ rows, infer row.1 = .ok row.2 ∧ Inferred row.1 row.2)
    (within : ∀ row ∈ rows, row.2.Within S) (perm : rows.Perm others) {field : Text}
    (discerns : Discerns canonicalText rows field)
    (variants : ∀ s ∈ (classes id field others).map (pinned others field), s.Within S) :
    (Shape.union (some field) ((classes id field rows).map (pinned rows field))).canonical =
      (Shape.union (some field)
        ((classes id field others).map (pinned others field))).canonical := by
  have literals : (rows.map fun row => literalAt field row.1).eraseDups.Perm
      (others.map fun row => literalAt field row.1).eraseDups := by
    refine (List.perm_ext_iff_of_nodup (nodup_eraseDups _) (nodup_eraseDups _)).mpr fun l => ?_
    rw [List.mem_eraseDups, List.mem_eraseDups]
    exact (perm.map _).mem_iff
  rw [classes, classes, List.map_map, List.map_map] at *
  refine (canonical_union_map_eq fun literal listed => ?_).trans
    (canonical_union_of_perm apart (literals.map _) ?_)
  · obtain ⟨row, hr, rfl⟩ := List.mem_map.mp (List.mem_eraseDups.mp listed)
    exact pinned_canonical_eq apart each within perm discerns hr
  · exact fun s hs => variants s ((literals.map _).mem_iff.mp hs)

/-- Arrays over the given texts that share their first element and have the same elements after it,
in any order, are inferred to have shapes of one form. -/
def InfersUnordered (S : Set Text) : Prop :=
  ∀ first tail tail', (∀ item ∈ first :: tail, item.Within S .univ) → tail.Perm tail' →
    SameForm (infer (.arr (first :: tail))) (infer (.arr (first :: tail')))

/-- The types of the elements in two orders have one form. -/
theorem exists_unify_of_perm (apart : S.InjOn (Quoted.write .ascii)) (nonempty : rows ≠ [])
    (each : ∀ row ∈ rows, infer row.1 = .ok row.2 ∧ Inferred row.1 row.2)
    (values : ∀ row ∈ rows, row.1.Within S .univ) (perm : rows.Perm others)
    (first : rows.head? = others.head?) :
    ∃ element element', unify (rows.map Prod.fst) (rows.map Prod.snd) = .ok element ∧
      unify (others.map Prod.fst) (others.map Prod.snd) = .ok element' ∧
      element.canonical = element'.canonical := by
  have there : ∀ row ∈ others, row ∈ rows := fun row hr => perm.mem_iff.mpr hr
  have inferred : ∀ row ∈ rows, Inferred row.1 row.2 := fun row hr => (each row hr).2
  have inferred' : ∀ row ∈ others, Inferred row.1 row.2 :=
    fun row hr => inferred row (there row hr)
  have within : ∀ row ∈ rows, row.2.Within (S ∪ {t | t.IsPlain}) :=
    fun row hr => (inferred row hr).within (values row hr)
  have within' : ∀ row ∈ others, row.2.Within (S ∪ {t | t.IsPlain}) :=
    fun row hr => within row (there row hr)
  have apart := Quoted.injOn_write_union_plain apart
  have sameField := tagField?_eq_of_perm perm first
  cases tagged : tagField? rows with
  | none =>
      have nonempty' : others ≠ [] := by
        rintro rfl
        exact nonempty perm.eq_nil
      refine ⟨_, _, unify_of_tagField?_eq_none nonempty within tagged,
        unify_of_tagField?_eq_none nonempty' within' (sameField ▸ tagged), ?_⟩
      exact untaggedType_canonical_eq apart (List.forall_mem_map.mpr within)
        (List.forall_mem_map.mpr within') (alike_of_perm (perm.map Prod.snd))
  | some field =>
      have unified' := unify_of_tagField? inferred' within' (sameField ▸ tagged)
      refine ⟨_, _, unify_of_tagField? inferred within tagged, unified', ?_⟩
      have discerns : Discerns canonicalText rows field := by
        rw [tagField?, Option.ite_none_right_eq_some] at tagged
        simpa using List.find?_some tagged.2
      apply taggedUnion_canonical_eq apart each within perm discerns
      obtain ⟨element, eq, unified⟩ := exists_unified inferred' within'
      cases unified'.symm.trans eq
      cases unified.within (fun row hr => values row (there row hr)) within' with
      | union word variants => exact variants

theorem infersUnordered_of_injOn (apart : S.InjOn (Quoted.write .ascii)) : InfersUnordered S := by
  intro first tail tail' values perm
  obtain ⟨rows, eq, shapes, each⟩ := exists_inferAll fun v hv => exists_inferred (values v hv)
  obtain ⟨row, rest, rfl⟩ := List.exists_cons_of_ne_nil (l := rows) (by rintro rfl; cases eq)
  obtain ⟨rfl, rfl⟩ := List.cons.inj eq
  -- the shapes go along with their elements
  obtain ⟨others, rfl, aligned⟩ : Relation.Comp (· = List.map Prod.fst ·) List.Perm tail' rest := by
    rw [List.eq_map_comp_perm]
    exact perm.symm
  have whole : (row :: rest).Perm (row :: others) := aligned.symm.cons row
  have shapes' : inferAll ((row :: others).map Prod.fst) = .ok ((row :: others).map Prod.snd) :=
    inferAll_eq_ok fun r hr => (each r (whole.mem_iff.mpr hr)).1
  obtain ⟨element, element', unified, unified', form⟩ := exists_unify_of_perm apart
    (List.cons_ne_nil row rest) each (List.forall_mem_map.mp values) whole rfl
  refine ⟨.array element, .array element', (infer_arr_eq_ok_iff shapes).mpr unified,
    (infer_arr_eq_ok_iff shapes').mpr unified', canonical_eq_array_iff.mpr ⟨_, rfl, form⟩⟩

/-- Three elements with their shapes: nothing, and an array for each of two keys. -/
def mixed (key other : Text) : List (Json × Shape) :=
  [(.null, .null), (.arrayOf key, arraysOf key), (.arrayOf other, arraysOf other)]

theorem canonicalText_arraysOf_ne (key : Text) :
    (arraysOf key).canonicalText ≠ Shape.null.canonicalText := by
  intro same
  have differ : Quoted.write .ascii "element" ≠ Quoted.write .ascii "kind" := by decide
  simp [canonicalText, formText, arraysOf, canonical, Json.print, Json.printBefore,
    Json.printMembers] at same
  exact differ (Quoted.write_append_inj same).1

theorem infer_mixed {key other : Text} (h : Quoted.write .ascii key = Quoted.write .ascii other) :
    infer (.arr ((mixed key other).map Prod.fst)) =
      .ok (.array (.union none [.null, arraysOf key])) := by
  have each : ∀ row ∈ mixed key other, infer row.1 = .ok row.2 := by
    simp only [mixed, List.forall_mem_cons]
    exact ⟨rfl, rfl, rfl, List.forall_mem_nil _⟩
  have within : ∀ row ∈ mixed key other, row.2.Within .univ := by
    simp only [mixed, List.forall_mem_cons]
    exact ⟨.scalar .null, Within.arraysOf trivial, Within.arraysOf trivial, List.forall_mem_nil _⟩
  have distinct : unique ((mixed key other).map Prod.snd) = [.null, arraysOf key] := by
    simp [unique, uniqueAfter, mixed, canonicalText_arraysOf h, canonicalText_arraysOf_ne]
  have nonempty : mixed key other ≠ [] := List.cons_ne_nil _ _
  have untagged : tagField? (mixed key other) = none := ite_self none
  rw [infer_arr_eq_ok_iff (inferAll_eq_ok each),
    unify_of_tagField?_eq_none nonempty within untagged, distinct]
  rfl

theorem injOn_of_infersUnordered (unordered : InfersUnordered S) :
    S.InjOn (Quoted.write .ascii) := by
  intro key hk other ho h
  have values : ∀ item ∈ (mixed key other).map Prod.fst, item.Within S .univ := by
    simpa [mixed] using ⟨.null, within_arrayOf hk, within_arrayOf ho⟩
  obtain ⟨m, n, eq, eq', form⟩ := unordered _ _ _ values (List.Perm.swap _ _ _)
  cases (infer_mixed h).symm.trans eq
  cases (infer_mixed h.symm).symm.trans eq'
  obtain ⟨_, same, unions⟩ := canonical_eq_array_iff.mp form
  cases same
  -- of the two arrays, each union shows the one that came first
  obtain ⟨t, ht, arrays⟩ := mem_variants_of_canonical_eq unions (s := arraysOf key) (by simp)
  rw [List.mem_cons, List.mem_singleton] at ht
  rcases ht with rfl | rfl
  · cases canonical_eq_scalar_iff.mp arrays
  · exact arraysOf_canonical_inj arrays

/-- The order of the elements after the first does not matter over exactly the sets of texts that
spellings tell apart, among them every set of texts without split pairs. -/
theorem infersUnordered_iff_injOn_write (S : Set Text) :
    (InfersUnordered S ↔ S.InjOn (Quoted.write .ascii)) ∧
      ((∀ t ∈ S, t.Unsplit) → InfersUnordered S) :=
  ⟨⟨injOn_of_infersUnordered, infersUnordered_of_injOn⟩,
    fun unsplit => infersUnordered_of_injOn (Quoted.injOn_write_of_unsplit unsplit)⟩

/-- The order of the second and the third element decides which of two arrays is merged with the
array of the last, and the canonical texts show it. -/
theorem infer_splitPair_elements :
    ∃ m n, infer (.arr [.obj [], .obj [("a", .arrayOf .splitPair)],
        .obj [("a", .arrayOf .wholePair)],
        .obj [("a", .arr [.obj [(.splitPair, .null), ("z", .null)]])]]) = .ok m ∧
      infer (.arr [.obj [], .obj [("a", .arrayOf .wholePair)],
        .obj [("a", .arrayOf .splitPair)],
        .obj [("a", .arr [.obj [(.splitPair, .null), ("z", .null)]])]]) = .ok n ∧
      m.canonicalText ≠ n.canonicalText :=
  ⟨.array (.object [("a", .optional (.array (.object [(.splitPair, .null),
      ("z", .optional .null)])))]),
    .array (.object [("a", .optional (.array (.object [(.wholePair, .optional .null),
      (.splitPair, .optional .null), ("z", .optional .null)])))]),
    by decide +kernel, by decide +kernel, by decide +kernel⟩

end Shape

end JsonShapes
