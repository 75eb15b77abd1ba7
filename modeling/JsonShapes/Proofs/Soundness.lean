import JsonShapes.Proofs.Inferring
import JsonShapes.Proofs.UpperBound

/-!
# An inferred shape accepts its samples

Every value whose doubles are finite has the shape that is inferred from it, and merging keeps what
is accepted. Elements of an array are accepted whichever way they are unified. The delicate way is a
tagged union: a group takes the JSON type of its literal from one element, and this is the type in
all of them because their shapes agree at the discriminator.

As for merging, the texts of the samples have to be told apart by their spellings, and no weaker
condition is enough.
-/

namespace JsonShapes

namespace Fields

variable {α β γ : Type}

/-- Two records with the same keys, whose values come from one list, are looked up in parallel. -/
theorem get?_map_of_get?_map {rows : List (Text × γ)} {f : γ → α} (g : γ → β) {key : Text} {a : α}
    (h : get? (rows.map fun r => (r.1, f r.2)) key = some a) :
    ∃ c, (key, c) ∈ rows ∧ f c = a ∧ get? (rows.map fun r => (r.1, g r.2)) key = some (g c) := by
  induction rows with
  | nil => cases h
  | cons row rows ih =>
      rw [List.map_cons, get?_cons] at h
      rw [List.map_cons, get?_cons]
      split at h
      · next here =>
          cases h
          exact ⟨row.2, here ▸ List.mem_cons_self, rfl, by rw [if_pos here]⟩
      · next other =>
          obtain ⟨c, member, eq, found⟩ := ih h
          exact ⟨c, List.mem_cons_of_mem _ member, eq, by rw [if_neg other]; exact found⟩

end Fields

open Discriminator

namespace Shape

variable {S : Set Text} {D : Set Binary64}

/-- A member of an object has the shape of the property. -/
theorem Inferred.exists_get? {v : Json} {s : Shape} (h : Inferred v s) {key : Text} {value : Json}
    (held : v.get? key = some value) :
    ∃ fields t, s = .object fields ∧ Fields.get? fields key = some t ∧ Inferred value t := by
  cases h with
  | obj distinct inferred =>
      obtain ⟨pair, member, rfl, found⟩ := Fields.get?_map_of_get?_map Prod.snd held
      exact ⟨_, pair.2, rfl, found, inferred _ member⟩
  | _ => cases held

/-- The shape of a literal names its JSON type. -/
theorem Inferred.literalType_eq {v : Json} {s : Shape} (h : Inferred v s) {text : Text}
    (literal : v.literalText = some text) :
    ∃ kind : Scalar, s = .scalar kind ∧ v.literalType = kind.name := by
  cases h with
  | bool b => exact ⟨.boolean, rfl, rfl⟩
  | int n => exact ⟨.number, rfl, rfl⟩
  | finite x => exact ⟨.number, rfl, rfl⟩
  | notFinite h =>
      next x =>
        cases x with
        | finite x => cases h
        | _ => cases literal
  | str s => exact ⟨.string, rfl, rfl⟩
  | _ => cases literal

/-- The literals of a group have one JSON type. -/
theorem literalType_eq_of_filed (apart : S.InjOn (Quoted.write .ascii))
    {rows : List (Json × Shape)} (inferred : ∀ row ∈ rows, Inferred row.1 row.2)
    (within : ∀ row ∈ rows, row.2.Within S) {c : Candidate} (splits : c.Splits rows)
    {p : Partition} (hp : p ∈ c.partitions) {row : Json × Shape} {value : Json}
    (filed : Filed rows c.field p row value) : value.literalType = p.jsonType := by
  obtain ⟨first, literal, filedFirst, typed⟩ := splits.exists_typed hp
  have sameForm := (canonicalText_eq_iff apart (within row filed.listed)
    (within first filedFirst.listed)).1 (splits.canonicalText_eq hp filed filedFirst)
  obtain ⟨fields, s, eq, found, here⟩ := (inferred row filed.listed).exists_get? filed.held
  obtain ⟨others, t, eq', found', there⟩ :=
    (inferred first filedFirst.listed).exists_get? filedFirst.held
  rw [eq, eq'] at sameForm
  have sameAt := get?_of_canonical_eq sameForm c.field
  rw [found, found'] at sameAt
  obtain ⟨kind, rfl, type⟩ := here.literalType_eq filed.text
  obtain ⟨kind', rfl, type'⟩ := there.literalType_eq filedFirst.text
  cases canonical_eq_scalar_iff.1 (Option.some.inj sameAt)
  rw [type, ← typed, type']

theorem accepts_pin {field : Text} {literal s : Shape} {v value : Json}
    (held : v.get? field = some value) (pinned : literal.accepts value = true)
    (accepted : s.accepts v = true) : (Unification.pin field literal s).accepts v = true := by
  cases s with
  | object fields =>
      obtain ⟨members, rfl, known, asked⟩ := accepts_object_iff.1 accepted
      have found : Fields.get? members field = some value := held
      have listed : field ∈ Fields.keys fields :=
        known field (List.mem_map.mpr ⟨_, Fields.mem_of_get?_eq_some found, rfl⟩)
      refine accepts_object_iff.2 ⟨members, rfl, fun key hk => ?_, fun f hf => ?_⟩
      · rw [Fields.keys_set, if_pos listed]
        exact known key hk
      · rcases Fields.mem_set hf with rfl | old
        · refine ⟨fun other present => ?_, fun absent => ?_⟩
          · rw [found] at present
            cases present
            exact pinned
          · rw [found] at absent
            cases absent
        · exact asked f old
  | _ => exact accepted

/-- The variant of a group accepts its elements. -/
theorem accepts_pinned (apart : S.InjOn (Quoted.write .ascii)) {rows : List (Json × Shape)}
    (inferred : ∀ row ∈ rows, Inferred row.1 row.2) (within : ∀ row ∈ rows, row.2.Within S)
    (accepted : ∀ row ∈ rows, row.2.accepts row.1 = true) {c : Candidate} (splits : c.Splits rows)
    {p : Partition} (hp : p ∈ c.partitions) {row : Json × Shape} {value : Json}
    (filed : Filed rows c.field p row value) :
    (pinned rows c.field p).accepts row.1 = true := by
  apply accepts_pin filed.held
  · have typed := literalType_eq_of_filed apart inferred within splits hp filed
    exact accepts_literal_iff.2 ⟨filed.text, typed⟩
  · exact accepts_mergeAll apart (fun s hs => Within.of_mem_group within hs) filed.grouped
      (accepted row filed.listed)

/-- The one type of the elements of an array accepts each of them. -/
theorem Unified.accepts (apart : S.InjOn (Quoted.write .ascii)) {rows : List (Json × Shape)}
    {element : Shape} (h : Unified rows element)
    (inferred : ∀ row ∈ rows, Inferred row.1 row.2) (within : ∀ row ∈ rows, row.2.Within S)
    (accepted : ∀ row ∈ rows, row.2.accepts row.1 = true) {row : Json × Shape} (hr : row ∈ rows) :
    element.accepts row.1 = true := by
  have listed : ∀ s ∈ rows.map Prod.snd, s.Within S := List.forall_mem_map.mpr within
  obtain ⟨t, ht, held⟩ := exists_unique_accepts apart listed (List.mem_map.mpr ⟨row, hr, rfl⟩)
    (accepted row hr)
  cases h with
  | nothing empty =>
      rw [empty] at hr
      cases hr
  | uniform single =>
      rw [single, List.mem_singleton] at ht
      exact ht ▸ held
  | tagged nonempty splits =>
      obtain ⟨p, hp, value, filed⟩ := splits.exists_filed hr
      refine accepts_union_iff.2 ⟨_, List.mem_map.mpr ⟨p, hp, rfl⟩, ?_⟩
      exact accepts_pinned apart inferred within accepted splits hp filed
  | folded nonempty => exact accepts_mergeAll apart (Within.unique listed) ht held
  | alternatives nonempty => exact accepts_union_iff.2 ⟨t, ht, held⟩

/-- The doubles that are numbers of JSON. -/
abbrev finiteDoubles : Set Binary64 := {x | x.isFinite = true}

/-- A value whose doubles are finite has the shape that is inferred from it. -/
theorem Inferred.accepts (apart : S.InjOn (Quoted.write .ascii)) {v : Json} {s : Shape}
    (h : Inferred v s) (values : v.Within S finiteDoubles) : s.accepts v = true := by
  induction h with
  | null => rw [accepts_scalar, Scalar.accepts]
  | bool b => rw [accepts_scalar, Scalar.accepts]
  | int n => rw [accepts_scalar, Scalar.accepts]
  | finite x => rw [accepts_scalar, Scalar.accepts]
  | notFinite infinite =>
      cases values with
      | double finite =>
          change Binary64.isFinite _ = true at finite
          rw [infinite] at finite
          cases finite
  | str s => rw [accepts_scalar, Scalar.accepts]
  | arr inferred unified ih =>
      next rows element =>
        cases values with
        | arr values =>
            have values := List.forall_mem_map.mp values
            have within : ∀ row ∈ rows, row.2.Within (S ∪ {t | t.IsPlain}) :=
              fun row hr => (inferred row hr).within (values row hr)
            refine accepts_array_iff.2 ⟨_, rfl, List.forall_mem_map.mpr fun row hr => ?_⟩
            exact unified.accepts (Quoted.injOn_write_union_plain apart) inferred within
              (fun r h => ih r h (values r h)) hr
  | obj distinct inferred ih =>
      next members =>
        cases values with
        | obj keysDistinct words values =>
            refine accepts_object_iff.2 ⟨_, rfl, ?_, List.forall_mem_map.mpr fun m hm => ?_⟩
            · simp [Fields.keys]
            · have listed : (m.1, m.2.1) ∈ members.map fun m => (m.1, m.2.1) :=
                List.mem_map.mpr ⟨m, hm, rfl⟩
              have here := Fields.get?_eq_some_of_mem keysDistinct listed
              refine ⟨fun value found => ?_, fun missing => ?_⟩
              · rw [here] at found
                cases found
                exact ih m hm (values _ listed)
              · rw [here] at missing
                cases missing

/-- Samples over the given texts, whose doubles are finite, have the shape that is inferred from
them. -/
def InfersSoundly (S : Set Text) : Prop :=
  ∀ samples : List Json, samples ≠ [] → (∀ v ∈ samples, v.Within S finiteDoubles) →
    ∃ shape, inferSamples samples = .ok shape ∧ ∀ v ∈ samples, shape.accepts v = true

theorem infersSoundly_of_injOn (apart : S.InjOn (Quoted.write .ascii)) : InfersSoundly S := by
  intro samples nonempty within
  obtain ⟨rows, rfl, each, shapes, eq⟩ := exists_inferSamples nonempty within
  refine ⟨_, eq, List.forall_mem_map.mpr fun row hr => ?_⟩
  apply accepts_mergeAll (Quoted.injOn_write_union_plain apart) shapes
    (List.mem_map.mpr ⟨row, hr, rfl⟩)
  exact (each row hr).2.accepts apart (within _ (List.mem_map.mpr ⟨row, hr, rfl⟩))

theorem within_arrayOf {key : Text} (h : key ∈ S) : (Json.arrayOf key).Within S D := by
  refine .arr (List.forall_mem_singleton.mpr (.obj ?_ ?_ ?_))
  · exact List.nodup_singleton key
  · exact List.forall_mem_singleton.mpr h
  · exact List.forall_mem_singleton.mpr .null

/-- Inference is sound over exactly the sets of texts that spellings tell apart, among them every
set of texts without split pairs. -/
theorem infersSoundly_iff_injOn_write (S : Set Text) :
    (InfersSoundly S ↔ S.InjOn (Quoted.write .ascii)) ∧
      ((∀ t ∈ S, t.Unsplit) → InfersSoundly S) := by
  refine ⟨⟨fun sound key hk other ho h => ?_, infersSoundly_of_injOn⟩,
    fun unsplit => infersSoundly_of_injOn (Quoted.injOn_write_of_unsplit unsplit)⟩
  obtain ⟨shape, eq, accepted⟩ := sound [.arrayOf key, .arrayOf other] (by simp)
    (by simpa using ⟨within_arrayOf hk, within_arrayOf ho⟩)
  have merged : inferSamples [.arrayOf key, .arrayOf other] = .ok (arraysOf key) := by
    change mergeShapes [arraysOf key, arraysOf other] = _
    rw [mergeShapes_eq_ok (by simp) (by simpa using ⟨Within.arraysOf hk, Within.arraysOf ho⟩),
      mergeAll_arraysOf h]
  rw [merged] at eq
  cases eq
  exact accepts_arraysOf_iff.1 (accepted (.arrayOf other) (by simp))

/-- An array of two objects does not have the shape that is inferred from it. -/
theorem inferSamples_splitPair_rejects :
    ∃ shape, inferSamples [.arr [.obj [(.splitPair, .null)], .obj [(.wholePair, .null)]]] =
        .ok shape ∧
      shape.accepts (.arr [.obj [(.splitPair, .null)], .obj [(.wholePair, .null)]]) = false :=
  ⟨arraysOf .splitPair, by decide +kernel, by decide +kernel⟩

end Shape

end JsonShapes
