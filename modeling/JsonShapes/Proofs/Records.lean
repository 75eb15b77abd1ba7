import JsonShapes.Inference
import JsonShapes.Proofs.DistinctItems

/-!
# Records as ordered maps

A record keeps its properties in order and looks them up through an index of positions. The two
agree from the moment a record is built: the index gives a position for a key exactly if the
property at that position has the key, so that no key repeats. Every update builds the record anew,
and since it replaces a property in its place or adds a key that is not there, building succeeds.

A record that went through any number of updates is therefore the map that its updates describe:
the keys stand in the order in which they were first inserted, and each has its latest value.
-/

namespace JsonShapes

namespace Fields

variable {α : Type}

theorem nodup_keys_set {fields : List (Text × α)} (h : (keys fields).Nodup) (key : Text)
    (value : α) : (keys (set fields key value)).Nodup := by
  rw [keys_set]
  split
  · exact h
  · next new => exact List.nodup_append.mpr ⟨h, List.nodup_singleton key, by grind⟩

theorem set_eq_append {fields : List (Text × α)} {key : Text} (new : key ∉ keys fields)
    (value : α) : set fields key value = fields ++ [(key, value)] := by
  induction fields with
  | nil => rfl
  | cons field rest ih =>
      obtain ⟨k, v⟩ := field
      rw [keys, List.map_cons, List.mem_cons, not_or] at new
      rw [set, if_neg (Ne.symm new.1), ih new.2, List.cons_append]

/-- The property is replaced where its key stands. -/
theorem set_eq_listSet {fields : List (Text × α)} (distinct : (keys fields).Nodup) {key : Text}
    {position : Nat} (found : (keys fields)[position]? = some key) (value : α) :
    set fields key value = fields.set position (key, value) := by
  induction fields generalizing position with
  | nil => cases found
  | cons field rest ih =>
      obtain ⟨k, v⟩ := field
      rw [keys, List.map_cons, List.nodup_cons] at distinct
      cases position with
      | zero =>
          have same : k = key := Option.some.inj found
          rw [set, if_pos same, List.set_cons_zero]
      | succ position =>
          have later : (keys rest)[position]? = some key := found
          have other : k ≠ key := by
            rintro rfl
            exact distinct.1 (List.mem_of_getElem? later)
          rw [set, if_neg other, ih distinct.2 later, List.set_cons_succ]

theorem get?_eq_lookup (fields : List (Text × α)) (key : Text) :
    get? fields key = fields.lookup key := by
  induction fields with
  | nil => rfl
  | cons field rest ih =>
      obtain ⟨k, v⟩ := field
      rw [get?_cons, List.lookup_cons, ih]
      by_cases same : k = key
      · simp [same]
      · rw [if_neg same, beq_false_of_ne (Ne.symm same)]

theorem contains_iff {fields : List (Text × α)} {key : Text} :
    contains fields key = true ↔ key ∈ keys fields := by
  rw [contains, Option.isSome_iff_ne_none, ne_eq, get?_eq_none_iff, not_not]

/-- The keys after any number of updates: those that are new follow in the order in which they were
first set. -/
theorem keys_foldl_set (fields updates : List (Text × α)) :
    keys (updates.foldl (fun fs u => set fs u.1 u.2) fields) =
      keys fields ++ ((keys updates).filter fun key => key ∉ keys fields).eraseDups := by
  induction updates generalizing fields with
  | nil => simp [keys]
  | cons u updates ih =>
      have first : keys (u :: updates) = u.1 :: keys updates := rfl
      rw [List.foldl_cons, ih, keys_set, first]
      split
      · next old => rw [List.filter_cons_of_neg (by simpa using old)]
      · next new =>
          rw [List.filter_cons_of_pos (by simpa using new), List.eraseDups_cons, List.filter_filter,
            List.append_assoc, List.singleton_append]
          refine congrArg (fun ks => keys fields ++ u.1 :: List.eraseDups ks)
            (List.filter_congr fun key _ => ?_)
          simp [beq_eq_decide, and_comm]

/-- The value after any number of updates is the one that was set last. -/
theorem get?_foldl_set (fields updates : List (Text × α)) (key : Text) :
    get? (updates.foldl (fun fs u => set fs u.1 u.2) fields) key =
      (updates.reverse ++ fields).lookup key := by
  induction updates generalizing fields with
  | nil => exact get?_eq_lookup fields key
  | cons u updates ih =>
      have here : get? (set fields u.1 u.2) key = get? (u :: fields) key := get?_set ..
      rw [List.foldl_cons, ih, List.reverse_cons, List.append_assoc, List.lookup_append,
        List.lookup_append, ← get?_eq_lookup (set fields u.1 u.2), here, get?_eq_lookup,
        List.singleton_append]

end Fields

namespace Record

/-- The index gives the position of each key, and of no others. -/
def Places (index : List (Text × Nat)) (ks : List Text) : Prop :=
  ∀ key position, Fields.get? index key = some position ↔ ks[position]? = some key

section Places

variable {index : List (Text × Nat)} {ks : List Text} {key : Text}

theorem places_nil : Places [] [] := by
  simp [Places]

theorem Places.contains_iff (h : Places index ks) :
    Fields.contains index key = true ↔ key ∈ ks := by
  rw [Fields.contains, Option.isSome_iff_exists, List.mem_iff_getElem?]
  exact exists_congr fun position => h key position

theorem Places.get?_eq_none_iff (h : Places index ks) :
    Fields.get? index key = none ↔ key ∉ ks := by
  rw [← h.contains_iff, Fields.contains, Bool.not_eq_true, Option.isSome_eq_false_iff,
    Option.isNone_iff_eq_none]

/-- A key that stood at two positions would be given two positions by the index. -/
theorem Places.nodup (h : Places index ks) : ks.Nodup := by
  rw [List.nodup_iff_getElem?_ne_getElem?]
  intro i j before inside same
  have first := (h ks[i] i).2 (List.getElem?_eq_getElem (by omega))
  have second := (h ks[i] j).2 (same ▸ List.getElem?_eq_getElem (by omega))
  rw [first] at second
  exact absurd (Option.some.inj second) (by omega)

/-- One round of building: a new key goes behind the others. -/
theorem Places.set (h : Places index ks) (new : key ∉ ks) :
    Places (Fields.set index key ks.length) (ks ++ [key]) := by
  intro other position
  have listed : (ks ++ [key])[position]? = some other ↔
      ks[position]? = some other ∨ position = ks.length ∧ key = other := by
    grind
  rw [listed, Fields.get?_set]
  by_cases same : key = other
  · subst same
    have absent : ks[position]? ≠ some key := fun found => new (List.mem_of_getElem? found)
    rw [if_pos rfl, Option.some.injEq]
    simp [absent, eq_comm]
  · rw [if_neg same, h other position]
    simp [same]

end Places

/-- The key of the first property that repeats an earlier one. -/
def FirstRepeat (ks : List Text) (key : Text) : Prop :=
  ∃ before after, ks = before ++ key :: after ∧ before.Nodup ∧ key ∈ before

/-- Building enters all keys, or stops at the first one that repeats an earlier one. The keys that
have been entered before are part of the list that is spoken of. -/
theorem enter_cases {index : List (Text × Nat)} {ks : List Text} (h : Places index ks)
    (fields : List (Text × Shape)) :
    (∃ full, enter index ks.length fields = .ok full ∧ Places full (ks ++ Fields.keys fields)) ∨
      ∃ key, enter index ks.length fields = .error (.duplicateKey key) ∧
        FirstRepeat (ks ++ Fields.keys fields) key := by
  induction fields generalizing index ks with
  | nil => exact .inl ⟨index, rfl, by simpa [Fields.keys] using h⟩
  | cons field rest ih =>
      obtain ⟨key, value⟩ := field
      have split : ks ++ Fields.keys ((key, value) :: rest) = ks ++ [key] ++ Fields.keys rest := by
        simp [Fields.keys]
      rw [enter]
      by_cases old : key ∈ ks
      · rw [if_pos (h.contains_iff.2 old)]
        exact .inr ⟨key, rfl, ks, Fields.keys rest, rfl, h.nodup, old⟩
      · rw [if_neg (mt h.contains_iff.1 old), split]
        have next := ih (h.set old)
        rwa [List.length_append, List.length_singleton] at next

/-- The positions of the index are those of the properties. -/
def Indexed (r : Record) : Prop := Places r.index r.keys

theorem ofFields_cases (fields : List (Text × Shape)) :
    (∃ r, ofFields fields = .ok r ∧ r.properties = fields ∧ r.Indexed) ∨
      ∃ key, ofFields fields = .error (.duplicateKey key) ∧
        FirstRepeat (Fields.keys fields) key := by
  rw [ofFields]
  rcases enter_cases places_nil fields with ⟨index, entered, places⟩ | ⟨key, refused, repeats⟩
  · exact .inl ⟨⟨fields, index⟩, by rw [show enter [] 0 fields = _ from entered], rfl, places⟩
  · exact .inr ⟨key, by rw [show enter [] 0 fields = _ from refused], repeats⟩

theorem FirstRepeat.not_nodup {ks : List Text} {key : Text} (h : FirstRepeat ks key) :
    ¬ks.Nodup := by
  obtain ⟨before, after, rfl, -, repeats⟩ := h
  intro distinct
  exact (List.nodup_append.1 distinct).2.2 key repeats key List.mem_cons_self rfl

/-- A beginning without repetitions ends where a key repeats. -/
theorem FirstRepeat.eq_of_append {key other : Text} {before after more others : List Text}
    (same : key :: after = more ++ other :: others) (repeats : key ∈ before)
    (distinct : (before ++ more).Nodup) : key = other := by
  cases more with
  | nil => exact (List.cons.inj same).1
  | cons first more =>
      obtain ⟨rfl, -⟩ := List.cons.inj same
      exact absurd rfl ((List.nodup_append.1 distinct).2.2 key repeats key List.mem_cons_self)

/-- Only one key is the first to repeat another. -/
theorem FirstRepeat.unique {ks : List Text} {key other : Text} (h : FirstRepeat ks key)
    (h' : FirstRepeat ks other) : key = other := by
  obtain ⟨before, after, rfl, distinct, repeats⟩ := h
  obtain ⟨before', after', same, distinct', repeats'⟩ := h'
  rcases List.append_eq_append_iff.1 same with ⟨more, rfl, later⟩ | ⟨more, rfl, later⟩
  · exact eq_of_append later repeats distinct'
  · exact (eq_of_append later repeats' distinct).symm

theorem exists_ofFields {fields : List (Text × Shape)} (distinct : (Fields.keys fields).Nodup) :
    ∃ r, ofFields fields = .ok r ∧ r.properties = fields ∧ r.Indexed := by
  rcases ofFields_cases fields with built | ⟨key, -, repeats⟩
  · exact built
  · exact absurd distinct repeats.not_nodup

theorem indexed_of_ofFields {fields : List (Text × Shape)} {r : Record}
    (built : ofFields fields = .ok r) : r.properties = fields ∧ r.Indexed := by
  rcases ofFields_cases fields with ⟨r', built', same, indexed⟩ | ⟨key, refused, -⟩
  · rw [built'] at built
    cases built
    exact ⟨same, indexed⟩
  · rw [refused] at built
    cases built

/-- Building fails at the key that is the first to repeat another. -/
theorem ofFields_eq_error_iff {fields : List (Text × Shape)} {fault : Fault} :
    ofFields fields = .error fault ↔
      ∃ key, fault = .duplicateKey key ∧ FirstRepeat (Fields.keys fields) key := by
  rcases ofFields_cases fields with ⟨r, built, rfl, indexed⟩ | ⟨key, refused, repeats⟩
  · rw [built]
    refine iff_of_false nofun ?_
    rintro ⟨key, -, repeats⟩
    exact repeats.not_nodup indexed.nodup
  · rw [refused, Except.error.injEq]
    constructor
    · rintro rfl
      exact ⟨key, rfl, repeats⟩
    · rintro ⟨other, rfl, repeats'⟩
      rw [repeats.unique repeats']

theorem exists_ofFields_eq_error_iff {fields : List (Text × Shape)} :
    (∃ fault, ofFields fields = .error fault) ↔ ¬(Fields.keys fields).Nodup := by
  constructor
  · rintro ⟨fault, refused⟩
    obtain ⟨key, -, repeats⟩ := ofFields_eq_error_iff.1 refused
    exact repeats.not_nodup
  · intro repeats
    rcases ofFields_cases fields with ⟨r, -, rfl, indexed⟩ | ⟨key, refused, -⟩
    · exact absurd indexed.nodup repeats
    · exact ⟨_, refused⟩

variable {r : Record}

/-- Looking a key up through the index finds the property that has it. -/
theorem Indexed.get_eq (h : r.Indexed) (key : Text) (fallback : Option Shape) :
    r.get key fallback = (Fields.get? r.properties key).or fallback := by
  rw [get]
  cases found : Fields.get? r.index key with
  | none =>
      have absent : key ∉ Fields.keys r.properties := h.get?_eq_none_iff.1 found
      rw [Fields.get?_eq_none_iff.2 absent, Option.none_or]
  | some position =>
      obtain ⟨⟨k, value⟩, listed, rfl⟩ : ∃ field, r.properties[position]? = some field ∧
          field.1 = key := by
        have place := (h key position).1 found
        rwa [keys, Fields.keys, List.getElem?_map, Option.map_eq_some_iff] at place
      have held := Fields.get?_eq_some_of_mem (h.nodup) (List.mem_of_getElem? listed)
      rw [held, Option.some_or]
      change r.properties[position]?.map Prod.snd = some value
      rw [listed, Option.map_some]

theorem Indexed.contains_eq (h : r.Indexed) (key : Text) :
    r.contains key = (r.get key none).isSome := by
  rw [h.get_eq, Option.or_none, Bool.eq_iff_iff, contains, h.contains_iff]
  exact Fields.contains_iff.symm

/-- Setting a property succeeds and does what setting a field does. -/
theorem Indexed.withProperty (h : r.Indexed) (key : Text) (value : Shape) :
    ∃ node, r.withProperty key value = .ok node ∧
      node.properties = Fields.set r.properties key value ∧ node.Indexed := by
  have distinct : (Fields.keys r.properties).Nodup := h.nodup
  obtain ⟨node, built, same, indexed⟩ :=
    exists_ofFields (Fields.nodup_keys_set distinct key value)
  refine ⟨node, ?_, same, indexed⟩
  rw [Record.withProperty]
  cases found : Fields.get? r.index key with
  | none =>
      rw [← built, Fields.set_eq_append (h.get?_eq_none_iff.1 found)]
  | some position =>
      rw [← built, Fields.set_eq_listSet distinct ((h key position).1 found)]

/-- The record with the given properties set one after the other. -/
def withProperties (r : Record) (updates : List (Text × Shape)) : Except Fault Record :=
  updates.foldlM (fun node update => node.withProperty update.1 update.2) r

/-- Any number of updates succeeds. -/
theorem Indexed.withProperties (h : r.Indexed) (updates : List (Text × Shape)) :
    ∃ node, r.withProperties updates = .ok node ∧
      node.properties = updates.foldl (fun fields u => Fields.set fields u.1 u.2) r.properties ∧
      node.Indexed := by
  induction updates generalizing r with
  | nil => exact ⟨r, rfl, rfl, h⟩
  | cons update updates ih =>
      obtain ⟨next, set, same, indexed⟩ := h.withProperty update.1 update.2
      obtain ⟨node, run, properties, final⟩ := ih indexed
      refine ⟨node, ?_, by rw [properties, same, List.foldl_cons], final⟩
      rw [Record.withProperties, List.foldlM_cons, set]
      exact run

end Record

/-- Pinning a property of a shape sets the field. -/
theorem Unification.foldl_pin (fields updates : List (Text × Shape)) :
    updates.foldl (fun s u => pin u.1 u.2 s) (.object fields) =
      .object (updates.foldl (fun fs u => Fields.set fs u.1 u.2) fields) := by
  induction updates generalizing fields with
  | nil => rfl
  | cons u updates ih => exact ih (Fields.set fields u.1 u.2)

namespace Record

/-- The record `node` is the ordered map that the updates make of the record `first`. As a shape, it
is what pinning the properties one after the other gives. -/
structure Tracks (first : Record) (updates : List (Text × Shape)) (node : Record) : Prop where
  index_iff : ∀ key position,
    Fields.get? node.index key = some position ↔ node.keys[position]? = some key
  nodup_keys : node.keys.Nodup
  keys_eq : node.keys =
    first.keys ++ ((Fields.keys updates).filter fun key => key ∉ first.keys).eraseDups
  get_eq : ∀ key fallback,
    node.get key fallback = ((updates.reverse ++ first.properties).lookup key).or fallback
  contains_eq : ∀ key, node.contains key = (node.get key none).isSome
  mem_keys_iff : ∀ key, key ∈ node.keys ↔ node.contains key = true
  size_eq : node.size = node.keys.length
  toShape_eq : node.toShape = updates.foldl (fun s u => Unification.pin u.1 u.2 s) first.toShape

theorem Indexed.exists_tracks {first : Record} (h : first.Indexed)
    (updates : List (Text × Shape)) :
    ∃ node, first.withProperties updates = .ok node ∧ Tracks first updates node := by
  obtain ⟨node, run, same, indexed⟩ := h.withProperties updates
  refine ⟨node, run, ?_⟩
  constructor
  case index_iff => exact indexed
  case nodup_keys => exact indexed.nodup
  case keys_eq => rw [keys, same, Fields.keys_foldl_set, keys]
  case get_eq =>
    intro key fallback
    rw [indexed.get_eq, same, Fields.get?_foldl_set]
  case contains_eq => exact indexed.contains_eq
  case mem_keys_iff => exact fun key => indexed.contains_iff.symm
  case size_eq => exact (List.length_map Prod.fst).symm
  case toShape_eq => rw [toShape, same, toShape, Unification.foldl_pin]

/-- Building a record fails exactly if a key repeats, and names the first one that does. A record
that was built takes any sequence of updates and is then the ordered map that they describe. Since
the beginnings of a sequence are sequences, this holds after each single update. -/
theorem ofFields_keeps_insertion_order (fields : List (Text × Shape)) :
    (∀ fault, ofFields fields = .error fault ↔
      ∃ key, fault = .duplicateKey key ∧ FirstRepeat (Fields.keys fields) key) ∧
    ((∃ fault, ofFields fields = .error fault) ↔ ¬(Fields.keys fields).Nodup) ∧
    ∀ first, ofFields fields = .ok first → first.properties = fields ∧
      ∀ updates, ∃ node, first.withProperties updates = .ok node ∧ Tracks first updates node := by
  refine ⟨fun fault => ofFields_eq_error_iff, exists_ofFields_eq_error_iff, fun first built => ?_⟩
  obtain ⟨same, indexed⟩ := indexed_of_ofFields built
  exact ⟨same, indexed.exists_tracks⟩

/-- One key is set to another type and a new one is set twice. Of two keys that repeat, the one
that does so first is named. -/
theorem keeps_insertion_order_threeUpdates :
    (∃ first node, ofFields [("b", .string), ("a", .number)] = .ok first ∧
      first.withProperties [("c", .null), ("a", .literal "x" "string"), ("c", .boolean)] =
        .ok node ∧
      node.keys = ["b", "a", "c"] ∧ node.get "a" none = some (.literal "x" "string") ∧
      node.get "c" none = some .boolean ∧ node.get "d" (some .null) = some .null) ∧
    ofFields [("a", .null), ("b", .null), ("b", .string), ("a", .null)] =
      .error (.duplicateKey "b") := by
  constructor
  · have built : ofFields [("b", .string), ("a", .number)] =
        .ok ⟨[("b", .string), ("a", .number)], [("b", 0), ("a", 1)]⟩ := by decide +kernel
    obtain ⟨-, updated⟩ := (ofFields_keeps_insertion_order _).2.2 _ built
    obtain ⟨node, run, tracks⟩ :=
      updated [("c", .null), ("a", .literal "x" "string"), ("c", .boolean)]
    refine ⟨_, node, built, run, ?_⟩
    rw [tracks.keys_eq, tracks.get_eq, tracks.get_eq, tracks.get_eq]
    decide +kernel
  · exact ((ofFields_keeps_insertion_order _).1 _).2
      ⟨"b", rfl, ["a", "b"], ["a"], rfl, by decide, by decide⟩

end Record

theorem Shape.ofFields_eq_ok {fields : List (Text × Shape)}
    (distinct : (Fields.keys fields).Nodup) : ofFields fields = .ok (.object fields) := by
  obtain ⟨r, built, rfl, -⟩ := Record.exists_ofFields distinct
  rw [ofFields, built]
  rfl

end JsonShapes
