import JsonShapes.Discriminator
import Mathlib.Data.List.Nodup

/-!
# Grouping the elements of an array

The elements of an array, each with its shape, are the rows of a table, and a discriminator groups
them by the literal that they hold at a key. What the groups are is an invariant of adding one row
after the other: every row is in a group, every row of a group holds the literal of the group and
has one of its shapes, the JSON type of a group is that of a row in it, and no two groups share a
literal.

The search for a discriminator never fails on trees without foreign leaves. If it finds one, every
row holds a literal there, there are at least two groups, and the rows of a group have one canonical
text.
-/

namespace JsonShapes

namespace Json

theorem keyed_eq_ok {key : Text} {j value : Json} (h : j.get? key = some value) :
    j.keyed key = .ok value := by
  cases j with
  | obj members =>
      have found : Fields.get? members key = some value := h
      rw [keyed, found]
  | _ => cases h

end Json

namespace Shape

theorem canonicalText?_eq_ok {s : Shape} (h : s.foreign? = none) :
    s.canonicalText? = .ok s.canonicalText := by
  rw [canonicalText?, check, h]

end Shape

namespace Discriminator

/-- The place holds the row, and the element of the row holds the value at the key. -/
def Holds (key : Text) (rows : List (Json × Shape)) (i : Nat) (row : Json × Shape)
    (value : Json) : Prop :=
  rows[i]? = some row ∧ row.1.get? key = some value

/-- The groups are the rows, each filed under its literal at a key. -/
structure Grouped (key : Text) (rows : List (Json × Shape)) (groups : List Partition) : Prop where
  covered : ∀ i row, rows[i]? = some row → ∃ p ∈ groups, i ∈ p.indices
  filed : ∀ p ∈ groups, ∀ i ∈ p.indices, ∃ row value, Holds key rows i row value ∧
    value.literalText = p.value ∧ row.2.canonicalText ∈ p.shapes
  typed : ∀ p ∈ groups, ∃ i ∈ p.indices, ∃ row value, Holds key rows i row value ∧
    value.literalType = p.jsonType
  apart : (groups.map Partition.value).Nodup

theorem grouped_nil (key : Text) : Grouped key [] [] where
  covered i row present := by cases present
  filed p hp := nomatch hp
  typed p hp := nomatch hp
  apart := .nil

theorem Holds.append {key : Text} {rows : List (Json × Shape)} {i : Nat} {row : Json × Shape}
    {value : Json} (h : Holds key rows i row value) (more : List (Json × Shape)) :
    Holds key (rows ++ more) i row value := by
  obtain ⟨bound, _⟩ := List.getElem?_eq_some_iff.mp h.1
  refine ⟨?_, h.2⟩
  rw [List.getElem?_append_left bound]
  exact h.1

theorem holdsLiteral_of_mem_candidateKeys {values : List Json} {key : Text}
    (h : key ∈ candidateKeys values) {value : Json} (member : value ∈ values) :
    holdsLiteral key value = true := by
  cases values with
  | nil => cases member
  | cons first rest =>
      rw [candidateKeys] at h
      split at h
      · exact List.all_eq_true.mp (List.mem_filter.mp h).2 value member
      · cases h

/-- The group with one more row. -/
def Partition.add (p : Partition) (index : Nat) (shape : Text) : Partition :=
  { p with
    indices := p.indices ++ [index]
    shapes := if shape ∈ p.shapes then p.shapes else p.shapes ++ [shape] }

theorem mem_shapes_add {p : Partition} {index : Nat} {shape : Text} :
    shape ∈ (p.add index shape).shapes := by
  rw [Partition.add]
  dsimp only
  split
  · next present => exact present
  · exact List.mem_append_right _ (List.mem_singleton.mpr rfl)

theorem mem_shapes_add_of_mem {p : Partition} {index : Nat} {shape other : Text}
    (h : other ∈ p.shapes) : other ∈ (p.add index shape).shapes := by
  rw [Partition.add]
  dsimp only
  split
  · exact h
  · exact List.mem_append_left _ h

/-- A group after adding a row was there before, is the group of the row with the row added to it,
or is a new group of the row alone. -/
theorem mem_insert {value : Option Text} {jsonType : Text} {index : Nat} {shape : Text}
    {groups : List Partition} {p : Partition}
    (h : p ∈ insert value jsonType index shape groups) :
    p ∈ groups ∨ (∃ q ∈ groups, q.value = value ∧ p = q.add index shape) ∨
      p = ⟨value, jsonType, [index], [shape]⟩ := by
  induction groups with
  | nil => exact .inr (.inr (List.mem_singleton.mp h))
  | cons q groups ih =>
      rw [insert] at h
      split at h
      · next same =>
          rcases List.mem_cons.mp h with added | old
          · exact .inr (.inl ⟨q, List.mem_cons_self, same, added⟩)
          · exact .inl (List.mem_cons_of_mem _ old)
      · rcases List.mem_cons.mp h with first | later
        · exact .inl (first ▸ List.mem_cons_self)
        · rcases ih later with old | ⟨r, hr, same, added⟩ | new
          · exact .inl (List.mem_cons_of_mem _ old)
          · exact .inr (.inl ⟨r, List.mem_cons_of_mem _ hr, same, added⟩)
          · exact .inr (.inr new)

/-- No row is taken out of its group, and the new one is in a group. -/
theorem exists_mem_insert (value : Option Text) (jsonType : Text) (index : Nat) (shape : Text)
    (groups : List Partition) :
    (∃ p ∈ insert value jsonType index shape groups, index ∈ p.indices) ∧
      ∀ q ∈ groups, ∃ p ∈ insert value jsonType index shape groups,
        ∀ i ∈ q.indices, i ∈ p.indices := by
  induction groups with
  | nil => exact ⟨⟨_, List.mem_singleton.mpr rfl, List.mem_singleton.mpr rfl⟩, by simp⟩
  | cons q groups ih =>
      obtain ⟨⟨p, hp, member⟩, kept⟩ := ih
      rw [insert]
      split
      · refine ⟨⟨_, List.mem_cons_self, by simp⟩, fun r hr => ?_⟩
        rcases List.mem_cons.mp hr with rfl | hr
        · exact ⟨_, List.mem_cons_self, fun i hi => by simp [hi]⟩
        · exact ⟨r, List.mem_cons_of_mem _ hr, fun i hi => hi⟩
      · refine ⟨⟨p, List.mem_cons_of_mem _ hp, member⟩, fun r hr => ?_⟩
        rcases List.mem_cons.mp hr with rfl | hr
        · exact ⟨r, List.mem_cons_self, fun i hi => hi⟩
        · obtain ⟨s, hs, included⟩ := kept r hr
          exact ⟨s, List.mem_cons_of_mem _ hs, included⟩

/-- The literals of the groups, in first-seen order. -/
theorem map_value_insert (value : Option Text) (jsonType : Text) (index : Nat) (shape : Text)
    (groups : List Partition) :
    (insert value jsonType index shape groups).map Partition.value =
      if value ∈ groups.map Partition.value then groups.map Partition.value
      else groups.map Partition.value ++ [value] := by
  induction groups with
  | nil => simp [insert]
  | cons p groups ih =>
      rw [insert]
      by_cases same : p.value = value
      · simp [same]
      · have other : ¬value = p.value := fun h => same h.symm
        rw [if_neg same, List.map_cons, ih]
        by_cases listed : value ∈ groups.map Partition.value <;> simp [listed, other]

theorem nodup_map_value_insert {groups : List Partition}
    (h : (groups.map Partition.value).Nodup) (value : Option Text) (jsonType : Text) (index : Nat)
    (shape : Text) : ((insert value jsonType index shape groups).map Partition.value).Nodup := by
  rw [map_value_insert]
  split
  · exact h
  · next new =>
      exact h.append (List.nodup_singleton value) (List.disjoint_singleton.mpr new)

/-- Adding a row keeps the rows grouped. -/
theorem Grouped.insert {key : Text} {rows : List (Json × Shape)} {groups : List Partition}
    (h : Grouped key rows groups) {row : Json × Shape} {value : Json}
    (found : row.1.get? key = some value) :
    Grouped key (rows ++ [row])
      (insert value.literalText value.literalType rows.length row.2.canonicalText groups) := by
  have here : Holds key (rows ++ [row]) rows.length row value := by
    refine ⟨?_, found⟩
    rw [List.getElem?_append_right (Nat.le_refl _), Nat.sub_self]
    rfl
  obtain ⟨placed, kept⟩ := exists_mem_insert value.literalText value.literalType rows.length
    row.2.canonicalText groups
  refine ⟨?_, ?_, ?_, nodup_map_value_insert h.apart _ _ _ _⟩
  · intro i other present
    rcases Nat.lt_trichotomy i rows.length with before | last | beyond
    · rw [List.getElem?_append_left before] at present
      obtain ⟨q, hq, member⟩ := h.covered i other present
      obtain ⟨p, hp, included⟩ := kept q hq
      exact ⟨p, hp, included i member⟩
    · exact last ▸ placed
    · have outside : (rows ++ [row]).length ≤ i := by
        rw [List.length_append]
        exact beyond
      rw [List.getElem?_eq_none outside] at present
      cases present
  · intro p hp i hi
    rcases mem_insert hp with old | ⟨q, hq, same, rfl⟩ | rfl
    · obtain ⟨other, held, holds, filed⟩ := h.filed p old i hi
      exact ⟨other, held, holds.append _, filed⟩
    · rw [Partition.add, List.mem_append, List.mem_singleton] at hi
      rcases hi with hi | rfl
      · obtain ⟨other, held, holds, text, shape⟩ := h.filed q hq i hi
        exact ⟨other, held, holds.append _, text, mem_shapes_add_of_mem shape⟩
      · exact ⟨row, value, here, same.symm, mem_shapes_add⟩
    · rw [List.mem_singleton.mp hi]
      exact ⟨row, value, here, rfl, List.mem_singleton.mpr rfl⟩
  · intro p hp
    rcases mem_insert hp with old | ⟨q, hq, -, rfl⟩ | rfl
    · obtain ⟨i, hi, other, held, holds, typed⟩ := h.typed p old
      exact ⟨i, hi, other, held, holds.append _, typed⟩
    · obtain ⟨i, hi, other, held, holds, typed⟩ := h.typed q hq
      exact ⟨i, List.mem_append_left _ hi, other, held, holds.append _, typed⟩
    · exact ⟨rows.length, List.mem_singleton.mpr rfl, row, value, here, rfl⟩

/-- Grouping rows that all hold the key succeeds. -/
theorem exists_partitionFrom {key : Text} {rows : List (Json × Shape)}
    (keyed : ∀ row ∈ rows, ∃ value, row.1.get? key = some value)
    (known : ∀ row ∈ rows, row.2.foreign? = none) {done : List (Json × Shape)}
    {groups : List Partition} (h : Grouped key done groups) :
    ∃ all, partitionFrom id key done.length groups rows = .ok all ∧
      Grouped key (done ++ rows) all := by
  induction rows generalizing done groups with
  | nil => exact ⟨groups, rfl, by simpa using h⟩
  | cons row rows ih =>
      obtain ⟨element, shape⟩ := row
      obtain ⟨value, found⟩ := keyed _ List.mem_cons_self
      obtain ⟨all, eq, grouped⟩ := ih (fun r hr => keyed r (List.mem_cons_of_mem _ hr))
        (fun r hr => known r (List.mem_cons_of_mem _ hr)) (h.insert found)
      refine ⟨all, ?_, by simpa using grouped⟩
      rw [List.length_append] at eq
      simp only [partitionFrom, Json.keyed_eq_ok found,
        Shape.canonicalText?_eq_ok (known _ List.mem_cons_self)]
      exact eq

/-- The rows are grouped by a key that tells their shapes apart. -/
structure Candidate.Splits (c : Candidate) (rows : List (Json × Shape)) : Prop where
  grouped : Grouped c.field rows c.partitions
  literal : ∀ row ∈ rows, holdsLiteral c.field row.1 = true
  single : ∀ p ∈ c.partitions, p.shapes.length = 1
  several : 2 ≤ c.partitions.length

theorem exists_firstQualifying {rows : List (Json × Shape)}
    (known : ∀ row ∈ rows, row.2.foreign? = none) {count : Nat} (several : 2 ≤ count)
    {keys : List Text}
    (literal : ∀ key ∈ keys, ∀ row ∈ rows, holdsLiteral key row.1 = true) :
    ∃ found, firstQualifying id (rows.map Prod.fst) (rows.map Prod.snd) count keys = .ok found ∧
      ∀ c, found = some c → c.Splits rows := by
  induction keys with
  | nil => exact ⟨none, rfl, fun c h => nomatch h⟩
  | cons key keys ih =>
      have here := literal key List.mem_cons_self
      have keyed : ∀ row ∈ rows, ∃ value, row.1.get? key = some value := by
        intro row hr
        obtain ⟨text, eq⟩ := Option.isSome_iff_exists.mp (here row hr)
        obtain ⟨value, found, -⟩ := Option.bind_eq_some_iff.mp eq
        exact ⟨value, found⟩
      obtain ⟨groups, eq, grouped⟩ := exists_partitionFrom keyed known (grouped_nil key)
      have parted : partition id (rows.map Prod.fst) key (rows.map Prod.snd) = .ok groups := by
        rw [partition, ← List.zip_of_prod rfl rfl]
        exact eq
      rw [firstQualifying, parted]
      dsimp only
      split
      · next good =>
          rw [qualifies, Bool.and_eq_true, List.all_eq_true, beq_iff_eq] at good
          refine ⟨_, rfl, ?_⟩
          rintro c ⟨⟩
          exact ⟨grouped, here, fun p hp => by simpa using good.2 p hp, good.1 ▸ several⟩
      · exact ih fun k hk => literal k (List.mem_cons_of_mem _ hk)

/-- The search for a discriminator succeeds, and what it finds tells the shapes apart. -/
theorem exists_find {rows : List (Json × Shape)} (known : ∀ row ∈ rows, row.2.foreign? = none)
    (count : Nat) :
    ∃ found, find id (rows.map Prod.fst) (rows.map Prod.snd) count = .ok found ∧
      ∀ c, found = some c → c.Splits rows := by
  rw [find]
  split
  · exact ⟨none, rfl, fun c h => nomatch h⟩
  · next several =>
      exact exists_firstQualifying known (Nat.le_of_not_lt several) fun key hk row hr =>
        holdsLiteral_of_mem_candidateKeys hk (List.mem_map.mpr ⟨row, hr, rfl⟩)

/-- The shapes of the rows in a group. -/
def Partition.group (p : Partition) (rows : List (Json × Shape)) : List Shape :=
  p.indices.filterMap ((rows.map Prod.snd)[·]?)

/-- The row is in the group, with its literal at the discriminator. -/
structure Filed (rows : List (Json × Shape)) (field : Text) (p : Partition) (row : Json × Shape)
    (value : Json) : Prop where
  listed : row ∈ rows
  held : row.1.get? field = some value
  text : value.literalText = some (p.value.getD [])
  grouped : row.2 ∈ p.group rows
  shape : row.2.canonicalText ∈ p.shapes

namespace Candidate.Splits

variable {c : Candidate} {rows : List (Json × Shape)} (h : c.Splits rows) {p : Partition}
include h

/-- A group has a literal, since every row holds one. -/
theorem value_eq (hp : p ∈ c.partitions) : p.value = some (p.value.getD []) := by
  obtain ⟨i, hi, -⟩ := h.grouped.typed p hp
  obtain ⟨row, value, ⟨present, held⟩, text, -⟩ := h.grouped.filed p hp i hi
  have isLiteral := h.literal row (List.mem_of_getElem? present)
  rw [holdsLiteral, held, Option.bind_some, text] at isLiteral
  obtain ⟨word, eq⟩ := Option.isSome_iff_exists.mp isLiteral
  rw [eq, Option.getD_some]

theorem exists_filed_at (hp : p ∈ c.partitions) {i : Nat} (hi : i ∈ p.indices) :
    ∃ row value, rows[i]? = some row ∧ Filed rows c.field p row value := by
  obtain ⟨row, value, ⟨present, held⟩, text, shape⟩ := h.grouped.filed p hp i hi
  have listed : row ∈ rows := List.mem_of_getElem? present
  refine ⟨row, value, present, listed, held, ?_, ?_, shape⟩
  · rw [text]
    exact h.value_eq hp
  · refine List.mem_filterMap.mpr ⟨i, hi, ?_⟩
    rw [List.getElem?_map, present, Option.map_some]

/-- Every row is in a group. -/
theorem exists_filed {row : Json × Shape} (hr : row ∈ rows) :
    ∃ p ∈ c.partitions, ∃ value, Filed rows c.field p row value := by
  obtain ⟨i, present⟩ := List.mem_iff_getElem?.mp hr
  obtain ⟨p, hp, hi⟩ := h.grouped.covered i row present
  obtain ⟨other, value, there, filed⟩ := h.exists_filed_at hp hi
  rw [present] at there
  cases there
  exact ⟨p, hp, value, filed⟩

/-- The JSON type of a group is that of one of its rows. -/
theorem exists_typed (hp : p ∈ c.partitions) :
    ∃ row value, Filed rows c.field p row value ∧ value.literalType = p.jsonType := by
  obtain ⟨i, hi, row, value, ⟨present, held⟩, typed⟩ := h.grouped.typed p hp
  obtain ⟨other, value', there, filed⟩ := h.exists_filed_at hp hi
  rw [present] at there
  cases there
  have same : value' = value := Option.some.inj (filed.held.symm.trans held)
  exact ⟨row, value, same ▸ filed, typed⟩

theorem group_ne_nil (hp : p ∈ c.partitions) : p.group rows ≠ [] := by
  obtain ⟨row, value, filed, -⟩ := h.exists_typed hp
  exact List.ne_nil_of_mem filed.grouped

theorem filed_of_mem_group (hp : p ∈ c.partitions) {s : Shape} (hs : s ∈ p.group rows) :
    ∃ row value, row.2 = s ∧ Filed rows c.field p row value := by
  obtain ⟨i, hi, eq⟩ := List.mem_filterMap.mp hs
  obtain ⟨row, value, present, filed⟩ := h.exists_filed_at hp hi
  rw [List.getElem?_map, present] at eq
  exact ⟨row, value, Option.some.inj eq, filed⟩

/-- The rows of a group have one canonical text. -/
theorem canonicalText_eq (hp : p ∈ c.partitions) {row row' : Json × Shape} {value value' : Json}
    (first : Filed rows c.field p row value) (second : Filed rows c.field p row' value') :
    row.2.canonicalText = row'.2.canonicalText := by
  obtain ⟨text, single⟩ := List.length_eq_one_iff.mp (h.single p hp)
  have here := first.shape
  have there := second.shape
  rw [single, List.mem_singleton] at here there
  rw [here, there]

end Candidate.Splits

end Discriminator

end JsonShapes
