import JsonShapes.Proofs.DistinctItems
import JsonShapes.Proofs.Inferring

/-!
# Discriminators are bijections

The groups that a key makes of the elements of an array can be written down at once: there is one
for each literal, in first-seen order, and it lists the places of that literal in ascending order.
Shapes are told apart by whichever digest of their canonical texts the search is given.

The search for a discriminator looks at each group alone and compares two numbers: no group holds
two shapes, and there are as many groups as shapes. That this is a bijection between literals and
shapes follows by counting the pairs of literal and shape that occur. If no literal occurs with two
shapes, there are as many pairs as literals. If there are also as many literals as shapes, there
are as many pairs as shapes, and no shape occurs with two literals.
-/

namespace JsonShapes

namespace Discriminator

/-- The literal text that a value holds at a key, if it is an object that holds one there. -/
def literalAt (key : Text) (value : Json) : Option Text := (value.get? key).bind Json.literalText

/-- The rows with a literal at a key, each with its place. -/
def placed (key : Text) (rows : List (Json × Shape)) (literal : Option Text) :
    List ((Json × Shape) × Nat) :=
  rows.zipIdx.filter fun r => literalAt key r.1.1 = literal

/-- The group of a literal, by a digest of the canonical texts of its shapes. -/
def classOf (digest : Text → Text) (key : Text) (rows : List (Json × Shape))
    (literal : Option Text) : Partition where
  value := literal
  jsonType := ((placed key rows literal).head?.bind (·.1.1.get? key)).elim [] Json.literalType
  indices := (placed key rows literal).map Prod.snd
  shapes := ((placed key rows literal).map fun r => digest r.1.2.canonicalText).eraseDups

/-- The groups of all literals, in first-seen order. -/
def classes (digest : Text → Text) (key : Text) (rows : List (Json × Shape)) : List Partition :=
  (rows.map fun row => literalAt key row.1).eraseDups.map (classOf digest key rows)

variable {digest : Text → Text} {key : Text} {rows : List (Json × Shape)}

theorem placed_concat (row : Json × Shape) (literal : Option Text) :
    placed key (rows ++ [row]) literal =
      if literalAt key row.1 = literal then placed key rows literal ++ [(row, rows.length)]
      else placed key rows literal := by
  rw [placed, List.zipIdx_append, List.filter_append]
  split
  · next same => simp [placed, same]
  · next other => simp [placed, other]

theorem placed_ne_nil {literal : Option Text}
    (h : literal ∈ rows.map fun row => literalAt key row.1) : placed key rows literal ≠ [] := by
  obtain ⟨row, hr, same⟩ := List.mem_map.mp h
  obtain ⟨i, hi⟩ := List.mem_iff_getElem?.mp hr
  apply List.ne_nil_of_mem (a := (row, i))
  rw [placed, List.mem_filter, List.mk_mem_zipIdx_iff_getElem?]
  exact ⟨hi, decide_eq_true same⟩

theorem mem_placed {literal : Option Text} {row : Json × Shape} {i : Nat} :
    (row, i) ∈ placed key rows literal ↔ rows[i]? = some row ∧ literalAt key row.1 = literal := by
  rw [placed, List.mem_filter, List.mk_mem_zipIdx_iff_getElem?, decide_eq_true_eq]

theorem classOf_concat_of_ne {row : Json × Shape} {literal : Option Text}
    (other : literalAt key row.1 ≠ literal) :
    classOf digest key (rows ++ [row]) literal = classOf digest key rows literal := by
  simp only [classOf, placed_concat, if_neg other]

/-- A row joins the group of its literal. -/
theorem classOf_concat_of_mem {row : Json × Shape}
    (seen : literalAt key row.1 ∈ rows.map fun row => literalAt key row.1) :
    classOf digest key (rows ++ [row]) (literalAt key row.1) =
      (classOf digest key rows (literalAt key row.1)).add rows.length
        (digest row.2.canonicalText) := by
  obtain ⟨first, rest, eq⟩ := List.exists_cons_of_ne_nil (placed_ne_nil seen)
  rw [classOf, placed_concat, if_pos rfl, Partition.add, Partition.mk.injEq]
  refine ⟨rfl, ?_, List.map_append, ?_⟩
  · simp only [classOf, eq, List.cons_append, List.head?_cons]
  · rw [List.map_append, List.map_singleton]
    dsimp only
    rw [eraseDups_concat]
    simp only [classOf, List.mem_eraseDups]

/-- A row with a new literal makes a group of its own. -/
theorem classOf_concat_of_notMem {row : Json × Shape} {value : Json}
    (found : row.1.get? key = some value)
    (new : literalAt key row.1 ∉ rows.map fun row => literalAt key row.1) :
    classOf digest key (rows ++ [row]) (literalAt key row.1) =
      ⟨literalAt key row.1, value.literalType, [rows.length], [digest row.2.canonicalText]⟩ := by
  have empty : placed key rows (literalAt key row.1) = [] := by
    apply List.eq_nil_iff_forall_not_mem.mpr
    rintro ⟨other, i⟩ member
    obtain ⟨present, same⟩ := mem_placed.mp member
    exact new (List.mem_map.mpr ⟨other, List.mem_of_getElem? present, same⟩)
  simp [classOf, placed_concat, empty, found, List.eraseDups_cons]

theorem insert_map {literals : List (Option Text)} (distinct : literals.Nodup)
    {group : Option Text → Partition} (valued : ∀ literal, (group literal).value = literal)
    (value : Option Text) (jsonType : Text) (index : Nat) (shape : Text) :
    insert value jsonType index shape (literals.map group) =
      if value ∈ literals then
        literals.map fun literal =>
          if value = literal then (group literal).add index shape else group literal
      else literals.map group ++ [⟨value, jsonType, [index], [shape]⟩] := by
  induction literals with
  | nil => rfl
  | cons literal literals ih =>
      obtain ⟨fresh, distinct⟩ := List.nodup_cons.mp distinct
      rw [List.map_cons, insert]
      by_cases same : literal = value
      · subst same
        have others : ∀ other ∈ literals, ¬literal = other :=
          fun other member eq => fresh (eq ▸ member)
        rw [if_pos (valued literal), if_pos List.mem_cons_self, List.map_cons, if_pos rfl]
        refine congrArg (List.cons _) (List.map_congr_left fun other member => ?_)
        rw [if_neg (others other member)]
      · have differ : ¬value = literal := fun eq => same eq.symm
        rw [if_neg (by rwa [valued]), ih distinct]
        by_cases listed : value ∈ literals
        · rw [if_pos listed, if_pos (List.mem_cons_of_mem _ listed), List.map_cons, if_neg differ]
        · rw [if_neg listed, if_neg (by simp [differ, listed]), List.cons_append]

/-- Adding a row to the groups of the rows before it gives the groups of all of them. -/
theorem insert_classes {row : Json × Shape} {value : Json}
    (found : row.1.get? key = some value) :
    insert value.literalText value.literalType rows.length (digest row.2.canonicalText)
      (classes digest key rows) = classes digest key (rows ++ [row]) := by
  have literal : literalAt key row.1 = value.literalText := by
    rw [literalAt, found, Option.bind_some]
  have listed : ∀ other ∈ (rows.map fun row => literalAt key row.1).eraseDups,
      other ∈ rows.map fun row => literalAt key row.1 := fun other => List.mem_eraseDups.mp
  rw [classes, insert_map (nodup_eraseDups _) (fun _ => rfl), ← literal, classes, List.map_append,
    List.map_singleton, eraseDups_concat]
  by_cases seen : literalAt key row.1 ∈ rows.map fun row => literalAt key row.1
  · rw [if_pos seen, if_pos (List.mem_eraseDups.mpr seen)]
    refine List.map_congr_left fun other member => ?_
    by_cases same : literalAt key row.1 = other
    · subst same
      rw [if_pos rfl, classOf_concat_of_mem seen]
    · rw [if_neg same, classOf_concat_of_ne same]
  · rw [if_neg seen, if_neg fun member => seen (listed _ member), List.map_append,
      List.map_singleton, classOf_concat_of_notMem found seen]
    congr 1
    refine List.map_congr_left fun other member => ?_
    have differ : literalAt key row.1 ≠ other := by
      rintro rfl
      exact seen (listed _ member)
    rw [classOf_concat_of_ne differ]

/-- Grouping rows that all hold the key gives its groups. -/
theorem partitionFrom_eq_ok (done : List (Json × Shape))
    (keyed : ∀ row ∈ rows, ∃ value, row.1.get? key = some value)
    (known : ∀ row ∈ rows, row.2.foreign? = none) :
    partitionFrom digest key done.length (classes digest key done) rows =
      .ok (classes digest key (done ++ rows)) := by
  induction rows generalizing done with
  | nil => rw [partitionFrom, List.append_nil]
  | cons row rows ih =>
      obtain ⟨element, shape⟩ := row
      obtain ⟨value, found⟩ := keyed _ List.mem_cons_self
      have rest := ih (done ++ [(element, shape)])
        (fun row hr => keyed row (List.mem_cons_of_mem _ hr))
        fun row hr => known row (List.mem_cons_of_mem _ hr)
      rw [List.length_append, List.append_assoc, ← insert_classes found] at rest
      simp only [partitionFrom, Json.keyed_eq_ok found,
        Shape.canonicalText?_eq_ok (known _ List.mem_cons_self)]
      exact rest

theorem partition_eq_ok (keyed : ∀ row ∈ rows, ∃ value, row.1.get? key = some value)
    (known : ∀ row ∈ rows, row.2.foreign? = none) :
    partition digest (rows.map Prod.fst) key (rows.map Prod.snd) =
      .ok (classes digest key rows) := by
  rw [partition, ← List.zip_of_prod rfl rfl]
  exact partitionFrom_eq_ok [] keyed known

/-- Every row holds a literal at the key, and two rows hold one literal exactly if their shapes have
one fingerprint. -/
structure Discerns {κ : Type} (print : Shape → κ) (rows : List (Json × Shape)) (key : Text) :
    Prop where
  literal : ∀ row ∈ rows, (literalAt key row.1).isSome = true
  bijective : ∀ row ∈ rows, ∀ other ∈ rows,
    (literalAt key row.1 = literalAt key other.1 ↔ print row.2 = print other.2)

instance {κ : Type} [DecidableEq κ] (print : Shape → κ) (rows : List (Json × Shape))
    (key : Text) : Decidable (Discerns print rows key) :=
  decidable_of_iff
    ((∀ row ∈ rows, (literalAt key row.1).isSome = true) ∧ ∀ row ∈ rows, ∀ other ∈ rows,
      (literalAt key row.1 = literalAt key other.1 ↔ print row.2 = print other.2))
    ⟨fun h => ⟨h.1, h.2⟩, fun h => ⟨h.literal, h.bijective⟩⟩

theorem mem_map_placed {literal : Option Text} {text : Text} :
    text ∈ (placed key rows literal).map (fun r => digest r.1.2.canonicalText) ↔
      ∃ row ∈ rows, literalAt key row.1 = literal ∧ digest row.2.canonicalText = text := by
  rw [List.mem_map]
  constructor
  · rintro ⟨⟨row, i⟩, member, rfl⟩
    obtain ⟨present, same⟩ := mem_placed.mp member
    exact ⟨row, List.mem_of_getElem? present, same, rfl⟩
  · rintro ⟨row, hr, same, rfl⟩
    obtain ⟨i, present⟩ := List.mem_iff_getElem?.mp hr
    exact ⟨(row, i), mem_placed.mpr ⟨present, same⟩, rfl⟩

/-- No group holds two shapes if the literal of a row determines the digest of its shape. -/
theorem all_single_iff :
    ((classes digest key rows).all fun p => p.shapes.length == 1) = true ↔
      ∀ row ∈ rows, ∀ other ∈ rows, literalAt key row.1 = literalAt key other.1 →
        digest row.2.canonicalText = digest other.2.canonicalText := by
  have single : ∀ literal ∈ rows.map fun row => literalAt key row.1,
      ((classOf digest key rows literal).shapes.length = 1 ↔
        ∀ row ∈ rows, literalAt key row.1 = literal →
          ∀ other ∈ rows, literalAt key other.1 = literal →
            digest row.2.canonicalText = digest other.2.canonicalText) := by
    intro literal listed
    have nonempty : (placed key rows literal).map (fun r => digest r.1.2.canonicalText) ≠ [] := by
      simpa using placed_ne_nil listed
    rw [classOf, length_eraseDups_eq_one_iff nonempty]
    simp only [mem_map_placed, forall_exists_index, and_imp]
    constructor
    · intro h row hr same other ho sameOther
      exact h _ row hr same rfl _ other ho sameOther rfl
    · rintro h _ row hr same rfl _ other ho sameOther rfl
      exact h row hr same other ho sameOther
  simp only [classes, List.all_map, List.all_eq_true, List.mem_eraseDups, Function.comp_apply,
    beq_iff_eq]
  constructor
  · intro h row hr other ho same
    have listed : literalAt key row.1 ∈ rows.map fun row => literalAt key row.1 :=
      List.mem_map.mpr ⟨row, hr, rfl⟩
    exact (single _ listed).mp (h _ listed) row hr rfl other ho same.symm
  · intro h literal listed
    refine (single literal listed).mpr fun row hr same other ho sameOther => ?_
    exact h row hr other ho (same.trans sameOther.symm)

/-- The groups qualify if literals and digests are in bijection. -/
theorem qualifies_classes_iff :
    qualifies (rows.map fun row => digest row.2.canonicalText).eraseDups.length
        (classes digest key rows) = true ↔
      ∀ row ∈ rows, ∀ other ∈ rows, (literalAt key row.1 = literalAt key other.1 ↔
        digest row.2.canonicalText = digest other.2.canonicalText) := by
  have sizes : (classes digest key rows).length =
      (rows.map fun row => literalAt key row.1).eraseDups.length := List.length_map _
  rw [qualifies, Bool.and_eq_true, all_single_iff, beq_iff_eq, sizes, agree_iff_length_eq]

/-- The keys of the first value, if it is an object. -/
def leadingKeys (values : List Json) : List Text :=
  Fields.keys ((values.head?.bind Json.members?).getD [])

theorem candidateKeys_eq (values : List Json) :
    candidateKeys values =
      (leadingKeys values).filter fun key => values.all (holdsLiteral key) := by
  cases values with
  | nil => rfl
  | cons first rest =>
      rw [candidateKeys]
      split
      · rfl
      · next mixed =>
          -- a value that is no object holds no literal at any key
          symm
          rw [List.filter_eq_nil_iff]
          intro key _ all
          apply mixed
          rw [List.all_eq_true] at all ⊢
          intro value member
          have holds := all value member
          cases value with
          | obj members => rfl
          | _ => cases holds

theorem firstQualifying_eq_ok (known : ∀ row ∈ rows, row.2.foreign? = none) {count : Nat}
    {keys : List Text} (keyed : ∀ key ∈ keys, ∀ row ∈ rows, ∃ value, row.1.get? key = some value) :
    firstQualifying digest (rows.map Prod.fst) (rows.map Prod.snd) count keys =
      .ok ((keys.find? fun key => qualifies count (classes digest key rows)).map
        fun key => ⟨key, classes digest key rows⟩) := by
  induction keys with
  | nil => rfl
  | cons key keys ih =>
      rw [firstQualifying, partition_eq_ok (keyed key List.mem_cons_self) known, List.find?_cons]
      dsimp only
      cases qualifies count (classes digest key rows) with
      | true => rfl
      | false => exact ih fun key hk => keyed key (List.mem_cons_of_mem _ hk)

theorem exists_get?_of_holdsLiteral {value : Json} (h : holdsLiteral key value = true) :
    ∃ held, value.get? key = some held := by
  obtain ⟨text, eq⟩ := Option.isSome_iff_exists.mp h
  obtain ⟨held, found, -⟩ := Option.bind_eq_some_iff.mp eq
  exact ⟨held, found⟩

/-- The search finds the first of the leading keys whose literals correspond to the digests of the
shapes. -/
theorem find_eq_ok (known : ∀ row ∈ rows, row.2.foreign? = none) :
    find digest (rows.map Prod.fst) (rows.map Prod.snd)
        (rows.map fun row => digest row.2.canonicalText).eraseDups.length =
      .ok (if 2 ≤ (rows.map fun row => digest row.2.canonicalText).eraseDups.length then
        ((leadingKeys (rows.map Prod.fst)).find? fun key =>
          decide (Discerns (fun s => digest s.canonicalText) rows key)).map
            fun key => ⟨key, classes digest key rows⟩
        else none) := by
  rw [find]
  split
  · next few => rw [if_neg (by omega)]
  · next several =>
      rw [if_pos (by omega), candidateKeys_eq, firstQualifying_eq_ok known, List.find?_filter]
      · congr 3
        ext key
        rw [Bool.eq_iff_iff, decide_eq_true_eq, decide_eq_true_eq, qualifies_classes_iff,
          List.all_map, List.all_eq_true]
        exact ⟨fun h => ⟨h.1, h.2⟩, fun h => ⟨h.literal, h.bijective⟩⟩
      · intro key listed row hr
        rw [List.mem_filter, List.all_map, List.all_eq_true] at listed
        exact exists_get?_of_holdsLiteral (listed.2 row hr)

/-- The search by the canonical texts themselves. -/
theorem find_id_eq_ok (known : ∀ row ∈ rows, row.2.foreign? = none) :
    find id (rows.map Prod.fst) (rows.map Prod.snd) (Shape.unique (rows.map Prod.snd)).length =
      .ok (if 2 ≤ (Shape.unique (rows.map Prod.snd)).length then
        ((leadingKeys (rows.map Prod.fst)).find? fun key =>
          decide (Discerns Shape.canonicalText rows key)).map fun key => ⟨key, classes id key rows⟩
        else none) := by
  rw [Shape.length_unique, List.map_map]
  exact find_eq_ok known

/-- The groups of a candidate are the classes of values with one literal, in first-seen order. -/
structure Candidate.Classifies (c : Candidate) (values : List Json) : Prop where
  literals : c.partitions.map Partition.value = (values.map (literalAt c.field)).eraseDups
  indices : ∀ p ∈ c.partitions, ∀ i, i ∈ p.indices ↔
    ∃ value, values[i]? = some value ∧ literalAt c.field value = p.value
  ascending : ∀ p ∈ c.partitions, p.indices.Pairwise (· < ·)
  disjoint : c.partitions.Pairwise fun p q => p.indices.Disjoint q.indices
  covering : (c.partitions.flatMap Partition.indices).Perm (List.range values.length)

theorem pairwise_indices (literal : Option Text) :
    (classOf digest key rows literal).indices.Pairwise (· < ·) := by
  have ascending : (rows.zipIdx.map Prod.snd).Pairwise (· < ·) := by
    rw [List.zipIdx_map_snd]
    exact List.pairwise_lt_range'
  exact ascending.sublist (List.filter_sublist.map Prod.snd)

theorem mem_indices {literal : Option Text} {i : Nat} :
    i ∈ (classOf digest key rows literal).indices ↔
      ∃ row, rows[i]? = some row ∧ literalAt key row.1 = literal := by
  simp only [classOf, List.mem_map, Prod.exists, exists_eq_right, mem_placed]

theorem disjoint_indices {literal other : Option Text} (differ : literal ≠ other) :
    (classOf digest key rows literal).indices.Disjoint (classOf digest key rows other).indices := by
  intro i here there
  obtain ⟨row, present, same⟩ := mem_indices.mp here
  obtain ⟨row', present', same'⟩ := mem_indices.mp there
  cases Option.some.inj (present.symm.trans present')
  exact differ (same.symm.trans same')

theorem pairwise_disjoint_indices :
    (classes digest key rows).Pairwise fun p q => p.indices.Disjoint q.indices :=
  List.Pairwise.map _ (fun _ _ => disjoint_indices) (nodup_eraseDups _)

/-- Every place is in one group and in no other. -/
theorem flatMap_indices_perm :
    ((classes digest key rows).flatMap Partition.indices).Perm (List.range rows.length) := by
  refine (List.perm_ext_iff_of_nodup ?_ List.nodup_range).mpr fun i => ?_
  · refine List.nodup_flatMap.mpr ⟨List.forall_mem_map.mpr fun literal _ => ?_, ?_⟩
    · exact (pairwise_indices literal).imp fun lt => Nat.ne_of_lt lt
    · exact pairwise_disjoint_indices
  · rw [List.mem_flatMap, List.mem_range]
    constructor
    · rintro ⟨p, hp, member⟩
      obtain ⟨literal, -, rfl⟩ := List.mem_map.mp hp
      obtain ⟨row, present, -⟩ := mem_indices.mp member
      exact (List.getElem?_eq_some_iff.mp present).1
    · intro bound
      have present : rows[i]? = some rows[i] := List.getElem?_eq_getElem bound
      refine ⟨classOf digest key rows (literalAt key rows[i].1), ?_,
        mem_indices.mpr ⟨_, present, rfl⟩⟩
      refine List.mem_map.mpr ⟨_, List.mem_eraseDups.mpr ?_, rfl⟩
      exact List.mem_map.mpr ⟨_, List.getElem_mem bound, rfl⟩

theorem classifies_classes :
    (Candidate.mk key (classes digest key rows)).Classifies (rows.map Prod.fst) where
  literals := by
    simp only [classes, List.map_map]
    exact List.map_id _
  indices := List.forall_mem_map.mpr fun literal _ i => by
    rw [mem_indices, List.getElem?_map]
    simp only [Option.map_eq_some_iff]
    constructor
    · rintro ⟨row, present, same⟩
      exact ⟨row.1, ⟨row, present, rfl⟩, same⟩
    · rintro ⟨_, ⟨row, present, rfl⟩, same⟩
      exact ⟨row, present, same⟩
  ascending := List.forall_mem_map.mpr fun literal _ => pairwise_indices literal
  disjoint := pairwise_disjoint_indices
  covering := by
    rw [List.length_map]
    exact flatMap_indices_perm

/-- What is found for values and their shapes, which are compared by a fingerprint: the first of the
leading keys that is in bijection with the shapes, if there are several shapes, and nothing if there
is no such key. -/
structure Decides {κ : Type} [BEq κ] (print : Shape → κ) (values : List Json)
    (shapes : List Shape) (found : Option Candidate) : Prop where
  some_iff : ∀ key, (∃ c, found = some c ∧ c.field = key) ↔
    2 ≤ (shapes.map print).eraseDups.length ∧ Discerns print (values.zip shapes) key ∧
      ∃ before after, leadingKeys values = before ++ key :: after ∧
        ∀ other ∈ before, ¬Discerns print (values.zip shapes) other
  none_iff : found = none ↔ ¬(2 ≤ (shapes.map print).eraseDups.length ∧
    ∃ key ∈ leadingKeys values, Discerns print (values.zip shapes) key)
  classifies : ∀ c, found = some c → c.Classifies values

/-- A fingerprint that tells apart the shapes that digests tell apart can replace them. -/
theorem discerns_iff {κ : Type} {print : Shape → κ}
    (faithful : ∀ row ∈ rows, ∀ other ∈ rows, (print row.2 = print other.2 ↔
      digest row.2.canonicalText = digest other.2.canonicalText)) :
    Discerns print rows key ↔ Discerns (fun s => digest s.canonicalText) rows key :=
  ⟨fun h => ⟨h.literal, fun r hr o ho => (h.bijective r hr o ho).trans (faithful r hr o ho)⟩,
    fun h => ⟨h.literal, fun r hr o ho => (h.bijective r hr o ho).trans (faithful r hr o ho).symm⟩⟩

theorem exists_find_decides {κ : Type} [BEq κ] [LawfulBEq κ] {print : Shape → κ}
    (known : ∀ row ∈ rows, row.2.foreign? = none)
    (faithful : ∀ row ∈ rows, ∀ other ∈ rows, (print row.2 = print other.2 ↔
      digest row.2.canonicalText = digest other.2.canonicalText)) :
    ∃ found, find digest (rows.map Prod.fst) (rows.map Prod.snd)
        ((rows.map Prod.snd).map print).eraseDups.length = .ok found ∧
      Decides print (rows.map Prod.fst) (rows.map Prod.snd) found := by
  have count : ((rows.map Prod.snd).map print).eraseDups.length =
      (rows.map fun row => digest row.2.canonicalText).eraseDups.length := by
    rw [List.map_map]
    exact (agree_iff_length_eq.mp faithful).1
  have zipped : (rows.map Prod.fst).zip (rows.map Prod.snd) = rows :=
    (List.zip_of_prod rfl rfl).symm
  refine ⟨_, (congrArg _ count).trans (find_eq_ok known), ?_⟩
  by_cases several : 2 ≤ (rows.map fun row => digest row.2.canonicalText).eraseDups.length
  · have field : ∀ (first : Option Text) (key : Text),
        (∃ c : Candidate, first.map (fun key => ⟨key, classes digest key rows⟩) = some c ∧
          c.field = key) ↔ first = some key := by
      intro first key
      cases first with
      | none => simp
      | some other => simp
    rw [if_pos several]
    constructor
    · intro key
      rw [field, List.find?_eq_some_iff_append, count, zipped]
      simp [discerns_iff faithful, several]
    · rw [Option.map_eq_none_iff, List.find?_eq_none, count, zipped]
      simp [discerns_iff faithful, several]
    · intro c found
      obtain ⟨key, -, rfl⟩ := Option.map_eq_some_iff.mp found
      exact classifies_classes
  · have few : ¬2 ≤ ((rows.map Prod.snd).map print).eraseDups.length := by rwa [count]
    rw [if_neg several]
    constructor
    · intro key
      constructor
      · rintro ⟨c, found, -⟩
        cases found
      · exact fun h => absurd h.1 few
    · exact ⟨fun _ h => few h.1, fun _ => rfl⟩
    · intro c found
      cases found

open Shape in
/-- The shapes of values whose objects repeat no key can be inferred, and the search for a
discriminator decides which key is in bijection with them, by whichever digest it compares their
canonical texts, and so by fingerprints. The search by the texts themselves decides it for
fingerprints too if these do not collide. -/
theorem find_decides_bijection (values : List Json)
    (distinct : ∀ v ∈ values, v.Within .univ .univ) :
    ∃ shapes, inferAll values = .ok shapes ∧
      (∀ digest : Text → Text, ∃ found,
        find digest values shapes (shapes.map fun s => digest s.canonicalText).eraseDups.length =
          .ok found ∧ Decides (fun s => digest s.canonicalText) values shapes found) ∧
      (∃ found,
        find textFingerprint values shapes (shapes.map fingerprint).eraseDups.length = .ok found ∧
          Decides fingerprint values shapes found) ∧
      ({t | ∃ s ∈ shapes, s.canonicalText = t}.InjOn textFingerprint →
        ∃ found, find id values shapes (shapes.map fingerprint).eraseDups.length = .ok found ∧
          Decides fingerprint values shapes found) := by
  obtain ⟨rows, rfl, eq, each⟩ := exists_inferAll fun v hv => exists_inferred (distinct v hv)
  have values := List.forall_mem_map.mp distinct
  have known : ∀ row ∈ rows, row.2.foreign? = none := fun row hr =>
    ((each row hr).2.within (values row hr)).foreign?_eq_none
  refine ⟨_, eq, fun digest => exists_find_decides known fun _ _ _ _ => Iff.rfl,
    exists_find_decides known fun _ _ _ _ => Iff.rfl, fun free => ?_⟩
  apply exists_find_decides known
  intro row hr other ho
  constructor
  · intro same
    exact free ⟨row.2, List.mem_map.mpr ⟨row, hr, rfl⟩, rfl⟩
      ⟨other.2, List.mem_map.mpr ⟨other, ho, rfl⟩, rfl⟩ same
  · exact congrArg textFingerprint

open Shape in
/-- The numbers at `n` are the same in two values of different shapes, so the search goes on to `t`.
The first and the last value have one shape, in which the order of the keys does not count. -/
theorem find_decides_bijection_secondKey :
    let values : List Json := [.obj [("n", .int 1), ("t", .str "a")],
      .obj [("n", .int 1), ("t", .str "b"), ("x", .null)], .obj [("t", .str "a"), ("n", .int 2)]]
    (∀ v ∈ values, v.Within .univ .univ) ∧ ∃ shapes found found', inferAll values = .ok shapes ∧
      (find textFingerprint values shapes (shapes.map fingerprint).eraseDups.length = .ok found ∧
        Decides fingerprint values shapes found ∧ found.map Candidate.field = some "t") ∧
      {t | ∃ s ∈ shapes, s.canonicalText = t}.InjOn textFingerprint ∧
      find id values shapes (shapes.map fingerprint).eraseDups.length = .ok found' ∧
      Decides fingerprint values shapes found' := by
  intro values
  have number : ∀ n, (Json.int n).Within .univ .univ := .int
  have text : ∀ s, (Json.str s).Within .univ .univ := fun _ => .str trivial
  have distinct : ∀ v ∈ values, v.Within .univ .univ := by
    refine List.forall_mem_cons.mpr ⟨?_, List.forall_mem_cons.mpr
      ⟨?_, List.forall_mem_singleton.mpr ?_⟩⟩
    · exact .obj (by decide) (fun _ _ => trivial) (by simpa using ⟨number _, text _⟩)
    · exact .obj (by decide) (fun _ _ => trivial) (by simpa using ⟨number _, text _, .null⟩)
    · exact .obj (by decide) (fun _ _ => trivial) (by simpa using ⟨text _, number _⟩)
  obtain ⟨shapes, inferred, -, ⟨found, eq, decides⟩, byText⟩ :=
    find_decides_bijection values distinct
  have known : inferAll values = .ok [.object [("n", .number), ("t", .string)],
      .object [("n", .number), ("t", .string), ("x", .null)],
      .object [("t", .string), ("n", .number)]] := by decide +kernel
  have listed := Except.ok.inj (inferred.symm.trans known)
  have count : (shapes.map fingerprint).eraseDups.length = 2 := by
    rw [listed]
    decide +kernel
  have field : (Except.ok found : Except Fault _).map (Option.map Candidate.field) =
      .ok (some "t") := by
    rw [← eq, count, listed]
    decide +kernel
  -- as many fingerprints as texts, so that no two texts collide
  have texts : (shapes.map canonicalText).eraseDups.length = 2 := by
    rw [listed]
    decide +kernel
  have free : {t | ∃ s ∈ shapes, s.canonicalText = t}.InjOn textFingerprint := by
    rintro _ ⟨s, hs, rfl⟩ _ ⟨t, ht, rfl⟩ same
    refine (injective_iff_length_eq _ textFingerprint).mpr ?_ _ (List.mem_map_of_mem hs) _
      (List.mem_map_of_mem ht) same
    rw [List.map_map]
    exact count.trans texts.symm
  obtain ⟨found', eq', decides'⟩ := byText free
  exact ⟨distinct, _, found, found', inferred, ⟨eq, decides, Except.ok.inj field⟩, free, eq',
    decides'⟩

end Discriminator

end JsonShapes
