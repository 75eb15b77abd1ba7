import JsonShapes.Proofs.CanonicalText
import Mathlib.Data.List.Nodup

/-!
# Canonical forms up to order

Sorting by a key keeps the first item of every key first, so that looking up a key gives the same
before and after. It also forgets the order of items whose keys differ. Together these say what two
shapes of one canonical form have in common: they have the same constructor at the root, their
properties agree key by key, and their variants agree as sets. Conversely, records without
repeated keys whose properties agree have one form, and so have unions whose variants are pairwise
different and agree as sets.
-/

namespace JsonShapes

namespace CodePoint

instance : Std.IsLinearOrder CodePoint where
  le_refl a := Nat.le_refl a.val
  le_trans _ _ _ := Nat.le_trans (n := _)
  le_antisymm _ _ h k := eq_of_val_eq (Nat.le_antisymm h k)
  le_total a b := Nat.le_total a.val b.val

instance : Std.LawfulOrderLT CodePoint where
  lt_iff _ _ := Nat.lt_iff_le_and_not_ge

end CodePoint

namespace Text

theorem ofString_inj {s t : String} : ofString s = ofString t ↔ s = t := by
  constructor
  · intro h
    have inj : Function.Injective CodePoint.ofChar := fun _ _ => CodePoint.ofChar_inj.1
    exact String.toList_injective (List.map_injective_iff.2 inj h)
  · rintro rfl
    rfl

end Text

namespace Fields

variable {α : Type}

theorem get?_eq_some_of_mem {fields : List (Text × α)} (distinct : (keys fields).Nodup) {key : Text}
    {value : α} (h : (key, value) ∈ fields) : get? fields key = some value := by
  induction fields with
  | nil => cases h
  | cons f fields ih =>
      obtain ⟨k, v⟩ := f
      rw [keys, List.map_cons, List.nodup_cons] at distinct
      rw [get?_cons]
      rcases List.mem_cons.1 h with same | h
      · cases same
        rw [if_pos rfl]
      · have other : k ≠ key := by
          rintro rfl
          exact distinct.1 (List.mem_map.2 ⟨_, h, rfl⟩)
        rw [if_neg other, ih distinct.2 h]

theorem get?_eq_none_iff {fields : List (Text × α)} {key : Text} :
    get? fields key = none ↔ key ∉ keys fields := by
  induction fields with
  | nil => simp [keys]
  | cons f fields ih =>
      obtain ⟨k, v⟩ := f
      rw [get?_cons, keys, List.map_cons, List.mem_cons, not_or]
      split
      · next same => simp [same]
      · next other => rw [ih, keys, and_iff_right (fun h => other h.symm)]

theorem exists_get?_of_mem_keys {fields : List (Text × α)} {key : Text} (h : key ∈ keys fields) :
    ∃ value, get? fields key = some value := by
  rw [← Option.ne_none_iff_exists', ne_eq, get?_eq_none_iff]
  exact fun absent => absent h

end Fields

namespace Sorting

variable {α : Type} {key : α → Text}

theorem insertOn_pairwise (x : α) {ys : List α} (h : ys.Pairwise (key · ≤ key ·)) :
    (insertOn key x ys).Pairwise (key · ≤ key ·) := by
  induction ys with
  | nil => simp [insertOn]
  | cons y ys ih =>
      rw [List.pairwise_cons] at h
      rw [insertOn]
      split
      · next first =>
          refine List.pairwise_cons.2 ⟨fun z hz => ?_, List.pairwise_cons.2 h⟩
          rcases List.mem_cons.1 hz with rfl | hz
          · exact first
          · exact List.le_trans first (h.1 z hz)
      · next later =>
          refine List.pairwise_cons.2 ⟨fun z hz => ?_, ih h.2⟩
          rcases List.mem_cons.1 ((insertOn_perm key x ys).mem_iff.1 hz) with rfl | hz
          · exact (List.le_total _ _).resolve_left later
          · exact h.1 z hz

theorem sortOn_pairwise (xs : List α) : (sortOn key xs).Pairwise (key · ≤ key ·) := by
  induction xs with
  | nil => exact .nil
  | cons x xs ih => exact insertOn_pairwise x ih

/-- Items of different keys sort into one order, whatever order they come in. -/
theorem sortOn_eq_of_perm {xs ys : List α} (perm : xs.Perm ys)
    (apart : ∀ a ∈ xs, ∀ b ∈ xs, key a = key b → a = b) : sortOn key xs = sortOn key ys := by
  have sorted := (sortOn_perm key xs).trans (perm.trans (sortOn_perm key ys).symm)
  refine List.Perm.eq_of_pairwise ?_ (sortOn_pairwise xs) (sortOn_pairwise ys) sorted
  intro a b ha hb le ge
  have hx := (sortOn_perm key xs).mem_iff.1 ha
  have hy := perm.mem_iff.2 ((sortOn_perm key ys).mem_iff.1 hb)
  exact apart a hx b hy (List.le_antisymm le ge)

theorem get?_insertOn (x : Text × α) (ys : List (Text × α)) (k : Text) :
    Fields.get? (insertOn Prod.fst x ys) k = Fields.get? (x :: ys) k := by
  induction ys with
  | nil => rfl
  | cons y ys ih =>
      rw [insertOn]
      split
      · rfl
      · next later =>
          -- `x` moves past `y`, whose key is smaller and thus another one
          have other : x.1 ≠ y.1 := fun same => later (same ▸ List.le_refl _)
          obtain ⟨i, a⟩ := x
          obtain ⟨j, b⟩ := y
          simp only [Fields.get?_cons, ih]
          by_cases hi : i = k
          · subst hi
            rw [if_neg (Ne.symm other), if_pos rfl, if_pos rfl]
          · rw [if_neg hi, if_neg hi]

/-- Sorting by key does not change what is found under a key. -/
theorem get?_sortOn (fields : List (Text × α)) (k : Text) :
    Fields.get? (sortOn Prod.fst fields) k = Fields.get? fields k := by
  induction fields with
  | nil => rfl
  | cons f fields ih =>
      rw [sortOn, List.foldr_cons, get?_insertOn]
      obtain ⟨i, a⟩ := f
      rw [Fields.get?_cons, Fields.get?_cons, ← ih]
      rfl

end Sorting

namespace Shape

attribute [local simp] Text.ofString_inj

theorem formPair_injective : Function.Injective formPair := by
  rintro ⟨k, a⟩ ⟨l, b⟩ h
  simpa [formPair] using h

theorem canonical_eq_scalar_iff {s : Shape} {kind : Scalar} :
    s.canonical = (Shape.scalar kind).canonical ↔ s = .scalar kind := by
  cases s with
  | scalar other => cases other <;> cases kind <;> simp [canonical, Scalar.name]
  | _ => simp [canonical]

theorem canonical_eq_literal_iff {s : Shape} {value jsonType : Text} :
    s.canonical = (Shape.literal value jsonType).canonical ↔ s = .literal value jsonType := by
  cases s with
  | literal v t =>
      simp only [canonical, Json.obj.injEq, List.cons.injEq, Prod.mk.injEq, Json.str.injEq,
        true_and, and_true, literal.injEq]
      exact And.comm
  | _ => simp [canonical]

theorem canonical_eq_optional_iff {s inner : Shape} :
    s.canonical = (Shape.optional inner).canonical ↔
      ∃ other, s = .optional other ∧ other.canonical = inner.canonical := by
  cases s <;> simp [canonical]

theorem canonical_eq_array_iff {s element : Shape} :
    s.canonical = (Shape.array element).canonical ↔
      ∃ other, s = .array other ∧ other.canonical = element.canonical := by
  cases s <;> simp [canonical]

theorem canonical_eq_object_iff {s : Shape} {fields : List (Text × Shape)} :
    s.canonical = (Shape.object fields).canonical ↔
      ∃ others, s = .object others ∧ Sorting.sortOn Prod.fst (canonicalFields others) =
        Sorting.sortOn Prod.fst (canonicalFields fields) := by
  cases s <;> simp [canonical, List.map_inj_right fun _ _ h => formPair_injective h]

theorem canonical_eq_union_iff {s : Shape} {discriminator : Option Text} {variants : List Shape} :
    s.canonical = (Shape.union discriminator variants).canonical ↔
      ∃ others, s = .union discriminator others ∧
        (Sorting.sortOn Prod.fst (canonicalVariants others)).map Prod.snd =
          (Sorting.sortOn Prod.fst (canonicalVariants variants)).map Prod.snd := by
  cases s with
  | union other others => cases other <;> cases discriminator <;> simp [canonical]
  | _ => simp [canonical]

theorem get?_canonicalFields (fields : List (Text × Shape)) (key : Text) :
    Fields.get? (canonicalFields fields) key = (Fields.get? fields key).map canonical := by
  induction fields with
  | nil => rfl
  | cons f fields ih =>
      obtain ⟨k, s⟩ := f
      rw [canonicalFields, Fields.get?_cons, Fields.get?_cons, ih]
      split <;> rfl

/-- Records of one form agree at every key. -/
theorem get?_of_canonical_eq {fields others : List (Text × Shape)}
    (h : (Shape.object fields).canonical = (Shape.object others).canonical) (key : Text) :
    (Fields.get? fields key).map canonical = (Fields.get? others key).map canonical := by
  obtain ⟨_, same, sorted⟩ := canonical_eq_object_iff.1 h
  cases same
  rw [← get?_canonicalFields, ← Sorting.get?_sortOn, sorted, Sorting.get?_sortOn,
    get?_canonicalFields]

/-- What a record holds at a key, every record of its form holds there up to form. -/
theorem exists_get?_of_canonical_eq {fields others : List (Text × Shape)}
    (h : (Shape.object fields).canonical = (Shape.object others).canonical) {key : Text}
    {s : Shape} (found : Fields.get? fields key = some s) :
    ∃ t, Fields.get? others key = some t ∧ s.canonical = t.canonical := by
  have same := get?_of_canonical_eq h key
  rw [found, Option.map_some] at same
  obtain ⟨t, foundThere, form⟩ := Option.map_eq_some_iff.1 same.symm
  exact ⟨t, foundThere, form.symm⟩

/-- Records of one form have the same properties up to form. -/
theorem mem_fields_of_canonical_eq {fields others : List (Text × Shape)}
    (h : (Shape.object fields).canonical = (Shape.object others).canonical)
    {f : Text × Shape} (hf : f ∈ fields) :
    ∃ g ∈ others, f.1 = g.1 ∧ f.2.canonical = g.2.canonical := by
  obtain ⟨_, same, sorted⟩ := canonical_eq_object_iff.1 h
  cases same
  have member : (f.1, f.2.canonical) ∈ canonicalFields fields := by
    rw [canonicalFields_eq_map]
    exact List.mem_map.2 ⟨f, hf, rfl⟩
  rw [← (Sorting.sortOn_perm Prod.fst _).mem_iff, sorted,
    (Sorting.sortOn_perm Prod.fst _).mem_iff, canonicalFields_eq_map] at member
  obtain ⟨g, hg, same⟩ := List.mem_map.1 member
  exact ⟨g, hg, (congrArg Prod.fst same).symm, (congrArg Prod.snd same).symm⟩

/-- Unions of one form have the same variants up to form. -/
theorem mem_variants_of_canonical_eq {d e : Option Text} {variants others : List Shape}
    (h : (Shape.union d variants).canonical = (Shape.union e others).canonical)
    {s : Shape} (hs : s ∈ variants) : ∃ t ∈ others, s.canonical = t.canonical := by
  obtain ⟨_, same, sorted⟩ := canonical_eq_union_iff.1 h
  cases same
  have member : s.canonical ∈
      (Sorting.sortOn Prod.fst (canonicalVariants variants)).map Prod.snd := by
    refine List.mem_map.2 ⟨(s.canonicalText, s.canonical), ?_, rfl⟩
    rw [(Sorting.sortOn_perm Prod.fst _).mem_iff, canonicalVariants_eq_map]
    exact List.mem_map.2 ⟨s, hs, rfl⟩
  rw [sorted] at member
  obtain ⟨pair, hp, same⟩ := List.mem_map.1 member
  rw [(Sorting.sortOn_perm Prod.fst _).mem_iff, canonicalVariants_eq_map] at hp
  obtain ⟨t, ht, rfl⟩ := List.mem_map.1 hp
  exact ⟨t, ht, same.symm⟩

/-- Records without repeated keys that agree at every key have one form. -/
theorem canonical_object_eq {fields others : List (Text × Shape)}
    (distinct : (Fields.keys fields).Nodup) (distinct' : (Fields.keys others).Nodup)
    (agree : ∀ key, (Fields.get? fields key).map canonical =
      (Fields.get? others key).map canonical) :
    (Shape.object fields).canonical = (Shape.object others).canonical := by
  have keysOf : ∀ fields : List (Text × Shape),
      Fields.keys (canonicalFields fields) = Fields.keys fields := by
    intro fields
    rw [canonicalFields_eq_map, Fields.keys, List.map_map]
    rfl
  have distinctForms : (Fields.keys (canonicalFields fields)).Nodup := by rwa [keysOf]
  have distinctForms' : (Fields.keys (canonicalFields others)).Nodup := by rwa [keysOf]
  have sameMembers : ∀ field, field ∈ canonicalFields fields ↔ field ∈ canonicalFields others := by
    rintro ⟨key, form⟩
    have lookup : Fields.get? (canonicalFields fields) key =
        Fields.get? (canonicalFields others) key := by
      rw [get?_canonicalFields, get?_canonicalFields, agree]
    constructor
    · intro h
      exact Fields.mem_of_get?_eq_some (lookup ▸ Fields.get?_eq_some_of_mem distinctForms h)
    · intro h
      exact Fields.mem_of_get?_eq_some (lookup ▸ Fields.get?_eq_some_of_mem distinctForms' h)
  have perm : (canonicalFields fields).Perm (canonicalFields others) :=
    (List.perm_ext_iff_of_nodup (.of_map _ distinctForms) (.of_map _ distinctForms')).2 sameMembers
  refine canonical_eq_object_iff.2 ⟨fields, rfl, Sorting.sortOn_eq_of_perm perm ?_⟩
  rintro ⟨key, a⟩ ha ⟨_, b⟩ hb rfl
  have same := (Fields.get?_eq_some_of_mem distinctForms ha).symm.trans
    (Fields.get?_eq_some_of_mem distinctForms hb)
  rw [Option.some.inj same]

/-- Unions of pairwise different variants that agree as sets have one form. -/
theorem canonical_union_eq {discriminator : Option Text} {variants others : List Shape}
    (distinct : (variants.map canonicalText).Nodup) (distinct' : (others.map canonicalText).Nodup)
    (agree : ∀ s ∈ variants, ∃ t ∈ others, s.canonical = t.canonical)
    (agree' : ∀ t ∈ others, ∃ s ∈ variants, t.canonical = s.canonical) :
    (Shape.union discriminator variants).canonical =
      (Shape.union discriminator others).canonical := by
  have textsOf : ∀ variants : List Shape,
      (canonicalVariants variants).map Prod.fst = variants.map canonicalText := by
    intro variants
    rw [canonicalVariants_eq_map, List.map_map]
    rfl
  have distinctTexts : ((canonicalVariants variants).map Prod.fst).Nodup := by rwa [textsOf]
  have distinctTexts' : ((canonicalVariants others).map Prod.fst).Nodup := by rwa [textsOf]
  have transfer : ∀ variants others : List Shape,
      (∀ s ∈ variants, ∃ t ∈ others, s.canonical = t.canonical) →
      ∀ pair ∈ canonicalVariants variants, pair ∈ canonicalVariants others := by
    intro variants others agree pair h
    rw [canonicalVariants_eq_map] at h ⊢
    obtain ⟨s, hs, rfl⟩ := List.mem_map.1 h
    obtain ⟨t, ht, same⟩ := agree s hs
    refine List.mem_map.2 ⟨t, ht, ?_⟩
    rw [canonicalText, canonicalText, same]
  have perm : (canonicalVariants variants).Perm (canonicalVariants others) :=
    (List.perm_ext_iff_of_nodup (.of_map _ distinctTexts) (.of_map _ distinctTexts')).2
      fun pair => ⟨transfer _ _ agree pair, transfer _ _ agree' pair⟩
  refine canonical_eq_union_iff.2 ⟨variants, rfl, congrArg _ (Sorting.sortOn_eq_of_perm perm ?_)⟩
  rintro ⟨text, a⟩ ha ⟨_, b⟩ hb rfl
  have same := (Fields.get?_eq_some_of_mem distinctTexts ha).symm.trans
    (Fields.get?_eq_some_of_mem distinctTexts hb)
  rw [Option.some.inj same]

end Shape

end JsonShapes
