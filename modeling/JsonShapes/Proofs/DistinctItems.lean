import JsonShapes.Proofs.Merging
import Mathlib.Data.Finset.Card

/-!
# Distinct items, each where it is first met

The keys of several records, the distinct ones of several shapes and the literals that elements hold
at a key are all lists with repetitions dropped. Here they are described by one function of lists,
and the number of items that are left is the size of a finite set.
-/

namespace JsonShapes

variable {α β γ : Type}

theorem eraseDups_concat [BEq α] [LawfulBEq α] (xs : List α) (x : α) :
    (xs ++ [x]).eraseDups = if x ∈ xs then xs.eraseDups else xs.eraseDups ++ [x] := by
  rw [List.eraseDups_append]
  by_cases seen : x ∈ xs
  · simp [List.removeAll, seen]
  · simp [List.removeAll, seen, List.eraseDups_cons]

theorem nodup_eraseDups [BEq α] [LawfulBEq α] (xs : List α) : xs.eraseDups.Nodup := by
  induction xs using List.reverseRecOn with
  | nil => simp
  | append_singleton xs x ih =>
      rw [eraseDups_concat]
      split
      · exact ih
      · next new =>
          apply ih.append (List.nodup_singleton x)
          exact List.disjoint_singleton.mpr fun old => new (List.mem_eraseDups.mp old)

theorem eraseDups_eq_self [BEq α] [LawfulBEq α] {xs : List α} (distinct : xs.Nodup) :
    xs.eraseDups = xs := by
  induction xs using List.reverseRecOn with
  | nil => rfl
  | append_singleton xs x ih =>
      obtain ⟨before, -, apart⟩ := List.nodup_append.1 distinct
      have new : x ∉ xs := fun old => apart x old x (List.mem_singleton.2 rfl) rfl
      rw [eraseDups_concat, if_neg new, ih before]

/-- Dropping repetitions in parts of a list first makes no difference. -/
theorem eraseDups_append_eraseDups [BEq α] [LawfulBEq α] (xs ys : List α) :
    (xs.eraseDups ++ ys.eraseDups).eraseDups = (xs ++ ys).eraseDups := by
  induction ys using List.reverseRecOn with
  | nil => rw [List.eraseDups_nil, List.append_nil, List.append_nil,
      eraseDups_eq_self (nodup_eraseDups xs)]
  | append_singleton ys y ih =>
      have listed : y ∈ xs.eraseDups ++ ys.eraseDups ↔ y ∈ xs ++ ys := by
        simp [List.mem_eraseDups]
      rw [← List.append_assoc xs ys, eraseDups_concat (xs ++ ys), eraseDups_concat ys]
      by_cases old : y ∈ ys
      · rw [if_pos old, if_pos (List.mem_append_right xs old), ih]
      · rw [if_neg old, ← List.append_assoc, eraseDups_concat]
        simp only [listed, ih]

theorem length_eraseDups [BEq α] [LawfulBEq α] [DecidableEq α] (xs : List α) :
    xs.eraseDups.length = xs.toFinset.card := by
  rw [← List.toFinset_card_of_nodup (nodup_eraseDups xs)]
  congr 1
  ext x
  simp

/-- A function is injective on a list exactly if it keeps the number of different items. -/
theorem injective_iff_length_eq [BEq α] [LawfulBEq α] [BEq β] [LawfulBEq β] (xs : List α)
    (f : α → β) :
    (∀ x ∈ xs, ∀ y ∈ xs, f x = f y → x = y) ↔
      (xs.map f).eraseDups.length = xs.eraseDups.length := by
  classical
  have image : (xs.map f).toFinset = xs.toFinset.image f := by
    ext y
    simp
  rw [length_eraseDups, length_eraseDups, image, Finset.card_image_iff, Set.InjOn]
  simp only [List.coe_toFinset, Set.mem_ofPred_eq]

/-- Two functions tell the same items of a list apart exactly if the first determines the second and
both take the same number of values. -/
theorem agree_iff_length_eq [BEq β] [LawfulBEq β] [BEq γ] [LawfulBEq γ] {xs : List α} {f : α → β}
    {g : α → γ} :
    (∀ x ∈ xs, ∀ y ∈ xs, (f x = f y ↔ g x = g y)) ↔
      (xs.map f).eraseDups.length = (xs.map g).eraseDups.length ∧
        ∀ x ∈ xs, ∀ y ∈ xs, f x = f y → g x = g y := by
  -- both numbers are compared with the number of pairs that occur
  have first := injective_iff_length_eq (xs.map fun x => (f x, g x)) Prod.fst
  have second := injective_iff_length_eq (xs.map fun x => (f x, g x)) Prod.snd
  simp only [List.forall_mem_map, Prod.mk.injEq, List.map_map, Function.comp_def] at first second
  constructor
  · intro agree
    refine ⟨?_, fun x hx y hy => (agree x hx y hy).mp⟩
    rw [first.mp fun x hx y hy same => ⟨same, (agree x hx y hy).mp same⟩,
      second.mp fun x hx y hy same => ⟨(agree x hx y hy).mpr same, same⟩]
  · rintro ⟨sameNumber, determined⟩ x hx y hy
    have firsts := first.mp fun x hx y hy same => ⟨same, determined x hx y hy same⟩
    refine ⟨determined x hx y hy, fun same => ?_⟩
    exact (second.mpr (sameNumber.symm.trans firsts) x hx y hy same).1

/-- A list that is not empty has one item up to repetition exactly if all its items are equal. -/
theorem length_eraseDups_eq_one_iff [BEq α] [LawfulBEq α] {xs : List α} (nonempty : xs ≠ []) :
    xs.eraseDups.length = 1 ↔ ∀ x ∈ xs, ∀ y ∈ xs, x = y := by
  classical
  have some : 0 < xs.toFinset.card := by simpa using nonempty
  rw [length_eraseDups]
  trans xs.toFinset.card ≤ 1
  · omega
  · rw [Finset.card_le_one]
    simp only [List.mem_toFinset]

namespace Fields

/-- The keys that have not been seen are the distinct ones among those that are new. -/
theorem distinctAfter_eq (seen ks : List Text) :
    distinctAfter seen ks = (ks.filter fun k => k ∉ seen).eraseDups := by
  induction ks generalizing seen with
  | nil => rfl
  | cons k ks ih =>
      rw [distinctAfter]
      split
      · next old => rw [ih, List.filter_cons_of_neg (by simpa using old)]
      · next new =>
          rw [ih, List.filter_cons_of_pos (by simpa using new), List.eraseDups_cons,
            List.filter_filter]
          refine congrArg (List.cons k) (congrArg List.eraseDups (List.filter_congr fun l _ => ?_))
          simp [beq_eq_decide]

theorem union_eq (keyLists : List (List Text)) : union keyLists = keyLists.flatten.eraseDups := by
  rw [union, distinctAfter_eq, List.filter_eq_self.2 fun k _ => by simp]

/-- The keys of records can be collected in groups. -/
theorem union_pair (keyLists others : List (List Text)) :
    union [union keyLists, union others] = union (keyLists ++ others) := by
  simp only [union_eq, List.flatten_cons, List.flatten_nil, List.append_nil, List.flatten_append,
    eraseDups_append_eraseDups]

end Fields

namespace Shape

theorem length_unique (shapes : List Shape) :
    (unique shapes).length = (shapes.map canonicalText).eraseDups.length := by
  have sameTexts : ((unique shapes).map canonicalText).toFinset =
      (shapes.map canonicalText).toFinset := by
    ext text
    simp only [List.mem_toFinset, List.mem_map]
    constructor
    · rintro ⟨s, hs, rfl⟩
      exact ⟨s, mem_of_mem_unique hs, rfl⟩
    · rintro ⟨s, hs, rfl⟩
      exact exists_mem_unique hs
  rw [length_eraseDups, ← sameTexts, List.toFinset_card_of_nodup (nodup_unique shapes),
    List.length_map]

end Shape

end JsonShapes
