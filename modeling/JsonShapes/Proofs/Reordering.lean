import JsonShapes.Proofs.Grouping
import JsonShapes.Proofs.Merging
import Mathlib.Data.List.Perm.Basic
import Mathlib.Logic.Relation

/-!
# Canonical texts identify shapes up to order

A shape is reordered by permuting the properties of a record or the variants of a union, again and
again and at any depth. Shapes that repeat no key and hold no split pairs have one canonical text if
and only if the one can be reordered into the other.

A single reordering keeps the canonical form. For the properties of a record this needs different
keys. For the variants of a union it needs that variants of one text have one form, since they are
sorted by their texts. Conversely, shapes of one form have the same parts up to form, in some order;
bringing the parts of the one into the order of the other and then reordering each of them turns the
one into the other.
-/

namespace JsonShapes

namespace Shape

/-- No record in the tree repeats a key. -/
inductive DistinctKeys : Shape → Prop
  | scalar (kind : Scalar) : DistinctKeys (.scalar kind)
  | literal (value jsonType : Text) : DistinctKeys (.literal value jsonType)
  | optional {inner : Shape} (below : DistinctKeys inner) : DistinctKeys (.optional inner)
  | object {fields : List (Text × Shape)} (distinct : (Fields.keys fields).Nodup)
      (below : ∀ f ∈ fields, DistinctKeys f.2) : DistinctKeys (.object fields)
  | array {element : Shape} (below : DistinctKeys element) : DistinctKeys (.array element)
  | union {discriminator : Option Text} {variants : List Shape}
      (below : ∀ s ∈ variants, DistinctKeys s) : DistinctKeys (.union discriminator variants)
  | foreign (kind : Text) : DistinctKeys (.foreign kind)

/-- One permutation of properties or of variants, somewhere in the tree. -/
inductive Reorders : Shape → Shape → Prop
  | properties {fields others : List (Text × Shape)} (perm : fields.Perm others) :
      Reorders (.object fields) (.object others)
  | variants {discriminator : Option Text} {variants others : List Shape}
      (perm : variants.Perm others) :
      Reorders (.union discriminator variants) (.union discriminator others)
  | optional {a b : Shape} (inner : Reorders a b) : Reorders (.optional a) (.optional b)
  | array {a b : Shape} (element : Reorders a b) : Reorders (.array a) (.array b)
  | property {a b : Shape} (before after : List (Text × Shape)) (key : Text)
      (value : Reorders a b) :
      Reorders (.object (before ++ (key, a) :: after)) (.object (before ++ (key, b) :: after))
  | variant {a b : Shape} (discriminator : Option Text) (before after : List Shape)
      (variant : Reorders a b) :
      Reorders (.union discriminator (before ++ a :: after))
        (.union discriminator (before ++ b :: after))

/-- The first shape becomes the second one by permuting properties and variants at any depths. -/
def Reordered : Shape → Shape → Prop := Relation.ReflTransGen Reorders

variable {S : Set Text} {a b : Shape}

/-- What holds of every item still does after one of them is replaced. -/
theorem forall_mem_replace {α : Type} {p : α → Prop} {before after : List α} {x y : α}
    (h : ∀ z ∈ before ++ x :: after, p z) (new : p x → p y) : ∀ z ∈ before ++ y :: after, p z := by
  rw [List.forall_mem_append, List.forall_mem_cons] at h ⊢
  exact ⟨h.1, new h.2.1, h.2.2⟩

theorem Reorders.distinctKeys (h : Reorders a b) (distinct : a.DistinctKeys) : b.DistinctKeys := by
  induction h with
  | properties perm =>
      cases distinct with
      | object distinct below =>
          refine .object ?_ fun f hf => below f (perm.mem_iff.mpr hf)
          exact (perm.map Prod.fst).nodup_iff.mp distinct
  | variants perm =>
      cases distinct with
      | union below => exact .union fun s hs => below s (perm.mem_iff.mpr hs)
  | optional inner ih =>
      cases distinct with
      | optional below => exact .optional (ih below)
  | array element ih =>
      cases distinct with
      | array below => exact .array (ih below)
  | property before after key value ih =>
      cases distinct with
      | object distinct below =>
          refine .object ?_ (forall_mem_replace below ih)
          rw [Fields.keys, List.map_append, List.map_cons] at distinct ⊢
          exact distinct
  | variant discriminator before after variant ih =>
      cases distinct with
      | union below => exact .union (forall_mem_replace below ih)

theorem Reorders.within (h : Reorders a b) (within : a.Within S) : b.Within S := by
  induction h with
  | properties perm =>
      cases within with
      | object words within =>
          exact .object (fun f hf => words f (perm.mem_iff.mpr hf))
            fun f hf => within f (perm.mem_iff.mpr hf)
  | variants perm =>
      cases within with
      | union word within => exact .union word fun s hs => within s (perm.mem_iff.mpr hs)
  | optional inner ih =>
      cases within with
      | optional within => exact .optional (ih within)
  | array element ih =>
      cases within with
      | array within => exact .array (ih within)
  | property before after key value ih =>
      cases within with
      | object words within =>
          exact .object (forall_mem_replace words id) (forall_mem_replace within ih)
  | variant discriminator before after variant ih =>
      cases within with
      | union word within => exact .union word (forall_mem_replace within ih)

/-- Records with different keys have one form in every order of their properties. -/
theorem canonical_object_of_perm {fields others : List (Text × Shape)} (perm : fields.Perm others)
    (distinct : (Fields.keys fields).Nodup) :
    (Shape.object fields).canonical = (Shape.object others).canonical := by
  refine canonical_object_eq distinct ((perm.map Prod.fst).nodup_iff.mp distinct) fun key => ?_
  have same : Fields.get? fields key = Fields.get? others key := by
    ext s
    constructor
    · intro found
      exact Fields.get?_eq_some_of_mem ((perm.map Prod.fst).nodup_iff.mp distinct)
        (perm.mem_iff.mp (Fields.mem_of_get?_eq_some found))
    · intro found
      exact Fields.get?_eq_some_of_mem distinct
        (perm.mem_iff.mpr (Fields.mem_of_get?_eq_some found))
  rw [same]

/-- Unions have one form in every order of their variants, repeated ones included. -/
theorem canonical_union_of_perm (apart : S.InjOn (Quoted.write .ascii))
    {discriminator : Option Text} {variants others : List Shape} (perm : variants.Perm others)
    (within : ∀ s ∈ variants, s.Within S) :
    (Shape.union discriminator variants).canonical =
      (Shape.union discriminator others).canonical := by
  refine canonical_eq_union_iff.2 ⟨variants, rfl, congrArg _ ?_⟩
  rw [canonicalVariants_eq_map, canonicalVariants_eq_map]
  refine Sorting.sortOn_eq_of_perm (perm.map _) ?_
  intro p hp q hq sameText
  obtain ⟨s, hs, rfl⟩ := List.mem_map.mp hp
  obtain ⟨t, ht, rfl⟩ := List.mem_map.mp hq
  have sameForm := (canonicalText_eq_iff apart (within s hs) (within t ht)).1 sameText
  exact Prod.ext sameText sameForm

theorem Reorders.canonical_eq (apart : S.InjOn (Quoted.write .ascii)) (h : Reorders a b)
    (within : a.Within S) (distinct : a.DistinctKeys) : a.canonical = b.canonical := by
  induction h with
  | properties perm =>
      cases distinct with
      | object distinct below => exact canonical_object_of_perm perm distinct
  | variants perm =>
      cases within with
      | union word within => exact canonical_union_of_perm apart perm within
  | optional inner ih =>
      cases within with
      | optional within =>
          cases distinct with
          | optional below => rw [canonical, canonical, ih within below]
  | array element ih =>
      cases within with
      | array within =>
          cases distinct with
          | array below => rw [canonical, canonical, ih within below]
  | property before after key value ih =>
      have member : ∀ s : Shape, (key, s) ∈ before ++ (key, s) :: after := by simp
      cases within with
      | object words within =>
          cases distinct with
          | object distinct below =>
              have same := ih (within _ (member _)) (below _ (member _))
              refine canonical_eq_object_iff.2 ⟨_, rfl, congrArg _ ?_⟩
              simp only [canonicalFields_eq_map, List.map_append, List.map_cons, same]
  | variant discriminator before after variant ih =>
      have member : ∀ s : Shape, s ∈ before ++ s :: after := by simp
      cases within with
      | union word within =>
          cases distinct with
          | union below =>
              have same := ih (within _ (member _)) (below _ (member _))
              refine canonical_eq_union_iff.2 ⟨_, rfl, congrArg (List.map Prod.snd) ?_⟩
              simp only [canonicalVariants_eq_map, List.map_append, List.map_cons, canonicalText,
                same]

/-- However often a shape is reordered, its canonical form stays the same. -/
theorem Reordered.canonical_eq (apart : S.InjOn (Quoted.write .ascii)) (h : Reordered a b)
    (within : a.Within S) (distinct : a.DistinctKeys) : a.canonical = b.canonical := by
  have run : b.Within S ∧ b.DistinctKeys ∧ a.canonical = b.canonical := by
    induction h with
    | refl => exact ⟨within, distinct, rfl⟩
    | tail _ step ih =>
        obtain ⟨within, distinct, same⟩ := ih
        exact ⟨step.within within, step.distinctKeys distinct,
          same.trans (step.canonical_eq apart within distinct)⟩
  exact run.2.2

namespace Reordered

theorem trans {c : Shape} (h : Reordered a b) (k : Reordered b c) : Reordered a c :=
  Relation.ReflTransGen.trans h k

/-- What can be reordered can be reordered inside of another tree. -/
theorem inside (context : Shape → Shape)
    (step : ∀ x y, Reorders x y → Reorders (context x) (context y)) (h : Reordered a b) :
    Reordered (context a) (context b) :=
  Relation.ReflTransGen.lift context step a b h

/-- Properties are reordered one after the other; those before the current one are done. -/
theorem object {fields others : List (Text × Shape)} (before : List (Text × Shape))
    (h : List.Forall₂ (fun f g => f.1 = g.1 ∧ Reordered f.2 g.2) fields others) :
    Reordered (.object (before ++ fields)) (.object (before ++ others)) := by
  induction h generalizing before with
  | nil => exact .refl
  | @cons f g fields others first rest ih =>
      obtain ⟨key, s⟩ := f
      obtain ⟨_, t⟩ := g
      obtain ⟨rfl, value⟩ := first
      have here : Reordered (.object (before ++ (key, s) :: fields))
          (.object (before ++ (key, t) :: fields)) :=
        value.inside (fun x => .object (before ++ (key, x) :: fields))
          fun _ _ => .property before fields key
      have later := ih (before ++ [(key, t)])
      rw [List.append_assoc, List.append_assoc] at later
      exact here.trans later

/-- Variants are reordered one after the other; those before the current one are done. -/
theorem union (discriminator : Option Text) {variants others : List Shape} (before : List Shape)
    (h : List.Forall₂ Reordered variants others) :
    Reordered (.union discriminator (before ++ variants))
      (.union discriminator (before ++ others)) := by
  induction h generalizing before with
  | nil => exact .refl
  | @cons s t variants others variant rest ih =>
      have here : Reordered (.union discriminator (before ++ s :: variants))
          (.union discriminator (before ++ t :: variants)) :=
        variant.inside (fun x => .union discriminator (before ++ x :: variants))
          fun _ _ => .variant discriminator before variants
      have later := ih (before ++ [t])
      rw [List.append_assoc, List.append_assoc] at later
      exact here.trans later

end Reordered

/-- If one list has the images of another one in some order, these are, in order, the images of a
permutation of the other one. -/
theorem exists_perm_forall₂ {α β γ : Type} {f : α → γ} {g : β → γ} {as : List α} {bs : List β}
    (perm : (as.map f).Perm (bs.map g)) :
    ∃ cs, cs.Perm bs ∧ List.Forall₂ (fun a c => f a = g c) as cs := by
  have composed : Relation.Comp (· = List.map g ·) List.Perm (as.map f) bs := by
    rw [List.eq_map_comp_perm]
    exact perm
  obtain ⟨cs, images, sorted⟩ := composed
  refine ⟨cs, sorted, ?_⟩
  rwa [← List.forall₂_eq_eq_eq, List.forall₂_map_left_iff, List.forall₂_map_right_iff] at images

theorem perm_of_sortOn_eq {α : Type} {key : α → Text} {xs ys : List α}
    (h : Sorting.sortOn key xs = Sorting.sortOn key ys) : xs.Perm ys :=
  (Sorting.sortOn_perm key xs).symm.trans (h ▸ Sorting.sortOn_perm key ys)

/-- The parts of two shapes of one form are reordered themselves, and then brought into order. -/
theorem reordered_of_canonical_eq (within : a.Within S) (h : a.canonical = b.canonical) :
    Reordered a b := by
  induction within generalizing b with
  | scalar kind =>
      rw [canonical_eq_scalar_iff.1 h.symm]
      exact .refl
  | literal word typeWord =>
      rw [canonical_eq_literal_iff.1 h.symm]
      exact .refl
  | optional within ih =>
      obtain ⟨other, rfl, same⟩ := canonical_eq_optional_iff.1 h.symm
      exact (ih same.symm).inside Shape.optional fun _ _ => .optional
  | @object fields words within ih =>
      obtain ⟨others, rfl, sorted⟩ := canonical_eq_object_iff.1 h.symm
      have forms := perm_of_sortOn_eq sorted.symm
      rw [canonicalFields_eq_map, canonicalFields_eq_map] at forms
      obtain ⟨middle, perm, same⟩ := exists_perm_forall₂ forms
      have values : List.Forall₂ (fun f g => f.1 = g.1 ∧ Reordered f.2 g.2) fields middle := by
        refine ((List.forall₂_and_left _ _).mpr ⟨ih, same⟩).imp ?_
        rintro f g ⟨reorder, eq⟩
        exact ⟨(Prod.mk.inj eq).1, reorder (Prod.mk.inj eq).2⟩
      exact (Reordered.object [] values).trans (.single (.properties perm))
  | array within ih =>
      obtain ⟨other, rfl, same⟩ := canonical_eq_array_iff.1 h.symm
      exact (ih same.symm).inside Shape.array fun _ _ => .array
  | @union discriminator variants word within ih =>
      obtain ⟨others, rfl, sorted⟩ := canonical_eq_union_iff.1 h.symm
      have forms : (variants.map canonical).Perm (others.map canonical) := by
        have sorts : ∀ shapes : List Shape, ((Sorting.sortOn Prod.fst
            (canonicalVariants shapes)).map Prod.snd).Perm (shapes.map canonical) := by
          intro shapes
          have sort := (Sorting.sortOn_perm Prod.fst (canonicalVariants shapes)).map Prod.snd
          rwa [canonicalVariants_eq_map, List.map_map, ← canonicalVariants_eq_map] at sort
        exact (sorts variants).symm.trans (sorted ▸ sorts others)
      obtain ⟨middle, perm, same⟩ := exists_perm_forall₂ forms
      have reordered : List.Forall₂ Reordered variants middle := by
        refine ((List.forall₂_and_left _ _).mpr ⟨ih, same⟩).imp ?_
        rintro s t ⟨reorder, eq⟩
        exact reorder eq
      exact (Reordered.union discriminator [] reordered).trans (.single (.variants perm))

/-- Trees that repeat no key and hold no split pair have one canonical text exactly if the one can
be reordered into the other. Then they have one form, and with it one fingerprint. -/
theorem canonicalText_eq_iff_reordered (a b : Shape) (withinA : a.Within {t | t.Unsplit})
    (withinB : b.Within {t | t.Unsplit}) (distinct : a.DistinctKeys) :
    (∃ s t, a.canonicalText? = .ok s ∧ b.canonicalText? = .ok t ∧ (s = t ↔ Reordered a b)) ∧
      (Reordered a b → a.canonical = b.canonical ∧ a.fingerprint = b.fingerprint) := by
  have apart : {t : Text | t.Unsplit}.InjOn (Quoted.write .ascii) :=
    Quoted.injOn_write_of_unsplit fun t ht => ht
  have sameForm : Reordered a b → a.canonical = b.canonical :=
    fun h => h.canonical_eq apart withinA distinct
  refine ⟨⟨a.canonicalText, b.canonicalText,
    canonicalText?_eq_ok withinA.foreign?_eq_none,
    canonicalText?_eq_ok withinB.foreign?_eq_none, ?_⟩, ?_⟩
  · rw [canonicalText_eq_iff apart withinA withinB]
    exact ⟨reordered_of_canonical_eq withinA, sameForm⟩
  · intro h
    refine ⟨sameForm h, ?_⟩
    rw [fingerprint, fingerprint, canonicalText, canonicalText, sameForm h]

/-- Variants and properties in another order; one of the keys is a lone surrogate. -/
theorem reordered_loneSurrogate :
    let lone : Text := [CodePoint.ofNat 0xD83D]
    Reordered (.union none [.object [(lone, .number), ("a", .string)], .boolean])
      (.union none [.boolean, .object [("a", .string), (lone, .number)]]) := by
  intro lone
  have loneWord : lone ∈ {t : Text | t.Unsplit} := trivial
  have plainWord : Text.ofString "a" ∈ {t : Text | t.Unsplit} := Text.unsplit_of_isPlain (by decide)
  have record : (Shape.object [(lone, .number), ("a", .string)]).Within {t | t.Unsplit} :=
    .object (by simpa using ⟨loneWord, plainWord⟩) (by simpa using ⟨.scalar _, .scalar _⟩)
  have record' : (Shape.object [("a", .string), (lone, .number)]).Within {t | t.Unsplit} :=
    .object (by simpa using ⟨plainWord, loneWord⟩) (by simpa using ⟨.scalar _, .scalar _⟩)
  have distinct : (Shape.object [(lone, .number), ("a", .string)]).DistinctKeys :=
    .object (by decide) (by simpa using ⟨.scalar _, .scalar _⟩)
  obtain ⟨⟨s, t, textA, textB, same⟩, -⟩ := canonicalText_eq_iff_reordered
    (.union none [.object [(lone, .number), ("a", .string)], .boolean])
    (.union none [.boolean, .object [("a", .string), (lone, .number)]])
    (.union (by simp) (by simpa using ⟨record, .scalar _⟩))
    (.union (by simp) (by simpa using ⟨.scalar _, record'⟩))
    (.union (by simpa using ⟨distinct, .scalar _⟩))
  refine same.mp (Except.ok.inj (textA.symm.trans (Eq.trans ?_ textB)))
  decide +kernel

end Shape

end JsonShapes
