import JsonShapes.Proofs.Spelling
import JsonShapes.Shape.Canonical

/-!
# Canonical texts determine canonical forms

Shapes are compared by the ASCII texts of their canonical forms. A canonical form is built from
`null`, texts, arrays and objects only, and such a value can be read off its text as soon as its
texts can be read off their spellings. Over a set of texts that spellings tell apart, shapes are
therefore compared by their canonical forms.
-/

namespace JsonShapes

namespace CodePoint

@[simp] theorem ofChar_inj {x y : Char} : ofChar x = ofChar y ↔ x = y := by
  rw [eq_ofChar_iff, val_ofChar, Char.toNat_inj]

end CodePoint

namespace Json

/-- The value holds no numbers and no truth values, and all its texts are among the given ones. -/
inductive Verbal (W : Set Text) : Json → Prop
  | null : Verbal W .null
  | str {s : Text} (word : s ∈ W) : Verbal W (.str s)
  | arr {items : List Json} (verbal : ∀ item ∈ items, Verbal W item) : Verbal W (.arr items)
  | obj {members : List (Text × Json)} (words : ∀ m ∈ members, m.1 ∈ W)
      (verbal : ∀ m ∈ members, Verbal W m.2) : Verbal W (.obj members)

variable {W : Set Text} {depth : Nat}

/-- No value is written with a closing bracket in front. -/
theorem printBefore_ne_bracket {j : Json} (verbal : j.Verbal W) (rest after : Text) :
    printBefore .spaced depth rest j ≠ CodePoint.ofChar ']' :: after := by
  cases verbal with
  | null => simp [printBefore, Text.ofString]
  | str word => simp [printBefore, Text.ofString, Quoted.write]
  | @arr items _ => cases items <;> simp [printBefore, Text.ofString]
  | @obj members _ _ => cases members <;> simp [printBefore, Text.ofString]

@[simp] theorem newline_spaced (n : Nat) : Layout.spaced.newline n = [] := rfl

@[simp] theorem style_spaced : Layout.spaced.style = .ascii := rfl

/-- The value and what follows it can both be read off a text in which the value stands first. -/
def Legible (W : Set Text) (j : Json) : Prop :=
  ∀ (depth : Nat) (k : Json) (rest after : Text), k.Verbal W →
    printBefore .spaced depth rest j = printBefore .spaced depth after k → j = k ∧ rest = after

theorem printItems_inj {as bs : List Json} {rest after : Text} (legible : ∀ a ∈ as, a.Legible W)
    (verbal : ∀ b ∈ bs, b.Verbal W)
    (h : printItems .spaced depth ("]" ++ rest) as = printItems .spaced depth ("]" ++ after) bs) :
    as = bs ∧ rest = after := by
  induction as generalizing bs with
  | nil =>
      cases bs with
      | nil => simpa [printItems, Text.ofString] using h
      | cons b bs => simp [printItems, Text.ofString, Layout.spaced] at h
  | cons a as ih =>
      cases bs with
      | nil => simp [printItems, Text.ofString, Layout.spaced] at h
      | cons b bs =>
          simp only [printItems, newline_spaced, List.nil_append] at h
          obtain ⟨rfl, tail⟩ := legible a List.mem_cons_self depth b _ _
            (verbal b List.mem_cons_self) (List.append_cancel_left h)
          obtain ⟨rfl, same⟩ := ih (fun x hx => legible x (List.mem_cons_of_mem _ hx))
            (fun x hx => verbal x (List.mem_cons_of_mem _ hx)) tail
          exact ⟨rfl, same⟩

/-- A key and the member under it, up to what follows. -/
theorem printMember_inj (apart : W.InjOn (Quoted.write .ascii)) {a b : Text × Json}
    {rest after : Text} (wordA : a.1 ∈ W) (wordB : b.1 ∈ W) (legible : a.2.Legible W)
    (verbal : b.2.Verbal W)
    (h : Quoted.write .ascii a.1 ++ (Layout.spaced.colon ++ printBefore .spaced depth rest a.2) =
      Quoted.write .ascii b.1 ++ (Layout.spaced.colon ++ printBefore .spaced depth after b.2)) :
    a = b ∧ rest = after := by
  obtain ⟨spelling, tail⟩ := Quoted.write_append_inj h
  obtain ⟨value, same⟩ := legible depth b.2 _ _ verbal (List.append_cancel_left tail)
  exact ⟨Prod.ext (apart wordA wordB spelling) value, same⟩

theorem printMembers_inj (apart : W.InjOn (Quoted.write .ascii)) {as bs : List (Text × Json)}
    {rest after : Text} (words : ∀ a ∈ as, a.1 ∈ W) (legible : ∀ a ∈ as, a.2.Legible W)
    (words' : ∀ b ∈ bs, b.1 ∈ W) (verbal : ∀ b ∈ bs, b.2.Verbal W)
    (h : printMembers .spaced depth ("\x7d" ++ rest) as =
      printMembers .spaced depth ("\x7d" ++ after) bs) :
    as = bs ∧ rest = after := by
  induction as generalizing bs with
  | nil =>
      cases bs with
      | nil => simpa [printMembers, Text.ofString] using h
      | cons b bs => simp [printMembers, Text.ofString, Layout.spaced] at h
  | cons a as ih =>
      cases bs with
      | nil => simp [printMembers, Text.ofString, Layout.spaced] at h
      | cons b bs =>
          simp only [printMembers, newline_spaced, List.nil_append, style_spaced] at h
          obtain ⟨rfl, tail⟩ := printMember_inj apart (words a List.mem_cons_self)
            (words' b List.mem_cons_self) (legible a List.mem_cons_self)
            (verbal b List.mem_cons_self) (List.append_cancel_left h)
          obtain ⟨rfl, same⟩ := ih (fun x hx => words x (List.mem_cons_of_mem _ hx))
            (fun x hx => legible x (List.mem_cons_of_mem _ hx))
            (fun x hx => words' x (List.mem_cons_of_mem _ hx))
            (fun x hx => verbal x (List.mem_cons_of_mem _ hx)) tail
          exact ⟨rfl, same⟩

/-- Over texts that spellings tell apart, every verbal value is legible. The first code point says
which of the four kinds of value it is. -/
theorem Verbal.legible (apart : W.InjOn (Quoted.write .ascii)) {j : Json} (verbal : j.Verbal W) :
    j.Legible W := by
  induction verbal with
  | null =>
      intro depth k rest after hk h
      cases hk with
      | null => simpa [printBefore, Text.ofString] using h
      | str word => simp [printBefore, Text.ofString, Quoted.write] at h
      | @arr items _ => cases items <;> simp [printBefore, Text.ofString] at h
      | @obj members _ _ => cases members <;> simp [printBefore, Text.ofString] at h
  | @str s hs =>
      intro depth k rest after hk h
      cases hk with
      | null => simp [printBefore, Text.ofString, Quoted.write] at h
      | @str t ht =>
          simp only [printBefore, style_spaced] at h
          obtain ⟨spelling, same⟩ := Quoted.write_append_inj h
          exact ⟨congrArg Json.str (apart hs ht spelling), same⟩
      | @arr items _ => cases items <;> simp [printBefore, Text.ofString, Quoted.write] at h
      | @obj members _ _ =>
          cases members <;> simp [printBefore, Text.ofString, Quoted.write] at h
  | @arr as verbal ih =>
      intro depth k rest after hk h
      cases hk with
      | null => cases as <;> simp [printBefore, Text.ofString] at h
      | str word => cases as <;> simp [printBefore, Text.ofString, Quoted.write] at h
      | @obj members _ _ => cases as <;> cases members <;> simp [printBefore, Text.ofString] at h
      | @arr bs verbal' =>
          cases as with
          | nil =>
              cases bs with
              | nil => simpa [printBefore, Text.ofString] using h
              | cons b bs =>
                  have first := verbal' b List.mem_cons_self
                  exact absurd (List.cons.inj h).2.symm (printBefore_ne_bracket first _ _)
          | cons a as =>
              cases bs with
              | nil =>
                  have first := verbal a List.mem_cons_self
                  exact absurd (List.cons.inj h).2 (printBefore_ne_bracket first _ _)
              | cons b bs =>
                  obtain ⟨rfl, tail⟩ := ih a List.mem_cons_self (depth + 1) b _ _
                    (verbal' b List.mem_cons_self) (List.cons.inj h).2
                  obtain ⟨rfl, same⟩ := printItems_inj
                    (fun x hx => ih x (List.mem_cons_of_mem _ hx))
                    (fun x hx => verbal' x (List.mem_cons_of_mem _ hx)) tail
                  exact ⟨rfl, same⟩
  | @obj as words verbal ih =>
      intro depth k rest after hk h
      cases hk with
      | null => cases as <;> simp [printBefore, Text.ofString] at h
      | str word => cases as <;> simp [printBefore, Text.ofString, Quoted.write] at h
      | @arr bs _ => cases as <;> cases bs <;> simp [printBefore, Text.ofString] at h
      | @obj bs words' verbal' =>
          cases as with
          | nil =>
              cases bs with
              | nil => simpa [printBefore, Text.ofString] using h
              | cons b bs => simp [printBefore, Text.ofString, Quoted.write] at h
          | cons a as =>
              cases bs with
              | nil => simp [printBefore, Text.ofString, Quoted.write] at h
              | cons b bs =>
                  obtain ⟨rfl, tail⟩ := printMember_inj apart (words a List.mem_cons_self)
                    (words' b List.mem_cons_self) (ih a List.mem_cons_self)
                    (verbal' b List.mem_cons_self) (List.cons.inj h).2
                  obtain ⟨rfl, same⟩ := printMembers_inj apart
                    (fun x hx => words x (List.mem_cons_of_mem _ hx))
                    (fun x hx => ih x (List.mem_cons_of_mem _ hx))
                    (fun x hx => words' x (List.mem_cons_of_mem _ hx))
                    (fun x hx => verbal' x (List.mem_cons_of_mem _ hx)) tail
                  exact ⟨rfl, same⟩

end Json

namespace Shape

/-- A tree without foreign leaves, all of whose texts (keys, values and JSON types of literals,
discriminators) are among the given ones. -/
inductive Within (S : Set Text) : Shape → Prop
  | scalar (kind : Scalar) : Within S (.scalar kind)
  | literal {value jsonType : Text} (word : value ∈ S) (typeWord : jsonType ∈ S) :
      Within S (.literal value jsonType)
  | optional {inner : Shape} (within : Within S inner) : Within S (.optional inner)
  | object {fields : List (Text × Shape)} (words : ∀ f ∈ fields, f.1 ∈ S)
      (within : ∀ f ∈ fields, Within S f.2) : Within S (.object fields)
  | array {element : Shape} (within : Within S element) : Within S (.array element)
  | union {discriminator : Option Text} {variants : List Shape}
      (word : ∀ d, discriminator = some d → d ∈ S) (within : ∀ s ∈ variants, Within S s) :
      Within S (.union discriminator variants)

theorem canonicalFields_eq_map (fields : List (Text × Shape)) :
    canonicalFields fields = fields.map fun f => (f.1, f.2.canonical) := by
  induction fields with
  | nil => rfl
  | cons f fields ih => rw [canonicalFields, ih, List.map_cons]

theorem canonicalVariants_eq_map (variants : List Shape) :
    canonicalVariants variants = variants.map fun s => (s.canonicalText, s.canonical) := by
  induction variants with
  | nil => rfl
  | cons s variants ih =>
      rw [canonicalVariants, ih, List.map_cons]
      rfl

theorem isPlain_name (kind : Scalar) : kind.name.IsPlain := by
  cases kind <;> decide

variable {S : Set Text}

/-- A canonical form adds nothing but plain words to the texts of its tree. -/
theorem Within.verbal_canonical {s : Shape} (h : s.Within S) :
    s.canonical.Verbal (S ∪ {t | t.IsPlain}) := by
  have plain : ∀ t : Text, t.IsPlain → t ∈ S ∪ {t | t.IsPlain} := fun t ht => .inr ht
  induction h with
  | scalar kind =>
      refine .obj (by simpa using plain _ (by decide)) ?_
      simpa using Json.Verbal.str (plain _ (isPlain_name kind))
  | literal word typeWord =>
      refine .obj ?_ ?_
      · simpa using ⟨plain _ (by decide), plain _ (by decide), plain _ (by decide)⟩
      · simpa using ⟨Json.Verbal.str (.inl typeWord), Json.Verbal.str (plain _ (by decide)),
          Json.Verbal.str (.inl word)⟩
  | optional within ih =>
      refine .obj ?_ ?_
      · simpa using ⟨plain _ (by decide), plain _ (by decide)⟩
      · simpa using ⟨ih, Json.Verbal.str (plain _ (by decide))⟩
  | @object fields words within ih =>
      have pairs : ∀ pair ∈ (Sorting.sortOn Prod.fst (canonicalFields fields)).map formPair,
          pair.Verbal (S ∪ {t | t.IsPlain}) := by
        intro pair hp
        obtain ⟨field, hf, rfl⟩ := List.mem_map.1 hp
        rw [(Sorting.sortOn_perm _ _).mem_iff, canonicalFields_eq_map] at hf
        obtain ⟨f, member, rfl⟩ := List.mem_map.1 hf
        refine .arr ?_
        simpa [formPair] using ⟨Json.Verbal.str (.inl (words f member)), ih f member⟩
      refine .obj ?_ ?_
      · simpa using ⟨plain _ (by decide), plain _ (by decide)⟩
      · simpa using ⟨Json.Verbal.str (plain _ (by decide)), Json.Verbal.arr pairs⟩
  | array within ih =>
      refine .obj ?_ ?_
      · simpa using ⟨plain _ (by decide), plain _ (by decide)⟩
      · simpa using ⟨ih, Json.Verbal.str (plain _ (by decide))⟩
  | @union discriminator variants word within ih =>
      have name : ((discriminator.map Json.str).getD .null).Verbal (S ∪ {t | t.IsPlain}) := by
        cases discriminator with
        | none => exact .null
        | some d => exact .str (.inl (word d rfl))
      have forms : ∀ form ∈ (Sorting.sortOn Prod.fst (canonicalVariants variants)).map Prod.snd,
          form.Verbal (S ∪ {t | t.IsPlain}) := by
        intro form hf
        obtain ⟨variant, hv, rfl⟩ := List.mem_map.1 hf
        rw [(Sorting.sortOn_perm _ _).mem_iff, canonicalVariants_eq_map] at hv
        obtain ⟨s, hs, rfl⟩ := List.mem_map.1 hv
        exact ih s hs
      refine .obj ?_ ?_
      · simpa using ⟨plain _ (by decide), plain _ (by decide), plain _ (by decide)⟩
      · simpa using ⟨name, Json.Verbal.str (plain _ (by decide)), Json.Verbal.arr forms⟩

/-- Over texts that spellings tell apart, comparing canonical texts is comparing forms. -/
theorem canonicalText_eq_iff (apart : S.InjOn (Quoted.write .ascii)) {a b : Shape}
    (ha : a.Within S) (hb : b.Within S) :
    a.canonicalText = b.canonicalText ↔ a.canonical = b.canonical := by
  constructor
  · intro h
    have legible := ha.verbal_canonical.legible (Quoted.injOn_write_union_plain apart)
    exact (legible 0 b.canonical [] [] hb.verbal_canonical h).1
  · intro h
    rw [canonicalText, canonicalText, h]

end Shape

end JsonShapes
