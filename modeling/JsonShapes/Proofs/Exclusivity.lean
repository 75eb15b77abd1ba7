import JsonShapes.Proofs.NumberText
import JsonShapes.Proofs.Validation
import JsonShapes.Proofs.WellFormedness

/-!
# Variants of a tagged union exclude each other

The schema of a variant asks for the discriminator and pins it to a constant, which is the very
value that was observed, since the text of a literal reads back as the literal. The texts of the
constants differ. So two variants exclude each other unless their constants are equal all the same,
and that happens to numbers alone: the integer `1` and the double `1.0` are written differently and
have one value. Variants exclude each other over exactly the sets of numbers in which no two have
the same value.
-/

namespace JsonShapes

namespace Json

def IsNumber : Json → Prop
  | .int _ => True
  | .double _ => True
  | _ => False

/-- The numbers that a document can hold: finite doubles, and integers of not too many digits. -/
def numerals : Set Json :=
  {w | (∃ n : Int, w = .int n ∧ (Text.ofNat n.natAbs).length ≤ Text.maxDigits) ∨
    ∃ x, w = .double (.finite x)}

/-- The numbers inside of a value are among the given ones. -/
def Over (N : Set Json) (v : Json) : Prop := ∀ w, Inside w v → w.IsNumber → w ∈ N

/-- The literals that strings, booleans and the given numbers offer. -/
def literalsOver (N : Set Json) : Set (Text × Text) :=
  {l | ∃ w : Json, (w.IsNumber → w ∈ N) ∧ w.literalText = some l.1 ∧ w.literalType = l.2}

variable {N : Set Json}

theorem Over.literals_subset {v : Json} (h : v.Over N) : v.literals ⊆ literalsOver N := by
  rintro l ⟨w, inside, literal⟩
  exact ⟨w, h w inside, literal⟩

theorem isNumber_of_number? {w : Json} {q : ℚ} (h : w.number? = some q) : w.IsNumber := by
  cases w with
  | int n => trivial
  | double x => trivial
  | _ => cases h

/-- The schema of a literal pins the value that the literal stands for. -/
theorem ofLiteral_eq {w : Json} (readable : w.IsNumber → w ∈ numerals) {text : Text}
    (literal : w.literalText = some text) :
    Schema.ofLiteral text w.literalType = .ok (Schema.typed w.literalType [("const", w)]) := by
  have parsed : ∀ jsonType : Text, jsonType ≠ Text.ofString "string" → parse text = .ok w →
      Schema.ofLiteral text jsonType = .ok (Schema.typed jsonType [("const", w)]) := by
    intro jsonType other eq
    rw [Schema.ofLiteral, if_neg other, eq]
  cases w with
  | bool b =>
      cases literal
      apply parsed _ (by rw [literalType]; decide)
      cases b <;> decide +kernel
  | int n =>
      cases literal
      apply parsed _ (by rw [literalType]; decide)
      rcases readable trivial with ⟨m, ⟨⟩, short⟩ | ⟨x, ⟨⟩⟩
      exact parse_ofInt short
  | double x =>
      rcases readable trivial with ⟨m, ⟨⟩, short⟩ | ⟨x, ⟨⟩⟩
      cases literal
      exact parsed _ (by rw [literalType]; decide) (parse_text x)
  | str s =>
      rw [literalText] at literal
      split at literal
      · cases literal
      · cases literal
        rfl
  | _ => cases literal

/-- A literal stands for one value. -/
theorem eq_of_literalText {w w' : Json} (readable : w.IsNumber → w ∈ numerals)
    (readable' : w'.IsNumber → w' ∈ numerals) {text : Text} (literal : w.literalText = some text)
    (literal' : w'.literalText = some text) (sameType : w.literalType = w'.literalType) :
    w = w' := by
  have one := ofLiteral_eq readable literal
  rw [sameType, ofLiteral_eq readable' literal'] at one
  simpa [Schema.typed, eq_comm] using one

theorem equal_of_literal {w : Json} {text : Text} (literal : w.literalText = some text) (v : Json) :
    w.equal v = match w.number?, v.number? with
      | some p, some q => p == q
      | _, _ => w == v := by
  cases w with
  | null => cases literal
  | arr items => cases literal
  | obj members => cases literal
  | _ => cases v <;> rfl

/-- A constant equals itself, and a number equals every number of its value. -/
theorem equal_iff {w : Json} {text : Text} (literal : w.literalText = some text) {v : Json} :
    w.equal v = true ↔ w = v ∨ ∃ q, w.number? = some q ∧ v.number? = some q := by
  rw [equal_of_literal literal]
  cases here : w.number? with
  | none => simp
  | some p =>
      cases there : v.number? with
      | none => simp
      | some q =>
          have same : w = v → p = q := by
            rintro rfl
            exact Option.some.inj (here.symm.trans there)
          simp only [beq_iff_eq, Option.some.injEq, exists_eq_left']
          exact ⟨fun eq => .inr eq.symm, fun h => h.elim same Eq.symm⟩

/-- If no two of the given numbers have one value, equal constants are the same. -/
theorem eq_of_equal (apart : N.InjOn number?) {w w' v : Json} {text text' : Text}
    (listed : w.IsNumber → w ∈ N) (listed' : w'.IsNumber → w' ∈ N)
    (literal : w.literalText = some text) (literal' : w'.literalText = some text')
    (equal : w.equal v = true) (equal' : w'.equal v = true) : w = w' := by
  have sameValue : ∀ q, w.number? = some q → w'.number? = some q → w = w' := by
    intro q here there
    exact apart (listed (isNumber_of_number? here)) (listed' (isNumber_of_number? there))
      (here.trans there.symm)
  rcases (equal_iff literal).1 equal with rfl | ⟨q, here, value⟩
  · rcases (equal_iff literal').1 equal' with rfl | ⟨q, there, here⟩
    · rfl
    · exact sameValue q here there
  · rcases (equal_iff literal').1 equal' with rfl | ⟨p, there, value'⟩
    · exact sameValue q here value
    · rw [value] at value'
      cases value'
      exact sameValue q here there

end Json

open Json

namespace Schema

variable {N : Set Json}

theorem exists_fragmentAll {variants : List Shape}
    (h : ∀ s ∈ variants, ∃ keywords, fragment s = .ok (.obj keywords)) :
    ∃ schemas, fragmentAll variants = .ok schemas := by
  have each : ∀ s ∈ variants, ∃ schema, fragment s = .ok schema := by
    intro s hs
    obtain ⟨keywords, eq⟩ := h s hs
    exact ⟨_, eq⟩
  obtain ⟨schemas, all⟩ := exists_forall₂ each
  exact ⟨schemas, fragmentAll_iff.2 all⟩

/-- Well-formed shapes with literals that read back have schemas. -/
theorem exists_fragment (readable : N ⊆ numerals) {s : Shape}
    (h : s.WellFormed (literalsOver N)) : ∃ keywords, fragment s = .ok (.obj keywords) := by
  induction h with
  | scalar kind => cases kind <;> exact ⟨_, rfl⟩
  | literal listed =>
      obtain ⟨w, number, text, rfl⟩ := listed
      rw [fragment, ofLiteral_eq (fun isNumber => readable (number isNumber)) text]
      exact ⟨_, rfl⟩
  | @object fields distinct wellFormed ih =>
      have each : ∀ f ∈ fields, ∃ p : Text × Json, p.1 = f.1 ∧ fragment f.2 = .ok p.2 := by
        intro f hf
        obtain ⟨keywords, eq⟩ := ih f hf
        exact ⟨(f.1, .obj keywords), rfl, fragment_unwrap f.2 ▸ eq⟩
      obtain ⟨properties, all⟩ := exists_forall₂ each
      exact ⟨_, fragment_object_iff.2 ⟨properties, fragmentFields_iff.2 all, rfl⟩⟩
  | array wellFormed ih =>
      obtain ⟨keywords, eq⟩ := ih
      exact ⟨_, fragment_array_iff.2 ⟨_, eq, rfl⟩⟩
  | untagged several distinct flat wellFormed ih =>
      obtain ⟨schemas, eqs⟩ := exists_fragmentAll ih
      exact ⟨_, fragment_union_iff.2 ⟨schemas, eqs, rfl⟩⟩
  | tagged several distinct pinned apart wellFormed ih =>
      obtain ⟨schemas, eqs⟩ := exists_fragmentAll ih
      exact ⟨_, fragment_union_iff.2 ⟨schemas, eqs, rfl⟩⟩

/-- The schema of a tagged record asks for a constant with the text of the tag. -/
theorem exists_const (readable : N ⊆ numerals) {s : Shape} {field text : Text} {schema : Json}
    (h : s.WellFormed (literalsOver N)) (tagged : s.tag? field = some text)
    (eq : fragment s = .ok schema) :
    ∃ w : Json, (w.IsNumber → w ∈ N) ∧ w.literalText = some text ∧
      ∀ v, validates schema v = true → ∃ value, v.get? field = some value ∧
        w.equal value = true := by
  obtain ⟨fields, jsonType, rfl, found, -⟩ := Shape.tag?_eq_some_iff.1 tagged
  have member := Fields.mem_of_get?_eq_some found
  cases h with
  | object distinct wellFormed =>
      cases wellFormed _ member with
      | literal listed =>
          obtain ⟨w, number, literal, rfl⟩ := listed
          obtain ⟨properties, eqs, rfl⟩ := fragment_object_iff.1 eq
          obtain ⟨p, hp, key, const⟩ := exists_of_forall₂ (fragmentFields_iff.1 eqs) member
          rw [fragment, ofLiteral_eq (fun isNumber => readable (number isNumber)) literal] at const
          refine ⟨w, number, literal, fun v valid => ?_⟩
          obtain ⟨members, rfl, properties, required⟩ := validates_ofRecord_iff.1 valid
          have asked : field ∈ requiredKeys fields :=
            List.mem_map.mpr ⟨_, List.mem_filter.mpr ⟨member, rfl⟩, rfl⟩
          obtain ⟨value, present⟩ := required field asked
          have pinned := properties p hp value (key ▸ present)
          rw [← Except.ok.inj const, validates_const_iff] at pinned
          exact ⟨value, present, pinned.2⟩

/-- No value validates against both schemas. -/
def Exclusive (a b : Json) : Prop := ∀ v, ¬(validates a v = true ∧ validates b v = true)

/-- Records with different tags have schemas that exclude each other. -/
theorem exclusive_of_tags (readable : N ⊆ numerals) (apart : N.InjOn number?) {s t : Shape}
    {field : Text} {a b : Json} (hs : s.WellFormed (literalsOver N))
    (ht : t.WellFormed (literalsOver N)) (pinnedS : (s.tag? field).isSome = true)
    (pinnedT : (t.tag? field).isSome = true) (differ : s.tag? field ≠ t.tag? field)
    (fragmentS : fragment s = .ok a) (fragmentT : fragment t = .ok b) : Exclusive a b := by
  obtain ⟨text, tagged⟩ := Option.isSome_iff_exists.1 pinnedS
  obtain ⟨other, tagged'⟩ := Option.isSome_iff_exists.1 pinnedT
  obtain ⟨w, number, literal, asks⟩ := exists_const readable hs tagged fragmentS
  obtain ⟨w', number', literal', asks'⟩ := exists_const readable ht tagged' fragmentT
  rintro v ⟨valid, valid'⟩
  obtain ⟨value, held, equal⟩ := asks v valid
  obtain ⟨value', held', equal'⟩ := asks' v valid'
  cases held.symm.trans held'
  have same := eq_of_equal apart number number' literal literal' equal equal'
  rw [same, literal'] at literal
  rw [tagged, tagged', literal] at differ
  exact differ rfl

/-- The schemas of the variants of a tagged union exclude each other. -/
theorem pairwise_exclusive (readable : N ⊆ numerals) (apart : N.InjOn number?)
    {variants : List Shape} {field : Text} {schemas : List Json}
    (wellFormed : ∀ s ∈ variants, s.WellFormed (literalsOver N))
    (pinned : ∀ s ∈ variants, (s.tag? field).isSome = true)
    (tags : (variants.map (Shape.tag? field)).Nodup)
    (eqs : List.Forall₂ (fun s schema => fragment s = .ok schema) variants schemas) :
    schemas.Pairwise Exclusive := by
  induction eqs with
  | nil => exact .nil
  | @cons s schema variants schemas eq rest ih =>
      rw [List.map_cons, List.nodup_cons] at tags
      rw [List.forall_mem_cons] at wellFormed pinned
      refine .cons (fun other ho => ?_) (ih wellFormed.2 pinned.2 tags.2)
      obtain ⟨t, ht, eq'⟩ := exists_of_forall₂ rest.flip ho
      refine exclusive_of_tags readable apart wellFormed.1 (wellFormed.2 t ht) pinned.1
        (pinned.2 t ht) ?_ eq eq'
      intro same
      exact tags.1 (List.mem_map.mpr ⟨t, ht, same.symm⟩)

theorem countP_le_one {schemas : List Json} (h : schemas.Pairwise Exclusive) (v : Json) :
    schemas.countP (validates · v) ≤ 1 := by
  induction h with
  | nil => exact Nat.zero_le 1
  | @cons schema schemas exclusive rest ih =>
      rw [List.countP_cons]
      split
      · next valid =>
          have others : schemas.countP (validates · v) = 0 := by
            rw [List.countP_eq_zero]
            intro other ho valid'
            exact exclusive other ho v ⟨valid, valid'⟩
          omega
      · exact ih

end Schema

namespace Shape

/-- The elements of an array over the given numbers have a tagged union as their type. -/
structure Tagged (N : Set Json) (items : List Json) (field : Text) (variants : List Shape) :
    Prop where
  within : (Json.arr items).Within .univ .univ
  numbers : (Json.arr items).Over N
  inferred : infer (.arr items) = .ok (.array (.union (some field) variants))

theorem Tagged.wellFormed {N : Set Json} {items : List Json} {field : Text} {variants : List Shape}
    (h : Tagged N items field variants) :
    (Shape.union (some field) variants).WellFormed (literalsOver N) := by
  obtain ⟨s, eq, inferred⟩ := exists_inferred h.within
  rw [h.inferred] at eq
  cases eq
  cases inferred.wellFormed h.numbers.literals_subset with
  | array wellFormed => exact wellFormed

/-- The schemas of the variants exclude each other, whatever the array. -/
def TagsExclusively (N : Set Json) : Prop :=
  ∀ items field variants, Tagged N items field variants →
    ∃ schemas, Schema.fragmentAll variants = .ok schemas ∧ schemas.Pairwise Schema.Exclusive

/-- No element validates against the schemas of two variants, whatever the array. -/
def MatchesOnce (N : Set Json) : Prop :=
  ∀ items field variants, Tagged N items field variants →
    ∃ schemas, Schema.fragmentAll variants = .ok schemas ∧
      ∀ item ∈ items, schemas.countP (Schema.validates · item) ≤ 1

theorem tagsExclusively_of_injOn {N : Set Json} (readable : N ⊆ numerals)
    (apart : N.InjOn number?) : TagsExclusively N := by
  intro items field variants h
  cases h.wellFormed with
  | tagged several distinct pinned tags wellFormed =>
      obtain ⟨schemas, eqs⟩ := Schema.exists_fragmentAll fun s hs =>
        Schema.exists_fragment readable (wellFormed s hs)
      refine ⟨schemas, eqs, ?_⟩
      exact Schema.pairwise_exclusive readable apart wellFormed pinned tags
        (Schema.fragmentAll_iff.1 eqs)

/-- Two objects that differ in a number and in whether they hold a second member. -/
def twins (x y : Json) : List Json := [.obj [("a", x)], .obj [("a", y), ("b", .null)]]

/-- The variants for two such objects. -/
def twinVariants (text other : Text) : List Shape :=
  [.object [("a", .literal text "number")],
    .object [("a", .literal other "number"), ("b", .null)]]

theorem infer_numeral {x : Json} (h : x ∈ numerals) : infer x = .ok .number := by
  rcases h with ⟨n, rfl, -⟩ | ⟨x, rfl⟩
  · rfl
  · rfl

theorem exists_literalText_numeral {x : Json} (h : x ∈ numerals) :
    ∃ text, x.literalText = some text := by
  rcases h with ⟨n, rfl, -⟩ | ⟨x, rfl⟩
  · exact ⟨_, rfl⟩
  · exact ⟨_, rfl⟩

theorem literalType_numeral {x : Json} (h : x ∈ numerals) : x.literalType = "number" := by
  rcases h with ⟨n, rfl, -⟩ | ⟨x, rfl⟩
  · rfl
  · rfl

section

open Discriminator

/-- The shapes of two such objects. -/
def twinShapes : List Shape := [.object [("a", .number)], .object [("a", .number), ("b", .null)]]

/-- Two such objects, grouped by their numbers. -/
def twinCandidate (text other : Text) : Candidate :=
  ⟨"a", [⟨some text, "number", [0], [canonicalText (.object [("a", .number)])]⟩,
    ⟨some other, "number", [1], [canonicalText (.object [("a", .number), ("b", .null)])]⟩]⟩

variable {x y : Json} {text other : Text}

theorem find_twins (hx : x ∈ numerals) (hy : y ∈ numerals) (literal : x.literalText = some text)
    (literal' : y.literalText = some other) (differ : text ≠ other) :
    find id (twins x y) twinShapes 2 = .ok (some (twinCandidate text other)) := by
  have keys : candidateKeys (twins x y) = [Text.ofString "a"] := by
    simp [candidateKeys, twins, holdsLiteral, Json.get?, Json.members?, Fields.keys, literal,
      literal']
  have parts :
      partition id (twins x y) "a" twinShapes = .ok (twinCandidate text other).partitions := by
    have one := canonicalText?_eq_ok (s := .object [("a", .number)]) rfl
    have two := canonicalText?_eq_ok (s := .object [("a", .number), ("b", .null)]) rfl
    simp [partition, partitionFrom, twins, twinShapes, twinCandidate, Json.keyed, literal, literal',
      literalType_numeral hx, literalType_numeral hy, Discriminator.insert, differ, one, two]
  rw [find, if_neg (by decide), keys, firstQualifying, parts]
  rfl

theorem variant_twins {i : Nat} {s : Shape} (listed : twinShapes[i]? = some s)
    (merged : mergeRecords [s] = .ok s) (value : Text) (shapes : List Text) :
    Unification.variant twinShapes "a" ⟨some value, "number", [i], shapes⟩ =
      .ok (Unification.pin "a" (.literal value "number") s) := by
  simp only [Unification.variant, List.filterMap_cons, listed, List.filterMap_nil, merged]
  rfl

/-- Two objects with numbers that are written differently are told apart by them. -/
theorem infer_twins (hx : x ∈ numerals) (hy : y ∈ numerals) (literal : x.literalText = some text)
    (literal' : y.literalText = some other) (differ : text ≠ other) :
    infer (.arr (twins x y)) = .ok (.array (.union (some "a") (twinVariants text other))) := by
  have shapes : inferAll (twins x y) = .ok twinShapes := by
    simp only [twins, inferAll, infer, inferMembers, infer_numeral hx, infer_numeral hy]
    decide +kernel
  have unified : Unification.of (twins x y) twinShapes =
      .ok (.tagged (twinCandidate text other)) := by
    have distinct : unique? twinShapes = .ok twinShapes := by decide +kernel
    have found := find_twins hx hy literal literal' differ
    rw [Unification.of, if_neg (by decide), distinct]
    rw [twinShapes] at found ⊢
    simp only [List.length_cons, List.length_nil, found]
  have variants : (Unification.tagged (twinCandidate text other)).shape twinShapes =
      .ok (.union (some "a") (twinVariants text other)) := by
    have one := variant_twins (i := 0) rfl (by decide +kernel) text
    have two := variant_twins (i := 1) rfl (by decide +kernel) other
    simp only [Unification.shape, twinCandidate, List.mapM_cons, List.mapM_nil, one, two]
    rfl
  have whole :
      unify (twins x y) twinShapes = .ok (.union (some "a") (twinVariants text other)) := by
    rw [unify, unified]
    exact variants
  rw [infer, shapes]
  change (unify (twins x y) twinShapes >>= _) = _
  rw [whole]
  rfl

theorem within_numeral {S : Set Text} (h : x ∈ numerals) : x.Within S .univ := by
  rcases h with ⟨n, rfl, -⟩ | ⟨x, rfl⟩
  · exact .int n
  · exact .double trivial

theorem typeName_numeral (h : x ∈ numerals) : x.typeName = "number" := by
  rcases h with ⟨n, rfl, -⟩ | ⟨x, rfl⟩
  · rfl
  · rfl

theorem eq_of_inside_numeral (h : x ∈ numerals) {w : Json} (inside : Inside w x) : w = x := by
  rcases h with ⟨n, rfl, -⟩ | ⟨x, rfl⟩
  · cases inside
    rfl
  · cases inside
    rfl

theorem tagged_twins {N : Set Json} (hx : x ∈ N ∩ numerals) (hy : y ∈ N ∩ numerals)
    (literal : x.literalText = some text) (literal' : y.literalText = some other)
    (differ : text ≠ other) : Tagged (N ∩ numerals) (twins x y) "a" (twinVariants text other) := by
  refine ⟨?_, ?_, infer_twins hx.2 hy.2 literal literal' differ⟩
  · refine .arr (List.forall_mem_cons.mpr ⟨?_, List.forall_mem_singleton.mpr ?_⟩)
    · exact .obj (List.nodup_singleton _) (fun _ _ => trivial)
        (List.forall_mem_singleton.mpr (within_numeral hx.2))
    · exact .obj (show [Text.ofString "a", Text.ofString "b"].Nodup by decide) (fun _ _ => trivial)
        (List.forall_mem_cons.mpr ⟨within_numeral hy.2, List.forall_mem_singleton.mpr .null⟩)
  · intro w inside number
    cases inside with
    | here => cases number
    | item listed inside =>
        rcases List.mem_pair.mp listed with rfl | rfl
        · cases inside with
          | here => cases number
          | member listed inside =>
              obtain rfl := List.mem_singleton.mp listed
              rw [eq_of_inside_numeral hx.2 inside]
              exact hx
        · cases inside with
          | here => cases number
          | member listed inside =>
              rcases List.mem_pair.mp listed with rfl | rfl
              · rw [eq_of_inside_numeral hy.2 inside]
                exact hy
              · cases inside
                cases number

theorem fragmentAll_twins (hx : x ∈ numerals) (hy : y ∈ numerals)
    (literal : x.literalText = some text) (literal' : y.literalText = some other) :
    Schema.fragmentAll (twinVariants text other) =
      .ok [Schema.ofRecord [("a", .literal text "number")]
          [("a", Schema.typed "number" [("const", x)])],
        Schema.ofRecord [("a", .literal other "number"), ("b", .null)]
          [("a", Schema.typed "number" [("const", y)]), ("b", Schema.typed "null" [])]] := by
  have one := ofLiteral_eq (fun _ => hx) literal
  have two := ofLiteral_eq (fun _ => hy) literal'
  rw [literalType_numeral hx] at one
  rw [literalType_numeral hy] at two
  simp only [twinVariants, Schema.fragmentAll, Schema.fragment, Schema.fragmentFields, one, two]
  rfl

/-- If the numbers have one value, the second object validates against both schemas. -/
theorem validates_twins (hy : y ∈ numerals) (literal : x.literalText = some text)
    (literal' : y.literalText = some other) (sameValue : x.number? = y.number?) {schema : Json}
    (listed : schema ∈ [Schema.ofRecord [("a", .literal text "number")]
        [("a", Schema.typed "number" [("const", x)])],
      Schema.ofRecord [("a", .literal other "number"), ("b", .null)]
        [("a", Schema.typed "number" [("const", y)]), ("b", Schema.typed "null" [])]]) :
    Schema.validates schema (.obj [("a", y), ("b", .null)]) = true := by
  obtain ⟨q, value⟩ : ∃ q, y.number? = some q := by
    rcases hy with ⟨n, rfl, -⟩ | ⟨y, rfl⟩
    · exact ⟨_, rfl⟩
    · exact ⟨_, rfl⟩
  have first : Schema.validates (Schema.typed "number" [("const", x)]) y = true :=
    Schema.validates_const_iff.2 ⟨typeName_numeral hy,
      (equal_iff literal).2 (.inr ⟨q, sameValue.trans value, value⟩)⟩
  have second : Schema.validates (Schema.typed "number" [("const", y)]) y = true :=
    Schema.validates_const_iff.2 ⟨typeName_numeral hy, (equal_iff literal').2 (.inl rfl)⟩
  have third : Schema.validates (Schema.typed "null" []) .null = true :=
    Schema.validates_typed_iff.2 ⟨rfl, by rw [Schema.satisfies]⟩
  have differ : Text.ofString "a" ≠ Text.ofString "b" := by decide
  rcases List.mem_pair.mp listed with rfl | rfl
  · refine Schema.validates_ofRecord_iff.2 ⟨_, rfl, ?_, ?_⟩
    · simpa using first
    · simp [Schema.requiredKeys, Fields.keys, isOptional]
  · refine Schema.validates_ofRecord_iff.2 ⟨_, rfl, ?_, ?_⟩
    · simpa [differ] using ⟨second, third⟩
    · simp [Schema.requiredKeys, Fields.keys, isOptional, differ]

theorem injOn_of_matchesOnce {N : Set Json} (once : MatchesOnce (N ∩ numerals)) :
    (N ∩ numerals).InjOn number? := by
  intro x hx y hy sameValue
  obtain ⟨text, literal⟩ := exists_literalText_numeral hx.2
  obtain ⟨other, literal'⟩ := exists_literalText_numeral hy.2
  by_contra distinct
  have differ : text ≠ other := by
    rintro rfl
    exact distinct (eq_of_literalText (fun _ => hx.2) (fun _ => hy.2) literal literal'
      ((literalType_numeral hx.2).trans (literalType_numeral hy.2).symm))
  obtain ⟨schemas, eqs, atMost⟩ := once _ _ _ (tagged_twins hx hy literal literal' differ)
  rw [fragmentAll_twins hx.2 hy.2 literal literal'] at eqs
  cases eqs
  have bound := atMost (.obj [("a", y), ("b", .null)]) (by simp [twins])
  rw [List.countP_eq_length.mpr fun schema hs => validates_twins hy.2 literal literal'
    sameValue hs] at bound
  simp at bound

end

/-- The variants of tagged unions exclude each other, and no element validates against two of them,
over exactly the sets of numbers in which no two have the same value. -/
theorem tagsExclusively_tfae_injOn_number (N : Set Json) :
    [TagsExclusively (N ∩ numerals), MatchesOnce (N ∩ numerals),
      (N ∩ numerals).InjOn number?].TFAE := by
  tfae_have 3 → 1 := tagsExclusively_of_injOn Set.inter_subset_right
  tfae_have 1 → 2 := by
    intro exclusively items field variants h
    obtain ⟨schemas, eqs, exclusive⟩ := exclusively items field variants h
    exact ⟨schemas, eqs, fun item _ => Schema.countP_le_one exclusive item⟩
  tfae_have 2 → 3 := injOn_of_matchesOnce
  tfae_finish

/-- The object that holds the double `1.0` matches the variant of the integer `1` too, and the
schema of the array rejects the array. -/
theorem inferSamples_sameValue_rejects :
    let item : Json := .obj
      [("t", .double (.finite ⟨false, 4503599627370496, -52, by decide⟩)), ("a", .int 1),
        ("b", .int 2)]
    let array : Json := .arr [.obj [("t", .int 1), ("a", .int 1)], item]
    ∃ variants, inferSamples [array] = .ok (.array (.union (some "t") variants)) ∧
      (Schema.fragmentAll variants).toOption.map (List.countP (Schema.validates · item)) = some 2 ∧
      (Schema.ofShape [] (.array (.union (some "t") variants))).toOption.map
        (Schema.validates · array) = some false :=
  ⟨[.object [("t", .literal "1" "number"), ("a", .number)],
    .object [("t", .literal "1.0" "number"), ("a", .number), ("b", .number)]],
    by decide +kernel, by decide +kernel, by decide +kernel⟩

end Shape

end JsonShapes
