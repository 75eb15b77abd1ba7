import JsonShapes.Proofs.Exclusivity
import JsonShapes.Proofs.Soundness

/-!
# A schema validates the samples that it was inferred from

What a shape accepts validates against its schema. Records become open ones, so that less is asked
of a value, except at a tagged union: the value has to match exactly one variant. It matches the one
that accepts it, and no other, since the variants exclude each other as long as no two numbers have
one value. Integers, together with the doubles that are no whole numbers, are such numbers.

As for the shapes themselves, the texts of the samples have to be told apart by their spellings, and
no weaker condition is enough.
-/

namespace JsonShapes

namespace Json

variable {N : Set Json}

theorem Over.item {item : Json} {items : List Json} (h : (Json.arr items).Over N)
    (listed : item ∈ items) : item.Over N :=
  fun w inside => h w (.item listed inside)

theorem Over.get? {v value : Json} {key : Text} (h : v.Over N) (held : v.get? key = some value) :
    value.Over N :=
  fun w inside => h w (.of_get? held inside)

theorem typeName_of_literalText {w : Json} {text : Text} (h : w.literalText = some text) :
    w.typeName = w.literalType := by
  cases w with
  | bool b => rfl
  | int n => rfl
  | double x => rfl
  | str s => rfl
  | _ => cases h

/-- Integers, and doubles that are no whole numbers. -/
def integersAndFractions : Set Json :=
  {w ∈ numerals | ∀ x, w = .double (.finite x) → ∀ n : Int, x.value ≠ n}

/-- No two of these numbers have the same value. -/
theorem injOn_number_integersAndFractions : integersAndFractions.InjOn number? := by
  rintro a ⟨numeral, fraction⟩ b ⟨numeral', fraction'⟩ same
  rcases numeral with ⟨n, rfl, -⟩ | ⟨x, rfl⟩
  · rcases numeral' with ⟨m, rfl, -⟩ | ⟨y, rfl⟩
    · have equal : (n : ℚ) = m := Option.some.inj same
      rw [Int.cast_inj.mp equal]
    · exact absurd (Option.some.inj same).symm (fraction' y rfl n)
  · rcases numeral' with ⟨m, rfl, -⟩ | ⟨y, rfl⟩
    · exact absurd (Option.some.inj same) (fraction x rfl m)
    · have nonzero : x.value ≠ 0 := by simpa using fraction x rfl 0
      rw [Binary64.Finite.eq_of_value_eq (Option.some.inj same) nonzero]

end Json

open Json

namespace Schema

theorem typeName_of_accepts {kind : Scalar} {v : Json} (h : kind.accepts v = true) :
    v.typeName = kind.name := by
  cases kind <;> cases v <;> simp only [Scalar.accepts, Bool.false_eq_true] at h <;> rfl

variable {N : Set Json}

/-- What a well-formed shape accepts validates against its schema. -/
theorem validates_of_accepts (readable : N ⊆ numerals) (apart : N.InjOn number?) {s : Shape}
    (h : s.WellFormed (literalsOver N)) {schema : Json} (eq : fragment s = .ok schema) {v : Json}
    (numbers : v.Over N) (accepted : s.accepts v = true) : validates schema v = true := by
  induction h generalizing schema v with
  | scalar kind =>
      cases eq
      exact validates_ofScalar_iff.2 (.inr (typeName_of_accepts accepted))
  | literal listed =>
      obtain ⟨w, number, literal, rfl⟩ := listed
      obtain ⟨text, type⟩ := Shape.accepts_literal_iff.1 accepted
      have known : w.IsNumber → w ∈ numerals := fun isNumber => readable (number isNumber)
      have known' : v.IsNumber → v ∈ numerals := fun isNumber =>
        readable (numbers v (.here v) isNumber)
      obtain rfl := eq_of_literalText known' known text literal type
      rw [fragment, ofLiteral_eq known literal] at eq
      rw [← Except.ok.inj eq]
      exact validates_const_iff.2
        ⟨typeName_of_literalText literal, (equal_iff literal).2 (.inl rfl)⟩
  | @object fields distinct wellFormed ih =>
      obtain ⟨members, rfl, -, asked⟩ := Shape.accepts_object_iff.1 accepted
      obtain ⟨properties, eqs, rfl⟩ := fragment_object_iff.1 eq
      refine validates_ofRecord_iff.2 ⟨members, rfl, ?_, ?_⟩
      · intro p hp value present
        obtain ⟨f, hf, key, here⟩ := exists_of_forall₂ (fragmentFields_iff.1 eqs).flip hp
        rw [key] at present
        apply ih f hf (fragment_unwrap f.2 ▸ here) (numbers.get? present)
        rw [Shape.accepts_unwrap]
        exact (asked f hf).1 value present
      · intro key hk
        obtain ⟨f, hf, rfl⟩ := List.mem_map.mp hk
        obtain ⟨listed, required⟩ := List.mem_filter.mp hf
        cases present : Fields.get? members f.1 with
        | some value => exact ⟨value, rfl⟩
        | none => simp [(asked f listed).2 present] at required
  | array wellFormed ih =>
      obtain ⟨items, rfl, held⟩ := Shape.accepts_array_iff.1 accepted
      obtain ⟨inner, here, rfl⟩ := fragment_array_iff.1 eq
      exact validates_array_iff.2
        ⟨items, rfl, fun item hi => ih here (numbers.item hi) (held item hi)⟩
  | untagged several distinct flat wellFormed ih =>
      obtain ⟨s, hs, held⟩ := Shape.accepts_union_iff.1 accepted
      obtain ⟨schemas, eqs, rfl⟩ := fragment_union_iff.1 eq
      obtain ⟨schema, listed, here⟩ := exists_of_forall₂ (fragmentAll_iff.1 eqs) hs
      exact validates_anyOf_iff.2 ⟨schema, listed, ih s hs here numbers held⟩
  | tagged several distinct pinned tags wellFormed ih =>
      obtain ⟨s, hs, held⟩ := Shape.accepts_union_iff.1 accepted
      obtain ⟨schemas, eqs, rfl⟩ := fragment_union_iff.1 eq
      obtain ⟨schema, listed, here⟩ := exists_of_forall₂ (fragmentAll_iff.1 eqs) hs
      have exclusive := pairwise_exclusive readable apart wellFormed pinned tags
        (fragmentAll_iff.1 eqs)
      have some : 0 < schemas.countP (validates · v) :=
        List.countP_pos_iff.mpr ⟨schema, listed, ih s hs here numbers held⟩
      exact validates_oneOf_iff.2 (Nat.le_antisymm (countP_le_one exclusive v) some)

end Schema

namespace Shape

variable {S : Set Text} {D : Set Binary64} {N : Set Json}

/-- The shape of samples over the given numbers is well-formed, with literals of these numbers. -/
theorem wellFormed_of_inferSamples {samples : List Json} (nonempty : samples ≠ [])
    (within : ∀ v ∈ samples, v.Within S D) (numbers : ∀ v ∈ samples, v.Over N) {shape : Shape}
    (eq : inferSamples samples = .ok shape) : shape.WellFormed (literalsOver N) := by
  obtain ⟨_, inferred, wellFormed⟩ := exists_wellFormed_inferSamples nonempty within
  rw [inferred] at eq
  cases eq
  exact wellFormed _ fun v hv => (numbers v hv).literals_subset

/-- Samples over the given texts, whose numbers are integers and doubles that are no whole numbers,
validate against the schema document of the shape that is inferred from them. -/
def EmitsSoundly (S : Set Text) : Prop :=
  ∀ (samples : List Json) (title : Text), samples ≠ [] →
    (∀ v ∈ samples, v.Within S finiteDoubles ∧ v.Over integersAndFractions) →
    ∃ shape schema, inferSamples samples = .ok shape ∧ Schema.ofShape title shape = .ok schema ∧
      ∀ v ∈ samples, Schema.validates schema v = true

theorem emitsSoundly_of_injOn (apart : S.InjOn (Quoted.write .ascii)) : EmitsSoundly S := by
  intro samples title nonempty each
  have within : ∀ v ∈ samples, v.Within S finiteDoubles := fun v hv => (each v hv).1
  have numbers : ∀ v ∈ samples, v.Over integersAndFractions := fun v hv => (each v hv).2
  have readable : integersAndFractions ⊆ numerals := fun w hw => hw.1
  obtain ⟨shape, eq, accepted⟩ := infersSoundly_of_injOn apart samples nonempty within
  have wellFormed := wellFormed_of_inferSamples nonempty within numbers eq
  obtain ⟨keywords, fragment⟩ := Schema.exists_fragment readable wellFormed
  have document : Schema.ofShape title shape = .ok (Schema.document title (.obj keywords)) := by
    rw [Schema.ofShape, fragment]
    rfl
  refine ⟨shape, _, eq, document, fun v hv => ?_⟩
  rw [Schema.validates_document]
  exact Schema.validates_of_accepts readable injOn_number_integersAndFractions wellFormed fragment
    (numbers v hv) (accepted v hv)

theorem inferSamples_arraysOf {key other : Text}
    (h : Quoted.write .ascii key = Quoted.write .ascii other) :
    inferSamples [.arrayOf key, .arrayOf other] = .ok (arraysOf key) := by
  change mergeShapes [arraysOf key, arraysOf other] = _
  rw [mergeShapes_eq_ok (by simp)
    (by simpa using ⟨Within.arraysOf (Set.mem_univ key), Within.arraysOf (Set.mem_univ other)⟩),
    mergeAll_arraysOf h]

theorem over_arrayOf (key : Text) : (Json.arrayOf key).Over N := by
  intro w inside number
  cases inside with
  | here => cases number
  | item listed inside =>
      obtain rfl := List.mem_singleton.mp listed
      cases inside with
      | here => cases number
      | member listed inside =>
          obtain rfl := List.mem_singleton.mp listed
          cases inside
          cases number

/-- The schema for arrays of records asks each of them for the key. -/
theorem eq_of_validates_arraysOf {key other title : Text} {schema : Json}
    (eq : Schema.ofShape title (arraysOf key) = .ok schema)
    (valid : Schema.validates schema (.arrayOf other) = true) : key = other := by
  cases eq
  change Schema.validates (Schema.document title (.obj _)) _ = true at valid
  rw [Schema.validates_document] at valid
  obtain ⟨items, same, each⟩ := Schema.validates_array_iff.1 valid
  cases same
  obtain ⟨members, same, -, required⟩ := Schema.validates_ofRecord_iff.1
    (each (.obj [(other, .null)]) List.mem_cons_self)
  cases same
  have asked : key ∈ Schema.requiredKeys [(key, .null)] := List.mem_cons_self
  obtain ⟨value, present⟩ := required key asked
  exact (Prod.mk.inj (List.mem_singleton.mp (Fields.mem_of_get?_eq_some present))).1

/-- Schema documents are sound over exactly the sets of texts that spellings tell apart, among them
every set of texts without split pairs. -/
theorem emitsSoundly_iff_injOn_write (S : Set Text) :
    (EmitsSoundly S ↔ S.InjOn (Quoted.write .ascii)) ∧
      ((∀ t ∈ S, t.Unsplit) → EmitsSoundly S) := by
  refine ⟨⟨?_, emitsSoundly_of_injOn⟩,
    fun unsplit => emitsSoundly_of_injOn (Quoted.injOn_write_of_unsplit unsplit)⟩
  intro sound key hk other ho h
  obtain ⟨shape, schema, eq, document, valid⟩ := sound [.arrayOf key, .arrayOf other] [] (by simp)
    (by simpa using ⟨⟨within_arrayOf hk, over_arrayOf key⟩, within_arrayOf ho, over_arrayOf other⟩)
  rw [inferSamples_arraysOf h] at eq
  cases eq
  exact eq_of_validates_arraysOf document (valid (.arrayOf other) (by simp))

/-- An array of two objects does not validate against the schema that is made of it. -/
theorem ofShape_splitPair_rejects :
    let array : Json := .arr [.obj [(.splitPair, .null)], .obj [(.wholePair, .null)]]
    inferSamples [array] = .ok (arraysOf .splitPair) ∧
      (Schema.ofShape [] (arraysOf .splitPair)).toOption.map (Schema.validates · array) =
        some false :=
  ⟨by decide +kernel, by decide +kernel⟩

end Shape

end JsonShapes
