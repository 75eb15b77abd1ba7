import JsonShapes.Proofs.MergedParts
import JsonShapes.Proofs.WellFormedness

/-!
# Trees as they are built

A record is not built with a key twice, nor an option directly around another one. What is inferred
is such a tree, and so is every part of one, what it holds at a key and what several of them merge
into. Unions may have any variants here, so that this is weaker than being well-formed.
-/

namespace JsonShapes

namespace Shape

/-- A tree as it is built: no record repeats a key, no option stands directly below another one,
and there are no foreign leaves. -/
inductive Built : Shape → Prop
  | scalar (kind : Scalar) : Built (.scalar kind)
  | literal (value jsonType : Text) : Built (.literal value jsonType)
  | optional {inner : Shape} (single : inner.isOptional = false) (below : Built inner) :
      Built (.optional inner)
  | object {fields : List (Text × Shape)} (distinct : (Fields.keys fields).Nodup)
      (below : ∀ f ∈ fields, Built f.2) : Built (.object fields)
  | array {element : Shape} (below : Built element) : Built (.array element)
  | union {discriminator : Option Text} {variants : List Shape}
      (below : ∀ s ∈ variants, Built s) : Built (.union discriminator variants)

namespace Built

theorem unwrap {s : Shape} (h : s.Built) : s.unwrap.Built := by
  cases h with
  | optional single below => exact below
  | scalar kind => exact .scalar kind
  | literal value jsonType => exact .literal value jsonType
  | object distinct below => exact .object distinct below
  | array below => exact .array below
  | union below => exact .union below

theorem within {s : Shape} (h : s.Built) : s.Within .univ := by
  induction h with
  | scalar kind => exact .scalar kind
  | literal value jsonType => exact .literal trivial trivial
  | optional single below ih => exact .optional ih
  | object distinct below ih => exact .object (fun _ _ => trivial) ih
  | array below ih => exact .array ih
  | union below ih => exact .union (fun _ _ => trivial) ih

/-- A property that is wrapped again is as it was. -/
theorem asOptional_unwrap {s : Shape} (h : s.Built) (optional : s.isOptional = true) :
    s.unwrap.asOptional = s := by
  cases h with
  | optional single below => exact congrArg Shape.optional (required_eq_self single)
  | _ => cases optional

theorem isOptional_unwrap {s : Shape} (h : s.Built) : s.unwrap.isOptional = false := by
  cases h with
  | optional single below => exact single
  | _ => rfl

theorem required_eq {s : Shape} (h : s.Built) : s.required = s.unwrap := by
  cases h with
  | optional single below => exact required_eq_self single
  | _ => rfl

theorem asOptional {s : Shape} (h : s.Built) : s.asOptional.Built := by
  rw [Shape.asOptional, h.required_eq]
  exact .optional h.isOptional_unwrap h.unwrap

theorem of_mem_alternatives {s t : Shape} (h : s.Built) (member : t ∈ alternatives s) :
    t.Built := by
  rcases mem_alternatives member with rfl | ⟨variants, rfl, listed⟩
  · exact h
  · cases h with
    | union below => exact below t listed

theorem of_get? {fields : List (Text × Shape)} (h : (Shape.object fields).Built) {key : Text}
    {s : Shape} (found : Fields.get? fields key = some s) : s.Built := by
  cases h with
  | object distinct below => exact below _ (Fields.mem_of_get?_eq_some found)

theorem heldAt {records : List (List (Text × Shape))}
    (built : ∀ s ∈ records.map Shape.object, s.Built) (key : Text) :
    ∀ s ∈ heldAt records key, s.Built ∧ s.isOptional = false := by
  intro s hs
  obtain ⟨fields, hf, t, found, rfl⟩ := mem_valuesAt_unwrap.1 hs
  have below := (built _ (List.mem_map.2 ⟨fields, hf, rfl⟩)).of_get? found
  exact ⟨below.unwrap, below.isOptional_unwrap⟩

theorem of_arrays {elements : List Shape} (built : ∀ s ∈ elements.map Shape.array, s.Built) :
    ∀ e ∈ elements, e.Built := by
  intro e he
  cases built _ (List.mem_map.2 ⟨e, he, rfl⟩) with
  | array below => exact below

/-- Trees merge into a tree. -/
theorem mergeAll {shapes : List Shape} (built : ∀ s ∈ shapes, s.Built) :
    (mergeAll shapes).Built := by
  induction shapes using mergeInduction with
  | records records ih =>
      rw [mergeAll_objects]
      apply Built.object
      · rw [keys_mergedFields]
        exact Fields.nodup_union _
      · refine List.forall_mem_map.2 fun key hk => ?_
        have merged := ih key hk fun s hs => (heldAt built key s hs).1
        by_cases lax : Lax records key
        · rw [mergedAt_of_lax lax]
          exact merged.asOptional
        · rw [mergedAt_of_not_lax lax]
          exact merged
  | only shapes s hr single =>
      rw [mergeAll_of_unique hr single]
      exact built s (mem_of_unique_eq_singleton single)
  | elements shapes elements hr several arrays ih =>
      rw [mergeAll_of_elements hr several (elements?_eq_some_iff.2 arrays)]
      have below := of_arrays (arrays ▸ fun s hs => built s (mem_of_mem_unique hs))
      exact .array (ih fun e he => below e (mem_of_mem_informative he))
  | distinct shapes hr several he =>
      rw [mergeAll_of_distinct hr several he]
      refine untagged_induction (fun s hs t member => ?_) fun _ => .union
      exact (built s (mem_of_mem_unique hs)).of_mem_alternatives member

end Built

theorem WellFormed.built {L : Set (Text × Text)} {s : Shape} (h : s.WellFormed L) : s.Built := by
  induction h with
  | scalar kind => exact .scalar kind
  | literal listed => exact .literal _ _
  | object distinct wellFormed ih =>
      refine .object distinct fun f hf => ?_
      have below := ih f hf
      have single := (wellFormed f hf).isOptional_eq_false
      cases shape : f.2 with
      | optional inner =>
          rw [shape] at below single
          exact .optional single below
      | _ =>
          rw [shape] at below
          exact below
  | array wellFormed ih => exact .array ih
  | untagged several distinct flat wellFormed ih => exact .union ih
  | tagged several distinct pinned apart wellFormed ih => exact .union ih

end Shape

end JsonShapes
