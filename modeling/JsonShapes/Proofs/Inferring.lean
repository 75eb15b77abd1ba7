import JsonShapes.Proofs.Digits
import JsonShapes.Proofs.Fallible
import JsonShapes.Proofs.Grouping
import JsonShapes.Proofs.Records

/-!
# What inference does

`Inferred` relates a value to its shape, with one rule for each kind of value, and `Unified` relates
the elements of an array, each with its shape, to their one type. Inference never fails on values
whose objects repeat no key, and gives a related shape. All statements about inference are
inductions over this relation.

The texts of an inferred shape are keys and strings of the value or plain: a literal that was a
number or a boolean is spelled in plain code points.
-/

namespace JsonShapes

namespace Text

theorem IsPlain.append {s t : Text} (hs : s.IsPlain) (ht : t.IsPlain) : (s ++ t).IsPlain := by
  intro c hc
  rcases List.mem_append.mp hc with left | right
  · exact hs c left
  · exact ht c right

theorem IsPlain.take {t : Text} (h : t.IsPlain) (n : Nat) : IsPlain (t.take n) :=
  fun c hc => h c (List.mem_of_mem_take hc)

theorem IsPlain.drop {t : Text} (h : t.IsPlain) (n : Nat) : IsPlain (t.drop n) :=
  fun c hc => h c (List.mem_of_mem_drop hc)

theorem isPlain_replicate {c : CodePoint} (h : c.IsPlain) (n : Nat) :
    IsPlain (List.replicate n c) := by
  intro d hd
  rw [List.eq_of_mem_replicate hd]
  exact h

theorem IsDigits.isPlain {t : Text} (h : t.IsDigits) : t.IsPlain := by
  intro c hc
  have digit := h c hc
  simp only [CodePoint.isDigit, Bool.and_eq_true, decide_eq_true_eq] at digit
  simp only [CodePoint.IsPlain]
  omega

theorem isPlain_ofNat (n : Nat) : (ofNat n).IsPlain := (isDigits_ofNat n).isPlain

theorem isPlain_ofInt (n : Int) : (ofInt n).IsPlain := by
  cases n with
  | ofNat n => exact isPlain_ofNat n
  | negSucc n => exact IsPlain.append (s := ['-']) (by decide) (isPlain_ofNat (n + 1))

end Text

open Text in
theorem DecimalLayout.isPlain_write (layout : DecimalLayout) (d : Binary64.Decimal) :
    (layout.write d).IsPlain := by
  have digits := isPlain_ofNat d.coefficient
  have zeros : ∀ n, IsPlain (List.replicate n (CodePoint.ofChar '0')) :=
    isPlain_replicate (by decide)
  rw [write]
  dsimp only
  split
  · split
    · exact (IsPlain.append (by decide) (zeros _)).append digits
    · split
      · exact (digits.append (zeros _)).append (by decide)
      · exact ((digits.take _).append (by decide)).append (digits.drop _)
  · have sign : ∀ e : Int, IsPlain (if e < 0 then "e-" else "e+") := by
      intro e
      split <;> decide
    have fraction : ∀ n : Nat,
        IsPlain (if n ≤ 1 then [] else '.' :: (ofNat d.coefficient).drop 1) := by
      intro n
      split
      · decide
      · exact IsPlain.append (s := ['.']) (by decide) (digits.drop 1)
    exact ((((digits.take 1).append (fraction _)).append (sign _)).append (zeros _)).append
      (isPlain_ofNat _)

theorem Binary64.Finite.isPlain_text (x : Binary64.Finite) : x.text.IsPlain := by
  have magnitude : Text.IsPlain
      (if x.mantissa = 0 then Text.ofString "0.0" else DecimalLayout.plain.write x.shortest) := by
    split
    · decide
    · exact DecimalLayout.isPlain_write _ _
  rw [text]
  split
  · exact Text.IsPlain.append (s := ['-']) (by decide) magnitude
  · exact magnitude

namespace Json

theorem isPlain_literalType (j : Json) : j.literalType.IsPlain := by
  unfold literalType
  split <;> decide

/-- A value whose objects repeat no key, all of whose texts (keys and strings) and doubles are among
the given ones. -/
inductive Within (S : Set Text) (D : Set Binary64) : Json → Prop
  | null : Within S D .null
  | bool (b : Bool) : Within S D (.bool b)
  | int (n : Int) : Within S D (.int n)
  | double {x : Binary64} (listed : x ∈ D) : Within S D (.double x)
  | str {s : Text} (word : s ∈ S) : Within S D (.str s)
  | arr {items : List Json} (within : ∀ item ∈ items, Within S D item) : Within S D (.arr items)
  | obj {members : List (Text × Json)} (distinct : (Fields.keys members).Nodup)
      (words : ∀ m ∈ members, m.1 ∈ S) (within : ∀ m ∈ members, Within S D m.2) :
      Within S D (.obj members)

variable {S : Set Text} {D : Set Binary64}

theorem Within.of_get? {j : Json} (h : j.Within S D) {key : Text} {value : Json}
    (found : j.get? key = some value) : key ∈ S ∧ value.Within S D := by
  cases h with
  | obj distinct words within =>
      have member := Fields.mem_of_get?_eq_some found
      exact ⟨words _ member, within _ member⟩
  | _ => cases found

/-- The text of a literal is a string of the value or plain. -/
theorem Within.literalText {j : Json} (h : j.Within S D) {text : Text}
    (eq : j.literalText = some text) : text ∈ S ∪ {t | t.IsPlain} := by
  cases h with
  | bool b =>
      cases eq
      right
      cases b <;> decide
  | int n =>
      cases eq
      exact .inr (Text.isPlain_ofInt n)
  | double listed =>
      next x =>
        cases x with
        | finite x =>
            cases eq
            exact .inr x.isPlain_text
        | _ => cases eq
  | str word =>
      rw [Json.literalText] at eq
      split at eq
      · cases eq
      · cases eq
        exact .inl word
  | _ => cases eq

end Json

namespace Fields

variable {α : Type}

theorem mem_set {fields : List (Text × α)} {key : Text} {value : α} {f : Text × α}
    (h : f ∈ set fields key value) : f = (key, value) ∨ f ∈ fields := by
  induction fields with
  | nil => exact .inl (List.mem_singleton.mp h)
  | cons g fields ih =>
      rw [set] at h
      split at h
      · rcases List.mem_cons.mp h with here | later
        · exact .inl here
        · exact .inr (List.mem_cons_of_mem _ later)
      · rcases List.mem_cons.mp h with here | later
        · exact .inr (here ▸ List.mem_cons_self)
        · exact (ih later).imp id (List.mem_cons_of_mem _)

end Fields

open Discriminator

namespace Shape

/-- The variant of a tagged union for a group of rows. -/
def pinned (rows : List (Json × Shape)) (field : Text) (p : Partition) : Shape :=
  Unification.pin field (.literal (p.value.getD []) p.jsonType) (mergeAll (p.group rows))

/-- The elements of an array, given with their shapes, are of one type. -/
inductive Unified (rows : List (Json × Shape)) : Shape → Prop
  | nothing (empty : rows = []) : Unified rows .unknown
  | uniform {s : Shape} (single : unique (rows.map Prod.snd) = [s]) : Unified rows s
  | tagged {c : Candidate} (nonempty : rows ≠ []) (splits : c.Splits rows) :
      Unified rows (.union (some c.field) (c.partitions.map (pinned rows c.field)))
  | folded (nonempty : rows ≠ [])
      (records : ∀ s ∈ unique (rows.map Prod.snd), s.fields?.isSome = true) :
      Unified rows (mergeAll (unique (rows.map Prod.snd)))
  | alternatives (nonempty : rows ≠ []) (several : ∀ s, unique (rows.map Prod.snd) ≠ [s]) :
      Unified rows (.union none (unique (rows.map Prod.snd)))

/-- The shape of a value. -/
inductive Inferred : Json → Shape → Prop
  | null : Inferred .null .null
  | bool (b : Bool) : Inferred (.bool b) .boolean
  | int (n : Int) : Inferred (.int n) .number
  | finite (x : Binary64.Finite) : Inferred (.double (.finite x)) .number
  | notFinite {x : Binary64} (h : x.isFinite = false) : Inferred (.double x) .unknown
  | str (s : Text) : Inferred (.str s) .string
  | arr {rows : List (Json × Shape)} {element : Shape}
      (inferred : ∀ row ∈ rows, Inferred row.1 row.2) (unified : Unified rows element) :
      Inferred (.arr (rows.map Prod.fst)) (.array element)
  | obj {members : List (Text × Json × Shape)} (distinct : (members.map Prod.fst).Nodup)
      (inferred : ∀ m ∈ members, Inferred m.2.1 m.2.2) :
      Inferred (.obj (members.map fun m => (m.1, m.2.1)))
        (.object (members.map fun m => (m.1, m.2.2)))

variable {S : Set Text} {D : Set Binary64}

theorem Within.pin {field : Text} {literal s : Shape} (word : field ∈ S)
    (pinned : literal.Within S) (h : s.Within S) : (Unification.pin field literal s).Within S := by
  cases h with
  | object words within =>
      refine .object (fun f hf => ?_) fun f hf => ?_
      · rcases Fields.mem_set hf with rfl | old
        · exact word
        · exact words f old
      · rcases Fields.mem_set hf with rfl | old
        · exact pinned
        · exact within f old
  | scalar kind => exact .scalar kind
  | literal word typeWord => exact .literal word typeWord
  | optional within => exact .optional within
  | array within => exact .array within
  | union word within => exact .union word within

theorem Within.of_mem_group {rows : List (Json × Shape)} (within : ∀ row ∈ rows, row.2.Within S)
    {p : Partition} {s : Shape} (h : s ∈ p.group rows) : s.Within S := by
  obtain ⟨i, -, eq⟩ := List.mem_filterMap.mp h
  obtain ⟨row, hr, rfl⟩ := List.mem_map.mp (List.mem_of_getElem? eq)
  exact within row hr

theorem Unified.within {rows : List (Json × Shape)} {element : Shape} (h : Unified rows element)
    (values : ∀ row ∈ rows, row.1.Within S D)
    (shapes : ∀ row ∈ rows, row.2.Within (S ∪ {t | t.IsPlain})) :
    element.Within (S ∪ {t | t.IsPlain}) := by
  have listed : ∀ s ∈ unique (rows.map Prod.snd), s.Within (S ∪ {t | t.IsPlain}) :=
    Within.unique (List.forall_mem_map.mpr shapes)
  cases h with
  | nothing empty => exact .scalar .unknown
  | uniform single => exact listed _ (single ▸ List.mem_singleton.mpr rfl)
  | tagged nonempty splits =>
      next c =>
        refine .union ?_ ?_
        · rintro _ ⟨⟩
          obtain ⟨row, hr⟩ := List.exists_mem_of_ne_nil rows nonempty
          obtain ⟨p, -, value, filed⟩ := splits.exists_filed hr
          exact .inl ((values row hr).of_get? filed.held).1
        · intro s hs
          obtain ⟨p, hp, rfl⟩ := List.mem_map.mp hs
          obtain ⟨row, value, filed, typed⟩ := splits.exists_typed hp
          obtain ⟨word, held⟩ := (values row filed.listed).of_get? filed.held
          refine .pin (.inl word) (.literal (held.literalText filed.text) ?_) ?_
          · exact .inr (typed ▸ value.isPlain_literalType)
          · exact Within.mergeAll fun t ht => Within.of_mem_group shapes ht
  | folded nonempty => exact Within.mergeAll listed
  | alternatives nonempty => exact .union (by simp) listed

/-- Inference adds no texts but plain ones. -/
theorem Inferred.within {v : Json} {s : Shape} (h : Inferred v s) (values : v.Within S D) :
    s.Within (S ∪ {t | t.IsPlain}) := by
  induction h with
  | arr inferred unified ih =>
      cases values with
      | arr values =>
          have values := List.forall_mem_map.mp values
          exact .array (unified.within values fun row hr => ih row hr (values row hr))
  | obj distinct inferred ih =>
      cases values with
      | obj _ words values =>
          refine .object (List.forall_mem_map.mpr fun m hm => ?_)
            (List.forall_mem_map.mpr fun m hm => ?_)
          · exact .inl (words _ (List.mem_map.mpr ⟨m, hm, rfl⟩))
          · exact ih m hm (values _ (List.mem_map.mpr ⟨m, hm, rfl⟩))
  | _ => exact .scalar _

/-- The elements of an array are inferred one by one. -/
theorem exists_inferAll {items : List Json}
    (h : ∀ item ∈ items, ∃ s, infer item = .ok s ∧ Inferred item s) :
    ∃ rows : List (Json × Shape), items = rows.map Prod.fst ∧
      inferAll items = .ok (rows.map Prod.snd) ∧
      ∀ row ∈ rows, infer row.1 = .ok row.2 ∧ Inferred row.1 row.2 := by
  induction items with
  | nil => exact ⟨[], rfl, rfl, by simp⟩
  | cons item items ih =>
      obtain ⟨s, eq, inferred⟩ := h item List.mem_cons_self
      obtain ⟨rows, rfl, eqs, inferreds⟩ := ih fun i hi => h i (List.mem_cons_of_mem _ hi)
      refine ⟨(item, s) :: rows, rfl, ?_, List.forall_mem_cons.mpr ⟨⟨eq, inferred⟩, inferreds⟩⟩
      rw [inferAll, eq, eqs]
      rfl

/-- The members of an object are inferred one by one. -/
theorem exists_inferMembers {members : List (Text × Json)}
    (h : ∀ m ∈ members, ∃ s, infer m.2 = .ok s ∧ Inferred m.2 s) :
    ∃ rows : List (Text × Json × Shape), members = rows.map (fun m => (m.1, m.2.1)) ∧
      inferMembers members = .ok (rows.map fun m => (m.1, m.2.2)) ∧
      ∀ m ∈ rows, Inferred m.2.1 m.2.2 := by
  induction members with
  | nil => exact ⟨[], rfl, rfl, by simp⟩
  | cons m members ih =>
      obtain ⟨s, eq, inferred⟩ := h m List.mem_cons_self
      obtain ⟨rows, rfl, eqs, inferreds⟩ := ih fun i hi => h i (List.mem_cons_of_mem _ hi)
      refine ⟨(m.1, m.2, s) :: rows, rfl, ?_, List.forall_mem_cons.mpr ⟨inferred, inferreds⟩⟩
      rw [inferMembers, eq, eqs]
      rfl

/-- Only objects hold keys, and the shape of an object is a record. -/
theorem Inferred.isSome_fields? {v : Json} {s : Shape} (h : Inferred v s) {key : Text}
    {value : Json} (held : v.get? key = some value) : s.fields?.isSome = true := by
  cases h with
  | obj distinct inferred => rfl
  | _ => cases held

/-- The shapes of a group are records. -/
theorem isSome_fields?_of_mem_group {rows : List (Json × Shape)}
    (inferred : ∀ row ∈ rows, Inferred row.1 row.2) {c : Candidate} (splits : c.Splits rows)
    {p : Partition} (hp : p ∈ c.partitions) {s : Shape} (hs : s ∈ p.group rows) :
    s.fields?.isSome = true := by
  obtain ⟨row, value, rfl, filed⟩ := splits.filed_of_mem_group hp hs
  exact (inferred row filed.listed).isSome_fields? filed.held

theorem variant_eq_ok {rows : List (Json × Shape)} (inferred : ∀ row ∈ rows, Inferred row.1 row.2)
    (within : ∀ row ∈ rows, row.2.Within S) {c : Candidate} (splits : c.Splits rows)
    {p : Partition} (hp : p ∈ c.partitions) :
    Unification.variant (rows.map Prod.snd) c.field p = .ok (pinned rows c.field p) := by
  have merged := mergeRecords_eq_ok (splits.group_ne_nil hp)
    (fun s hs => Within.of_mem_group within hs)
    fun s hs => isSome_fields?_of_mem_group inferred splits hp hs
  rw [Partition.group] at merged
  rw [Unification.variant, merged]
  rfl

/-- How the elements of an array are unified. -/
theorem exists_unification {rows : List (Json × Shape)} (nonempty : rows ≠ [])
    (within : ∀ row ∈ rows, row.2.Within S) :
    ∃ u, Unification.of (rows.map Prod.fst) (rows.map Prod.snd) = .ok u ∧
      ((∃ s, unique (rows.map Prod.snd) = [s] ∧ u = .uniform s) ∨
        (∃ c : Candidate, c.Splits rows ∧ u = .tagged c) ∨
        ((∀ s ∈ unique (rows.map Prod.snd), s.fields?.isSome = true) ∧
          u = .folded (unique (rows.map Prod.snd))) ∨
        ((∀ s, unique (rows.map Prod.snd) ≠ [s]) ∧
          u = .alternatives (unique (rows.map Prod.snd)))) := by
  have distinct : unique? (rows.map Prod.snd) = .ok (unique (rows.map Prod.snd)) := by
    rw [unique?, checkAll_eq_ok _ (List.forall_mem_map.mpr within)]
  rw [Unification.of, if_neg (by simpa using nonempty), distinct]
  generalize unique (rows.map Prod.snd) = shapes
  obtain ⟨found, eq, splits⟩ :=
    exists_find (fun row hr => (within row hr).foreign?_eq_none) shapes.length
  split
  · next failed => cases failed
  · next only single =>
      cases single
      exact ⟨_, rfl, .inl ⟨only, rfl, rfl⟩⟩
  · next distinct several same =>
      cases same
      rw [eq]
      cases found with
      | some c => exact ⟨_, rfl, .inr (.inl ⟨c, splits c rfl, rfl⟩)⟩
      | none =>
          dsimp only
          split
          · next records =>
              exact ⟨_, rfl, .inr (.inr (.inl ⟨List.all_eq_true.mp records, rfl⟩))⟩
          · exact ⟨_, rfl, .inr (.inr (.inr ⟨several, rfl⟩))⟩

/-- Unifying the elements of an array succeeds. -/
theorem exists_unified {rows : List (Json × Shape)} (inferred : ∀ row ∈ rows, Inferred row.1 row.2)
    (within : ∀ row ∈ rows, row.2.Within S) :
    ∃ element, unify (rows.map Prod.fst) (rows.map Prod.snd) = .ok element ∧
      Unified rows element := by
  by_cases empty : rows = []
  · exact ⟨.unknown, by rw [empty]; rfl, .nothing empty⟩
  obtain ⟨u, eq, cases⟩ := exists_unification empty within
  rw [unify, eq]
  rcases cases with ⟨s, single, rfl⟩ | ⟨c, splits, rfl⟩ | ⟨records, rfl⟩ | ⟨several, rfl⟩
  · exact ⟨s, rfl, .uniform single⟩
  · refine ⟨_, ?_, .tagged empty splits⟩
    have variants := mapM_eq_ok fun p hp => variant_eq_ok inferred within splits hp
    change Unification.shape _ (.tagged c) = _
    rw [Unification.shape, variants]
    rfl
  · refine ⟨_, ?_, .folded empty records⟩
    apply mergeRecords_eq_ok
    · exact unique_ne_nil (by simpa using empty)
    · exact Within.unique (List.forall_mem_map.mpr within)
    · exact records
  · exact ⟨_, rfl, .alternatives empty several⟩

/-- Inference succeeds on values whose objects repeat no key. -/
theorem exists_inferred {v : Json} (h : v.Within S D) :
    ∃ s, infer v = .ok s ∧ Inferred v s := by
  induction h with
  | null => exact ⟨_, rfl, .null⟩
  | bool b => exact ⟨_, rfl, .bool b⟩
  | int n => exact ⟨_, rfl, .int n⟩
  | double listed =>
      next x =>
        cases x with
        | finite x => exact ⟨_, rfl, .finite x⟩
        | _ => exact ⟨_, rfl, .notFinite rfl⟩
  | str word => exact ⟨_, rfl, .str _⟩
  | arr within ih =>
      obtain ⟨rows, rfl, eq, each⟩ := exists_inferAll ih
      have inferred : ∀ row ∈ rows, Inferred row.1 row.2 := fun row hr => (each row hr).2
      have values := List.forall_mem_map.mp within
      obtain ⟨element, unified, related⟩ := exists_unified inferred fun row hr =>
        (inferred row hr).within (values row hr)
      refine ⟨.array element, ?_, .arr inferred related⟩
      rw [infer, eq]
      change (unify _ _ >>= _) = _
      rw [unified]
      rfl
  | obj distinct words within ih =>
      obtain ⟨rows, rfl, eq, inferred⟩ := exists_inferMembers ih
      rw [Fields.keys, List.map_map] at distinct
      refine ⟨_, ?_, .obj distinct inferred⟩
      rw [infer, eq]
      apply ofFields_eq_ok
      rw [Fields.keys, List.map_map]
      exact distinct

/-- Inferring samples succeeds: each has its shape, and the shapes are merged. -/
theorem exists_inferSamples {samples : List Json} (nonempty : samples ≠ [])
    (within : ∀ v ∈ samples, v.Within S D) :
    ∃ rows : List (Json × Shape), samples = rows.map Prod.fst ∧
      (∀ row ∈ rows, infer row.1 = .ok row.2 ∧ Inferred row.1 row.2) ∧
      (∀ s ∈ rows.map Prod.snd, s.Within (S ∪ {t | t.IsPlain})) ∧
      inferSamples samples = .ok (mergeAll (rows.map Prod.snd)) := by
  obtain ⟨rows, rfl, eq, inferred⟩ := exists_inferAll fun v hv => exists_inferred (within v hv)
  have values := List.forall_mem_map.mp within
  have shapes : ∀ s ∈ rows.map Prod.snd, s.Within (S ∪ {t | t.IsPlain}) :=
    List.forall_mem_map.mpr fun row hr => (inferred row hr).2.within (values row hr)
  refine ⟨rows, rfl, inferred, shapes, ?_⟩
  rw [inferSamples, if_neg (by simpa using nonempty), eq]
  exact mergeShapes_eq_ok (by simpa using nonempty) shapes

end Shape

end JsonShapes
