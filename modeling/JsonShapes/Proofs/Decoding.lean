import JsonShapes.Proofs.Exclusivity
import Mathlib.Data.Nat.Digits.Defs

/-!
# The values of documents

Reading a document gives a value whose objects repeat no key, since a repeated one takes the place
of the first, and whose integers have no more digits than a reader accepts. Doubles that are not
finite and texts with lone surrogates may occur in it. Each step of the reader keeps to such values,
and so does the whole.
-/

namespace JsonShapes

namespace Text

theorem IsDigits.toNat_lt {t : Text} (h : t.IsDigits) : toNat t < 10 ^ t.length := by
  induction t with
  | nil => decide
  | cons c t ih =>
      have rest : IsDigits t := fun d hd => h d (List.mem_cons_of_mem c hd)
      have digit : c.val - 0x30 ≤ 9 := by
        have range := h c List.mem_cons_self
        simp only [CodePoint.isDigit, Bool.and_eq_true, decide_eq_true_eq] at range
        omega
      have first : toNat [c] = c.val - 0x30 := Nat.zero_add _
      have below := ih rest
      rw [← List.singleton_append, toNat_append, first, List.length_append, List.length_singleton,
        Nat.pow_add]
      nlinarith [Nat.mul_le_mul_right (10 ^ t.length) digit]

/-- A number has no more digits than any run of digits that it is read from. -/
theorem length_ofNat_toNat_le {t : Text} (h : t.IsDigits) (nonempty : t ≠ []) :
    (ofNat (toNat t)).length ≤ t.length := by
  rw [ofNat, List.length_map]
  exact Nat.toDigits_length 10 _ _ (List.length_pos_iff.mpr nonempty) h.toNat_lt

end Text

namespace Json

/-- The objects in the value repeat no key, and its integers are short enough to be read. -/
inductive Decodable : Json → Prop
  | null : Decodable .null
  | bool (b : Bool) : Decodable (.bool b)
  | int {n : Int} (short : (Text.ofNat n.natAbs).length ≤ Text.maxDigits) : Decodable (.int n)
  | double (x : Binary64) : Decodable (.double x)
  | str (s : Text) : Decodable (.str s)
  | arr {items : List Json} (decodable : ∀ item ∈ items, Decodable item) : Decodable (.arr items)
  | obj {members : List (Text × Json)} (distinct : (Fields.keys members).Nodup)
      (decodable : ∀ m ∈ members, Decodable m.2) : Decodable (.obj members)

theorem decodable_empty : (Json.obj []).Decodable := .obj List.nodup_nil (by simp)

theorem Decodable.set {members : List (Text × Json)} (h : (Json.obj members).Decodable)
    (key : Text) {value : Json} (decodable : value.Decodable) :
    (Json.obj (Fields.set members key value)).Decodable := by
  cases h with
  | obj distinct others =>
      constructor
      · exact Fields.nodup_keys_set distinct key value
      · intro m hm
        rcases Fields.mem_set hm with rfl | old
        · exact decodable
        · exact others m old

theorem decodable_of_mem_words {w : Text × Json} (h : w ∈ words) : w.2.Decodable := by
  simp only [words, List.mem_cons, List.not_mem_nil, or_false] at h
  rcases h with rfl | rfl | rfl | rfl | rfl | rfl <;> constructor

theorem decodable_of_word? {s rest : Text} {v : Json} (h : word? s = some (v, rest)) :
    v.Decodable := by
  obtain ⟨w, listed, found⟩ := List.exists_of_findSome?_eq_some h
  obtain ⟨after, -, same⟩ := Option.map_eq_some_iff.mp found
  cases same
  exact decodable_of_mem_words listed

theorem isDigits_of_wholeDigits? {s whole rest : Text} (h : wholeDigits? s = some (whole, rest)) :
    whole.IsDigits ∧ whole ≠ [] := by
  cases s with
  | nil => cases h
  | cons c s =>
      rw [wholeDigits?] at h
      split at h
      · next zero =>
          cases h
          subst zero
          exact ⟨by simp [Text.IsDigits]; decide, List.cons_ne_nil _ _⟩
      · split at h
        · next digit =>
            cases h
            refine ⟨fun d hd => ?_, List.cons_ne_nil _ _⟩
            rcases List.mem_cons.mp hd with rfl | later
            · exact digit
            · exact List.all_eq_true.mp List.all_takeWhile d later
        · cases h

/-- A number without fraction and exponent is an integer with no more digits than were read. -/
theorem decodable_of_readNumber {negative : Bool} {start s rest : Text} {v : Json}
    (h : readNumber negative start s = .ok (v, rest)) : v.Decodable := by
  unfold readNumber at h
  split at h
  · cases h
  · next whole after digits =>
      split at h
      · split at h
        · cases h
        · next short =>
            cases h
            obtain ⟨isDigits, nonempty⟩ := isDigits_of_wholeDigits? digits
            have length := Text.length_ofNat_toNat_le isDigits nonempty
            have magnitude : (if negative = true then -(Text.toNat whole : Int)
                else Text.toNat whole).natAbs = Text.toNat whole := by
              split <;> simp
            exact .int (by rw [magnitude]; omega)
      · cases h
        exact .double _

theorem decodable_of_readScalar {s rest : Text} {v : Json} (h : readScalar s = .ok (v, rest)) :
    v.Decodable := by
  unfold readScalar at h
  split at h
  · next word =>
      cases h
      exact decodable_of_word? word
  · split at h
    · split at h
      · exact decodable_of_readNumber h
      · exact decodable_of_readNumber h
    · cases h

/-- With the given fuel, nothing but such values is read. -/
structure DecodesAt (fuel : Nat) : Prop where
  value : ∀ {s rest : Text} {v : Json}, readValue fuel s = .ok (v, rest) → v.Decodable
  items : ∀ {s rest : Text} {items : List Json}, readItems fuel s = .ok (items, rest) →
    ∀ item ∈ items, item.Decodable
  members : ∀ {before members : List (Text × Json)} {s rest : Text},
    (Json.obj before).Decodable → readMembers fuel before s = .ok (members, rest) →
    (Json.obj members).Decodable

variable {fuel : Nat}

theorem DecodesAt.value_succ (ih : DecodesAt fuel) {s rest : Text} {v : Json}
    (h : readValue (fuel + 1) s = .ok (v, rest)) : v.Decodable := by
  cases s with
  | nil => cases h
  | cons c s =>
      rw [readValue] at h
      split at h
      · split at h
        · cases h
        · cases h
          exact .str _
      split at h
      · split at h
        · cases h
        · split at h
          · cases h
            exact .arr (by simp)
          · split at h
            · cases h
            · next read =>
                cases h
                exact .arr (ih.items read)
      split at h
      · split at h
        · cases h
        · split at h
          · cases h
            exact decodable_empty
          · split at h
            · cases h
            · next read =>
                cases h
                exact ih.members decodable_empty read
      · exact decodable_of_readScalar h

theorem DecodesAt.items_succ (ih : DecodesAt fuel) {s rest : Text} {items : List Json}
    (h : readItems (fuel + 1) s = .ok (items, rest)) : ∀ item ∈ items, item.Decodable := by
  rw [readItems] at h
  split at h
  · cases h
  · next first _ read =>
      split at h
      · cases h
      split at h
      · cases h
        exact List.forall_mem_singleton.mpr (ih.value read)
      split at h
      · split at h
        · cases h
        · next others =>
            cases h
            exact List.forall_mem_cons.mpr ⟨ih.value read, ih.items others⟩
      · cases h

theorem DecodesAt.members_succ (ih : DecodesAt fuel) {before members : List (Text × Json)}
    {s rest : Text} (done : (Json.obj before).Decodable)
    (h : readMembers (fuel + 1) before s = .ok (members, rest)) :
    (Json.obj members).Decodable := by
  cases s with
  | nil => cases h
  | cons c s =>
      rw [readMembers] at h
      split at h
      · split at h
        · cases h
        · next key _ _ =>
            split at h
            · cases h
            split at h
            · split at h
              · cases h
              · next read =>
                  have added := done.set key (ih.value read)
                  split at h
                  · cases h
                  split at h
                  · cases h
                    exact added
                  split at h
                  · exact ih.members added h
                  · cases h
            · cases h
      · cases h

theorem decodesAt (fuel : Nat) : DecodesAt fuel := by
  induction fuel with
  | zero =>
      constructor
      · intro s rest v h
        cases h
      · intro s rest items h
        cases h
      · intro before members s rest done h
        cases h
  | succ fuel ih => exact ⟨ih.value_succ, ih.items_succ, ih.members_succ⟩

/-- Documents hold no other values. -/
theorem decodable_of_parse {s : Text} {v : Json} (h : parse s = .ok v) : v.Decodable := by
  have document : readDocument s = .ok v := by
    unfold parse at h
    split at h
    · next read =>
        cases h
        exact read
    · cases h
    · cases h
  unfold readDocument at document
  split at document
  · split at document
    · cases document
    split at document
    · cases document
    · next read =>
        split at document
        · cases document
          exact (decodesAt _).value read
        · cases document
  · cases document

theorem Decodable.within {v : Json} (h : v.Decodable) : v.Within .univ .univ := by
  induction h with
  | null => exact .null
  | bool b => exact .bool b
  | int short => exact .int _
  | double x => exact .double trivial
  | str s => exact .str trivial
  | arr decodable ih => exact .arr ih
  | obj distinct decodable ih => exact .obj distinct (fun _ _ => trivial) ih

theorem Decodable.of_inside {w v : Json} (inside : Inside w v) (h : v.Decodable) :
    w.Decodable := by
  induction inside with
  | here => exact h
  | item listed inside ih =>
      cases h with
      | arr decodable => exact ih (decodable _ listed)
  | member listed inside ih =>
      cases h with
      | obj distinct decodable => exact ih (decodable _ listed)

/-- The literals of such a value read back as the values that they stand for. -/
theorem Decodable.literals_subset {v : Json} (h : v.Decodable) :
    v.literals ⊆ literalsOver numerals := by
  rintro l ⟨w, inside, text, type⟩
  refine ⟨w, fun number => ?_, text, type⟩
  cases h.of_inside inside with
  | int short => exact .inl ⟨_, rfl, short⟩
  | double x =>
      cases x with
      | finite x => exact .inr ⟨x, rfl⟩
      | _ => cases text
  | _ => cases number

end Json

end JsonShapes
