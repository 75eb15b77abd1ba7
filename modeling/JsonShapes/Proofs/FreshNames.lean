import JsonShapes.Naming
import JsonShapes.Proofs.Digits
import Mathlib.Data.List.Nodup
import Mathlib.Data.List.Perm.Subperm

/-!
# Fresh names

The name of a type is an identifier, so that it can also be the name of a file. A fresh name is not
in use: the candidates differ from each other and are one more than the names in use.
-/

namespace JsonShapes

theorem Text.ofNat_injective : Function.Injective ofNat := by
  intro m n same
  rw [← toNat_ofNat m, same, toNat_ofNat]

namespace Naming

/-- All code points may stand in an identifier. -/
def IsIdentifier (name : Text) : Prop := ∀ c ∈ name, isIdentifierPoint c = true

theorem IsIdentifier.append {s t : Text} (hs : IsIdentifier s) (ht : IsIdentifier t) :
    IsIdentifier (s ++ t) := by
  intro c hc
  rcases List.mem_append.mp hc with left | right
  · exact hs c left
  · exact ht c right

theorem isIdentifier_safeIdentifier (name : Text) : IsIdentifier (safeIdentifier name) := by
  have safe : IsIdentifier
      (name.map fun c : CodePoint => if isIdentifierPoint c then c else '_') := by
    refine List.forall_mem_map.mpr fun c _ => ?_
    split
    · assumption
    · decide
  have underscore : IsIdentifier ['_'] := by
    rw [IsIdentifier, List.forall_mem_singleton]
    decide
  simp only [safeIdentifier]
  split
  · exact underscore
  · split
    · exact underscore.append safe
    · exact safe

theorem isIdentifier_ofNat (n : Nat) : IsIdentifier (Text.ofNat n) := by
  intro c hc
  have digit := Text.isDigits_ofNat n c hc
  simp [isIdentifierPoint, CodePoint.isAlphanumeric, digit]

theorem isIdentifier_baseName (path : Text) : IsIdentifier (baseName path) := by
  unfold baseName
  split
  · exact isIdentifier_safeIdentifier _
  · exact isIdentifier_safeIdentifier _

theorem mem_candidates_of_fresh (used : List Text) (base : Text) :
    fresh used base ∈ base :: numbered base used.length := by
  unfold fresh
  cases found : (base :: numbered base used.length).find? fun name => decide (name ∉ used) with
  | none => exact List.mem_cons_self
  | some name => exact List.mem_of_find?_eq_some found

theorem isIdentifier_fresh (used : List Text) {base : Text} (h : IsIdentifier base) :
    IsIdentifier (fresh used base) := by
  rcases List.mem_cons.mp (mem_candidates_of_fresh used base) with same | later
  · rwa [same]
  · obtain ⟨k, -, eq⟩ := List.mem_map.mp later
    rw [← eq]
    exact h.append (isIdentifier_ofNat _)

theorem nodup_candidates (base : Text) (count : Nat) : (base :: numbered base count).Nodup := by
  rw [List.nodup_cons]
  constructor
  · intro listed
    obtain ⟨k, -, same⟩ := List.mem_map.mp listed
    exact Text.ofNat_ne_nil _ (List.append_right_eq_self.mp same)
  · refine List.nodup_range.map fun k l same => ?_
    have numbers := Text.ofNat_injective (List.append_cancel_left same)
    omega

/-- A fresh name is not in use. -/
theorem fresh_notMem (used : List Text) (base : Text) : fresh used base ∉ used := by
  unfold fresh
  cases found : (base :: numbered base used.length).find? fun name => decide (name ∉ used) with
  | some name => simpa using List.find?_some found
  | none =>
      -- all candidates are in use, and they are too many for that
      exfalso
      have allUsed : base :: numbered base used.length ⊆ used := by
        intro name listed
        simpa using List.find?_eq_none.mp found name listed
      have count := ((nodup_candidates base used.length).subperm allUsed).length_le
      rw [numbered, List.length_cons, List.length_map, List.length_range] at count
      omega

end Naming

end JsonShapes
