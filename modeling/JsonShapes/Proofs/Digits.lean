import JsonShapes.Text.Basic
import Mathlib.Tactic.Ring

/-!
# Decimal digits

The digits of a natural number read as the number, and those of a positive one do not start with a
zero.
-/

namespace JsonShapes

namespace Text

theorem ofNat_ne_nil (n : Nat) : ofNat n ≠ [] := by
  intro empty
  rw [ofNat, List.map_eq_nil_iff] at empty
  exact Nat.toDigits_ne_nil empty

/-- A run of the digits `0` to `9`. -/
def IsDigits (t : Text) : Prop := ∀ c ∈ t, c.isDigit = true

theorem IsDigits.append {s t : Text} (hs : s.IsDigits) (ht : t.IsDigits) : (s ++ t).IsDigits := by
  intro c hc
  rcases List.mem_append.mp hc with left | right
  · exact hs c left
  · exact ht c right

theorem IsDigits.take {t : Text} (h : t.IsDigits) (n : Nat) : IsDigits (t.take n) :=
  fun c hc => h c (List.mem_of_mem_take hc)

theorem IsDigits.drop {t : Text} (h : t.IsDigits) (n : Nat) : IsDigits (t.drop n) :=
  fun c hc => h c (List.mem_of_mem_drop hc)

theorem isDigits_zeros (n : Nat) : IsDigits (List.replicate n (CodePoint.ofChar '0')) := by
  intro c hc
  rw [List.eq_of_mem_replicate hc]
  decide

theorem isDigits_ofNat (n : Nat) : (ofNat n).IsDigits := by
  intro c hc
  obtain ⟨digit, member, rfl⟩ := List.mem_map.mp hc
  have range := Nat.isDigit_of_mem_toDigits (by decide) (by decide) member
  simp only [Char.isDigit, Bool.and_eq_true, decide_eq_true_eq, ge_iff_le, UInt32.le_iff_toNat_le]
    at range
  have low : 48 ≤ digit.toNat := range.1
  have high : digit.toNat ≤ 57 := range.2
  simp [CodePoint.isDigit, low, high]

theorem toNat_append (s t : Text) : toNat (s ++ t) = toNat s * 10 ^ t.length + toNat t := by
  have shift : ∀ (n : Nat) (t : Text),
      t.foldl (fun n c => 10 * n + (c.val - 0x30)) n = n * 10 ^ t.length + toNat t := by
    intro n t
    induction t generalizing n with
    | nil => simp [toNat]
    | cons c t ih =>
        rw [toNat, List.foldl_cons, List.foldl_cons, ih, ih (10 * 0 + _), List.length_cons,
          Nat.pow_succ]
        ring
  rw [toNat, List.foldl_append]
  exact shift _ t

theorem toNat_zeros (n : Nat) : toNat (List.replicate n (CodePoint.ofChar '0')) = 0 := by
  induction n with
  | zero => rfl
  | succ n ih =>
      have zero : toNat [CodePoint.ofChar '0'] = 0 := by decide
      rw [List.replicate_succ, ← List.singleton_append, toNat_append, ih, zero, Nat.zero_mul]

theorem toNat_digitChar {d : Nat} (h : d < 10) : toNat [CodePoint.ofChar d.digitChar] = d := by
  have table : ∀ d < 10, toNat [CodePoint.ofChar d.digitChar] = d := by decide
  exact table d h

@[simp] theorem toNat_ofNat (n : Nat) : toNat (ofNat n) = n := by
  induction n using Nat.strong_induction_on with
  | _ n ih =>
      by_cases small : n < 10
      · rw [ofNat, Nat.toDigits_of_lt_base small]
        exact toNat_digitChar small
      · have split : ofNat n = ofNat (n / 10) ++ [CodePoint.ofChar (n % 10).digitChar] := by
          rw [ofNat, Nat.toDigits_of_base_le (by decide) (by omega), List.map_append]
          rfl
        rw [split, toNat_append, ih (n / 10) (by omega), toNat_digitChar (Nat.mod_lt n (by decide)),
          List.length_singleton]
        omega

/-- Digits as they stand before a point: a lone zero, or digits that do not start with one. -/
inductive IsWhole : Text → Prop
  | zero : IsWhole [CodePoint.ofChar '0']
  | digits {c : CodePoint} {t : Text} (first : c ≠ '0') (digit : c.isDigit = true)
      (rest : IsDigits t) : IsWhole (c :: t)

/-- The digits of a positive number do not start with a zero. -/
theorem exists_ofNat_eq_cons {n : Nat} (nonzero : n ≠ 0) :
    ∃ c t, ofNat n = c :: t ∧ c ≠ '0' ∧ c.isDigit = true ∧ IsDigits t := by
  have first : ∃ c t, ofNat n = c :: t ∧ c ≠ '0' := by
    induction n using Nat.strong_induction_on with
    | _ n ih =>
        by_cases small : n < 10
        · have table : ∀ d < 10, d ≠ 0 → CodePoint.ofChar d.digitChar ≠ '0' := by decide
          refine ⟨_, [], ?_, table n small nonzero⟩
          rw [ofNat, Nat.toDigits_of_lt_base small]
          rfl
        · obtain ⟨c, t, eq, other⟩ := ih (n / 10) (by omega) (by omega)
          rw [ofNat] at eq
          refine ⟨c, t ++ [CodePoint.ofChar (n % 10).digitChar], ?_, other⟩
          rw [ofNat, Nat.toDigits_of_base_le (by decide) (by omega), List.map_append, eq]
          rfl
  obtain ⟨c, t, eq, other⟩ := first
  have digits := isDigits_ofNat n
  rw [eq] at digits
  exact ⟨c, t, eq, other, digits c List.mem_cons_self,
    fun d hd => digits d (List.mem_cons_of_mem c hd)⟩

theorem isWhole_ofNat (n : Nat) : (ofNat n).IsWhole := by
  by_cases zero : n = 0
  · rw [zero]
    exact .zero
  · obtain ⟨c, t, eq, first, digit, rest⟩ := exists_ofNat_eq_cons zero
    rw [eq]
    exact .digits first digit rest

end Text

end JsonShapes
