import JsonShapes.Proofs.Rounding

/-!
# Shortest decimals read back

A hit on a decimal grid is a decimal that the double covers, so it reads back as the double. The
search for the first hit ends in one: on a grid as fine as a quarter of the unit in the last place,
the neighbour below the double is close enough to it, and the last of the grids that are tried is
that fine for every exponent.
-/

namespace JsonShapes

namespace Binary64

namespace Finite

variable (x : Finite) (k : Int)

/-- Whether a multiple of `10 ^ k` lies in the interval of the double. -/
def inside (c : Nat) : Bool :=
  let i := x.interval
  let (n, d) := x.quarterOnGrid k
  if i.closed then i.low * n ≤ c * d && c * d ≤ i.high * n
  else i.low * n < c * d && c * d < i.high * n

/-- The greatest multiple of `10 ^ k` up to the double. -/
def below : Nat := x.interval.value * (x.quarterOnGrid k).1 / (x.quarterOnGrid k).2

theorem quarterOnGrid_pos : 0 < (x.quarterOnGrid k).2 :=
  Nat.mul_pos (Nat.pow_pos (by decide)) (Nat.pow_pos (by decide))

theorem pow_toNat_div (b : ℚ) (e : Int) :
    b ^ e.toNat / b ^ (-e).toNat = b ^ e := by
  rcases le_total 0 e with nonneg | nonpos
  · obtain ⟨n, rfl⟩ := Int.eq_ofNat_of_zero_le nonneg
    simp
  · obtain ⟨n, hn⟩ := Int.eq_ofNat_of_zero_le (show 0 ≤ -e by omega)
    obtain rfl : e = -n := by omega
    simp

theorem quarterOnGrid_div :
    ((x.quarterOnGrid k).1 : ℚ) / (x.quarterOnGrid k).2 = 2 ^ (x.exponent - 2) / 10 ^ k := by
  have two := pow_toNat_div 2 (x.exponent - 2)
  have ten := pow_toNat_div 10 (-k)
  rw [neg_neg, zpow_neg] at ten
  simp only [quarterOnGrid, Nat.pow_eq]
  push_cast
  rw [← two, div_eq_mul_inv _ ((10 : ℚ) ^ k), ← ten, div_mul_div_comm]

variable {x k}

/-- Multiples of a quarter are compared with multiples of `10 ^ k` by cross-multiplying. -/
theorem mul_le_mul_iff_grid {a c : Nat} :
    (a * (x.quarterOnGrid k).1 ≤ c * (x.quarterOnGrid k).2 ↔
      (a : ℚ) * 2 ^ (x.exponent - 2) ≤ c * 10 ^ k) ∧
    (c * (x.quarterOnGrid k).2 ≤ a * (x.quarterOnGrid k).1 ↔
      (c : ℚ) * 10 ^ k ≤ a * 2 ^ (x.exponent - 2)) := by
  have den : (0 : ℚ) < (x.quarterOnGrid k).2 := by exact_mod_cast x.quarterOnGrid_pos k
  have power : (0 : ℚ) < 10 ^ k := by positivity
  have ratio := x.quarterOnGrid_div k
  constructor
  · rw [← div_le_iff₀ power, mul_div_assoc, ← ratio, ← mul_div_assoc, div_le_iff₀ den]
    exact_mod_cast Iff.rfl
  · rw [← le_div_iff₀ power, mul_div_assoc, ← ratio, ← mul_div_assoc, le_div_iff₀ den]
    exact_mod_cast Iff.rfl

theorem inside_iff {c : Nat} : x.inside k c = true ↔ x.Covers (c * 10 ^ k) := by
  rw [inside, Covers]
  dsimp only
  split
  · rw [Bool.and_eq_true, decide_eq_true_eq, decide_eq_true_eq, mul_le_mul_iff_grid.1,
      mul_le_mul_iff_grid.2]
  · rw [Bool.and_eq_true, decide_eq_true_eq, decide_eq_true_eq, ← not_le, ← not_le,
      mul_le_mul_iff_grid.1, mul_le_mul_iff_grid.2, not_le, not_le]

/-- A hit is covered by the double. -/
theorem covers_of_onGrid? {c : Nat} (h : x.onGrid? k = some c) : x.Covers (c * 10 ^ k) := by
  apply inside_iff.1
  unfold onGrid? at h
  dsimp only at h
  split at h
  · next low high =>
      cases h
      split
      · exact low
      · exact high
  · next low high =>
      cases h
      exact low
  · next low high =>
      cases h
      exact high
  · cases h

theorem covers_of_lt {r : ℚ} (low : x.interval.low * 2 ^ (x.exponent - 2) < r)
    (high : r < x.interval.high * 2 ^ (x.exponent - 2)) : x.Covers r := by
  rw [Covers]
  split
  · exact ⟨low.le, high.le⟩
  · exact ⟨low, high⟩

theorem interval_low_le (nonzero : x.mantissa ≠ 0) :
    (x.interval.low : ℚ) ≤ x.interval.value - 1 := by
  have natural : x.interval.low + 1 ≤ x.interval.value := by
    rw [interval]
    dsimp only
    split <;> omega
  have cast : (x.interval.low : ℚ) + 1 ≤ x.interval.value := by exact_mod_cast natural
  linarith

/-- On a grid as fine as a quarter of the unit in the last place, the neighbour below the double
stands for it. -/
theorem inside_below (nonzero : x.mantissa ≠ 0) (fine : (10 : ℚ) ^ k ≤ 2 ^ (x.exponent - 2)) :
    x.inside k (x.below k) = true := by
  have unit : (0 : ℚ) < 2 ^ (x.exponent - 2) := by positivity
  have under : (x.below k : ℚ) * 10 ^ k ≤ x.interval.value * 2 ^ (x.exponent - 2) :=
    mul_le_mul_iff_grid.2.1 (Nat.div_mul_le_self _ _)
  have above : (x.interval.value : ℚ) * 2 ^ (x.exponent - 2) < (x.below k + 1 : Nat) * 10 ^ k := by
    rw [← not_le, ← mul_le_mul_iff_grid.2, not_le, Nat.succ_mul]
    exact Nat.lt_div_mul_add (x.quarterOnGrid_pos k)
  have lowest := mul_le_mul_of_nonneg_right (interval_low_le nonzero) unit.le
  have highest : (x.interval.high : ℚ) = x.interval.value + 2 := by simp [interval]
  rw [Nat.cast_add_one, add_mul, one_mul] at above
  rw [sub_mul, one_mul] at lowest
  apply inside_iff.2
  apply covers_of_lt
  · linarith
  · rw [highest, add_mul]
    linarith

theorem isSome_onGrid? (nonzero : x.mantissa ≠ 0) (fine : (10 : ℚ) ^ k ≤ 2 ^ (x.exponent - 2)) :
    (x.onGrid? k).isSome = true := by
  have hit := inside_below nonzero fine
  unfold onGrid?
  dsimp only
  split
  · rfl
  · rfl
  · rfl
  · next low high => exact absurd (hit.symm.trans low) (by decide)

/-- The search ends in a hit if one of the grids has one. -/
theorem exists_firstHit {tries j : Nat} (early : j < tries)
    (hit : (x.onGrid? (k - j)).isSome = true) :
    ∃ c k', x.onGrid? k' = some c ∧ x.firstHit tries k = ⟨c, k'⟩ := by
  induction tries generalizing k j with
  | zero => cases early
  | succ tries ih =>
      rw [firstHit]
      cases here : x.onGrid? k with
      | some c => exact ⟨c, k, here, rfl⟩
      | none =>
          cases j with
          | zero =>
              rw [Nat.cast_zero, sub_zero, here] at hit
              cases hit
          | succ j =>
              apply ih (Nat.lt_of_succ_lt_succ early)
              rwa [Nat.cast_add_one, add_comm, ← sub_sub] at hit

theorem ten_pow_le_two_pow {a b : Nat} (h : 10 * a ≤ 3 * b) : 10 ^ a ≤ 2 ^ b := by
  apply (Nat.pow_le_pow_iff_left (show 3 ≠ 0 by decide)).mp
  calc (10 ^ a) ^ 3 = (10 ^ 3) ^ a := Nat.pow_right_comm 10 a 3
    _ ≤ (2 ^ 10) ^ a := Nat.pow_le_pow_left (by norm_num) a
    _ = 2 ^ (10 * a) := (Nat.pow_mul 2 10 a).symm
    _ ≤ 2 ^ (3 * b) := Nat.pow_le_pow_right (by decide) h
    _ = (2 ^ b) ^ 3 := by rw [Nat.mul_comm, Nat.pow_mul]

/-- The last grid is as fine as a quarter of the unit in the last place. -/
theorem last_grid_le {log : Nat} (short : log ≤ 52) {e : Int} (low : -1074 ≤ e) (high : e ≤ 971) :
    (10 : ℚ) ^ (((log : Int) + e + 1) * 1233 / 4096 + 1 - 23) ≤ 2 ^ (e - 2) := by
  generalize grid : ((log : Int) + e + 1) * 1233 / 4096 + 1 - 23 = k
  rcases le_total 0 k with nonneg | nonpos
  · obtain ⟨a, rfl⟩ := Int.eq_ofNat_of_zero_le nonneg
    obtain ⟨b, hb⟩ := Int.eq_ofNat_of_zero_le (show 0 ≤ e - 2 by omega)
    rw [hb, zpow_natCast, zpow_natCast]
    exact_mod_cast ten_pow_le_two_pow (by omega)
  · obtain ⟨b, hb⟩ := Int.eq_ofNat_of_zero_le (show 0 ≤ -k by omega)
    obtain rfl : k = -b := by omega
    rcases le_total 0 (e - 2) with large | small
    · calc (10 : ℚ) ^ (-b : Int) ≤ 1 := zpow_le_one_of_nonpos₀ (by norm_num) nonpos
        _ ≤ 2 ^ (e - 2) := one_le_zpow₀ one_le_two large
    · obtain ⟨a, ha⟩ := Int.eq_ofNat_of_zero_le (show 0 ≤ -(e - 2) by omega)
      rw [show e - 2 = -(a : Int) by omega]
      exact ten_zpow_neg_le (by omega)

/-- The shortest decimal is covered by the double. -/
theorem covers_shortest (nonzero : x.mantissa ≠ 0) :
    x.Covers (x.shortest.coefficient * 10 ^ x.shortest.exponent) := by
  obtain ⟨bound, least, greatest, -⟩ := x.normal
  have short : x.mantissa.log2 ≤ 52 :=
    Nat.le_of_lt_succ ((Nat.log2_lt nonzero).2 bound)
  obtain ⟨c, k, hit, eq⟩ := exists_firstHit (show 23 < 24 by decide)
    (isSome_onGrid? nonzero (last_grid_le short least greatest))
  rw [shortest, if_neg nonzero, eq]
  exact covers_of_onGrid? hit

end Finite

end Binary64

end JsonShapes
