import JsonShapes.Number.Shortest
import Mathlib.Algebra.Order.Field.Power
import Mathlib.Data.Rat.Cast.Order
import Mathlib.Tactic.FieldSimp
import Mathlib.Tactic.Linarith
import Mathlib.Tactic.NormNum.Pow
import Mathlib.Tactic.Positivity
import Mathlib.Tactic.Ring

/-!
# Rounding to the nearest double

A positive number has one exponent at which its whole part fills 53 bits, unless it is too small for
that. In units of this power of two it is rounded to a natural number, to the even one if two are
equally near. So a ratio becomes the given double as soon as it lies between the midpoints to the
neighbours of that double, or on one of them if the mantissa is even. The case that needs care is a
power of two, whose lower neighbours are twice as close: below it the exponent is one less, and
rounding up carries into the next exponent.

The guards against huge powers of ten stand far outside of the range of the doubles, so the same
holds of decimals.
-/

namespace JsonShapes

namespace Binary64

/-- A natural number is the nearest one if it is off by at most a half, and even at a half. -/
theorem roundRatio_eq {num den k : Nat} (pos : 0 < den)
    (low : 2 * (k * den) ≤ 2 * num + den) (high : 2 * num ≤ 2 * (k * den) + den)
    (tie : 2 * (k * den) = 2 * num + den ∨ 2 * num = 2 * (k * den) + den → k % 2 = 0) :
    roundRatio num den = k := by
  have split := Nat.div_add_mod' num den
  have small := Nat.mod_lt num pos
  rw [roundRatio]
  generalize num / den = q at *
  generalize num % den = r at *
  have lower : q ≤ k := by
    by_contra beyond
    have step : (k + 1) * den ≤ q * den := Nat.mul_le_mul_right den (by omega)
    rw [Nat.succ_mul] at step
    omega
  have upper : k ≤ q + 1 := by
    by_contra beyond
    have step : (q + 2) * den ≤ k * den := Nat.mul_le_mul_right den (by omega)
    rw [Nat.add_mul] at step
    omega
  rcases Nat.eq_or_lt_of_le lower with rfl | above
  · rw [if_neg]
    simp only [Bool.or_eq_true, Bool.and_eq_true, decide_eq_true_eq, beq_iff_eq]
    omega
  · obtain rfl : k = q + 1 := by omega
    rw [Nat.succ_mul q den] at low high tie
    rw [if_pos]
    simp only [Bool.or_eq_true, Bool.and_eq_true, decide_eq_true_eq, beq_iff_eq]
    omega

theorem roundRatio_eq_of_near {num den k : Nat} (pos : 0 < den)
    (low : (k : ℚ) - 1 / 2 ≤ num / den) (high : (num : ℚ) / den ≤ k + 1 / 2)
    (tie : (num : ℚ) / den = k - 1 / 2 ∨ (num : ℚ) / den = k + 1 / 2 → k % 2 = 0) :
    roundRatio num den = k := by
  have positive : (0 : ℚ) < den := by exact_mod_cast pos
  rw [le_div_iff₀ positive] at low
  rw [div_le_iff₀ positive] at high
  rw [div_eq_iff positive.ne', div_eq_iff positive.ne'] at tie
  apply roundRatio_eq pos
  · have cleared : (2 * (k * den) : ℚ) ≤ 2 * num + den := by linarith
    exact_mod_cast cleared
  · have cleared : (2 * num : ℚ) ≤ 2 * (k * den) + den := by linarith
    exact_mod_cast cleared
  · intro half
    apply tie
    rcases half with below | above
    · have cast : (2 * (k * den) : ℚ) = 2 * num + den := by exact_mod_cast below
      left
      linarith
    · have cast : (2 * num : ℚ) = 2 * (k * den) + den := by exact_mod_cast above
      right
      linarith

theorem scaled_pos (num : Nat) {den : Nat} (pos : 0 < den) (e : Int) :
    0 < (scaled num den e).2 := by
  rw [scaled]
  split
  · exact Nat.mul_pos pos (Nat.pow_pos (by decide))
  · exact pos

theorem scaled_div (num den : Nat) (e : Int) :
    ((scaled num den e).1 : ℚ) / (scaled num den e).2 = num / den / 2 ^ e := by
  rw [scaled]
  split
  · next nonneg =>
      obtain ⟨n, rfl⟩ := Int.eq_ofNat_of_zero_le nonneg
      change (num : ℚ) / (den * 2 ^ n : Nat) = num / den / 2 ^ (n : Int)
      rw [zpow_natCast, Nat.cast_mul, Nat.cast_pow, Nat.cast_ofNat, div_div]
  · next negative =>
      obtain ⟨n, hn⟩ := Int.eq_ofNat_of_zero_le (show 0 ≤ -e by omega)
      obtain rfl : e = -n := by omega
      change ((num * 2 ^ (-(-(n : Int))).toNat : Nat) : ℚ) / den = num / den / 2 ^ (-(n : Int))
      rw [neg_neg, Int.toNat_natCast, zpow_neg, zpow_natCast, div_inv_eq_mul, Nat.cast_mul,
        Nat.cast_pow, Nat.cast_ofNat, div_mul_eq_mul_div]

theorem leastFull_cast : (leastFull : ℚ) = 2 ^ (52 : Int) := by
  rw [leastFull]
  norm_num

/-- In units of `2 ^ exponent` the whole part of the number fills 53 bits, or fewer if the exponent
is the least one. -/
def Fills (r : ℚ) (exponent : Int) : Prop :=
  r / 2 ^ exponent < 2 * leastFull ∧ -1074 ≤ exponent ∧
    (leastFull ≤ r / 2 ^ exponent ∨ exponent = -1074)

theorem div_two_zpow_succ (r : ℚ) (e : Int) : r / 2 ^ (e + 1) = r / 2 ^ e / 2 := by
  rw [zpow_add_one₀ two_ne_zero, div_div]

/-- A number that fills 53 bits does not reach them in a larger unit. -/
theorem lt_of_full_of_lt {r : ℚ} (positive : 0 < r) {e e' : Int}
    (h : r / 2 ^ e < 2 * leastFull) (less : e < e') : r / 2 ^ e' < leastFull := by
  have unit : (2 : ℚ) ^ (e + 1) ≤ 2 ^ e' := zpow_le_zpow_right₀ one_le_two less
  calc r / 2 ^ e' ≤ r / 2 ^ (e + 1) := by gcongr
    _ = r / 2 ^ e / 2 := div_two_zpow_succ r e
    _ < leastFull := by linarith

theorem Fills.unique {r : ℚ} (positive : 0 < r) {e e' : Int} (h : Fills r e) (h' : Fills r e') :
    e = e' := by
  obtain ⟨below, least, full⟩ := h
  obtain ⟨below', least', full'⟩ := h'
  rcases lt_trichotomy e e' with less | same | greater
  · have short := lt_of_full_of_lt positive below less
    rcases full' with full' | rfl
    · linarith
    · omega
  · exact same
  · have short := lt_of_full_of_lt positive below' greater
    rcases full with full | rfl
    · linarith
    · omega

/-- The number that a finite double stands for. -/
def Finite.value (x : Finite) : ℚ := (if x.negative then -1 else 1) * (x.mantissa * 2 ^ x.exponent)

theorem Finite.fills (x : Finite) : Fills (x.mantissa * 2 ^ x.exponent) x.exponent := by
  obtain ⟨bound, least, -, full⟩ := x.normal
  rw [Fills, mul_div_cancel_right₀ _ (by positivity)]
  exact ⟨by exact_mod_cast bound, least, by exact_mod_cast full⟩

theorem Finite.magnitude_pos {x : Finite} (nonzero : x.value ≠ 0) :
    (0 : ℚ) < x.mantissa * 2 ^ x.exponent := by
  have unit : (0 : ℚ) < 2 ^ x.exponent := by positivity
  apply lt_of_le_of_ne (by positivity)
  intro zero
  rw [value, ← zero, mul_zero] at nonzero
  exact nonzero rfl

/-- A number other than zero is the value of at most one double. -/
theorem Finite.eq_of_value_eq {x y : Finite} (h : x.value = y.value) (nonzero : x.value ≠ 0) :
    x = y := by
  have here := magnitude_pos nonzero
  have there := magnitude_pos (h ▸ nonzero)
  rw [value, value] at h
  have sign : x.negative = y.negative := by
    cases hx : x.negative <;> cases hy : y.negative <;> simp [hx, hy] at h ⊢ <;> linarith
  have magnitude : (x.mantissa : ℚ) * 2 ^ x.exponent = y.mantissa * 2 ^ y.exponent := by
    rw [sign] at h
    exact mul_left_cancel₀ (by split <;> norm_num) h
  have fills := y.fills
  rw [← magnitude] at fills
  have exponent := Fills.unique here x.fills fills
  rw [exponent] at magnitude
  have mantissa : x.mantissa = y.mantissa := by
    exact_mod_cast mul_right_cancel₀ (by positivity) magnitude
  obtain ⟨negative, m, e, normal⟩ := x
  subst sign mantissa exponent
  rfl

theorem two_pow_log2_le {n : Nat} (nonzero : n ≠ 0) : (2 : ℚ) ^ (n.log2 : Int) ≤ n := by
  rw [zpow_natCast]
  exact_mod_cast Nat.log2_self_le nonzero

theorem lt_two_pow_log2_succ (n : Nat) : (n : ℚ) < 2 ^ ((n.log2 : Int) + 1) := by
  have natural : n < 2 ^ (n.log2 + 1) := Nat.lt_log2_self
  have cast : ((n.log2 : Int) + 1) = ((n.log2 + 1 : Nat) : Int) := by push_cast; rfl
  rw [cast, zpow_natCast]
  exact_mod_cast natural

/-- A ratio lies between the powers of two that the bit lengths of its parts allow. -/
theorem ratio_bounds {num den : Nat} (nonzero : num ≠ 0) (pos : 0 < den) :
    (2 : ℚ) ^ ((num.log2 : Int) - den.log2 - 1) < num / den ∧
      (num : ℚ) / den < 2 ^ ((num.log2 : Int) - den.log2 + 1) := by
  have lowNum := two_pow_log2_le nonzero
  have highNum := lt_two_pow_log2_succ num
  have lowDen := two_pow_log2_le pos.ne'
  have highDen := lt_two_pow_log2_succ den
  have positive : (0 : ℚ) < den := by exact_mod_cast pos
  constructor
  · rw [sub_sub, zpow_sub₀ two_ne_zero, div_lt_div_iff₀ (by positivity) positive]
    calc (2 : ℚ) ^ (num.log2 : Int) * den ≤ num * den := by gcongr
      _ < num * 2 ^ ((den.log2 : Int) + 1) := by gcongr
  · rw [sub_add_eq_add_sub, zpow_sub₀ two_ne_zero, div_lt_div_iff₀ positive (by positivity)]
    calc (num : ℚ) * 2 ^ (den.log2 : Int) ≤ num * den := by gcongr
      _ < 2 ^ ((num.log2 : Int) + 1) * den := by gcongr

/-- A number that fills 53 bits at some exponent fills as many as it can from the least one on. -/
theorem fills_max {r : ℚ} (positive : 0 < r) {e : Int} (full : leastFull ≤ r / 2 ^ e)
    (below : r / 2 ^ e < 2 * leastFull) : Fills r (max (-1074) e) := by
  rcases le_total (-1074) e with large | small
  · rw [max_eq_right large]
    exact ⟨below, large, .inl full⟩
  · rw [max_eq_left small]
    refine ⟨lt_of_le_of_lt ?_ below, le_rfl, .inr rfl⟩
    have unit : (2 : ℚ) ^ e ≤ 2 ^ (-1074 : Int) := zpow_le_zpow_right₀ one_le_two small
    gcongr

/-- The exponent is found from the bit lengths, which give it or one more. -/
theorem fills_exponentOf {num den : Nat} (nonzero : num ≠ 0) (pos : 0 < den) :
    Fills (num / den) (exponentOf num den) := by
  have positive : (0 : ℚ) < num / den := by
    have numPos : 0 < num := Nat.pos_of_ne_zero nonzero
    positivity
  obtain ⟨low, high⟩ := ratio_bounds nonzero pos
  rw [exponentOf]
  generalize guess : (num.log2 : Int) - den.log2 - 52 = g
  have scaledPos := scaled_pos num pos g
  have value := scaled_div num den g
  have unit : (0 : ℚ) < 2 ^ g := by positivity
  have above : (leastFull : ℚ) / 2 < num / den / 2 ^ g := by
    rw [lt_div_iff₀ unit]
    refine lt_of_eq_of_lt ?_ low
    rw [leastFull_cast, div_eq_mul_inv, ← zpow_neg_one, ← zpow_add₀ two_ne_zero,
      ← zpow_add₀ two_ne_zero]
    congr 1
    omega
  have below : (num : ℚ) / den / 2 ^ g < 2 * leastFull := by
    rw [div_lt_iff₀ unit]
    refine lt_of_lt_of_eq high ?_
    rw [leastFull_cast, ← zpow_one_add₀ two_ne_zero, ← zpow_add₀ two_ne_zero]
    congr 1
    omega
  generalize scaled num den g = nd at scaledPos value
  have floor : nd.1 / nd.2 < leastFull ↔ (num : ℚ) / den / 2 ^ g < leastFull := by
    rw [← value, Nat.div_lt_iff_lt_mul scaledPos, div_lt_iff₀ (by exact_mod_cast scaledPos)]
    exact_mod_cast Iff.rfl
  dsimp only
  split
  · next short =>
      have half := div_two_zpow_succ ((num : ℚ) / den) (g - 1)
      rw [sub_add_cancel] at half
      rw [floor, half] at short
      rw [half] at above
      apply fills_max positive <;> linarith
  · next full =>
      rw [floor, not_lt] at full
      exact fills_max positive full below

/-- A ratio is rounded in units of the exponent at which it fills the mantissa. -/
theorem ofRatio_eq_of_near (negative : Bool) {num den : Nat} (nonzero : num ≠ 0) (pos : 0 < den)
    {e : Int} (fills : Fills (num / den) e) {k : Nat} (low : (k : ℚ) - 1 / 2 ≤ num / den / 2 ^ e)
    (high : (num : ℚ) / den / 2 ^ e ≤ k + 1 / 2)
    (tie : (num : ℚ) / den / 2 ^ e = k - 1 / 2 ∨ (num : ℚ) / den / 2 ^ e = k + 1 / 2 →
      k % 2 = 0) :
    ofRatio negative num den =
      let (m, e) := if k = 2 * leastFull then (leastFull, e + 1) else (k, e)
      if h : Normal m e then .finite ⟨negative, m, e, h⟩ else .infinite negative := by
  have positive : (0 : ℚ) < num / den := by
    have numPos : 0 < num := Nat.pos_of_ne_zero nonzero
    positivity
  have exponent := Fills.unique positive (fills_exponentOf nonzero pos) fills
  rw [← scaled_div] at low high tie
  have rounded := roundRatio_eq_of_near (scaled_pos num pos e) low high tie
  rw [ofRatio, if_neg nonzero, exponent]
  dsimp only
  rw [rounded]

/-- The number is not beyond the midpoints between a double and its neighbours, and on one of them
only if the mantissa is even. -/
def Finite.Covers (x : Finite) (r : ℚ) : Prop :=
  if x.interval.closed then
    x.interval.low * 2 ^ (x.exponent - 2) ≤ r ∧ r ≤ x.interval.high * 2 ^ (x.exponent - 2)
  else x.interval.low * 2 ^ (x.exponent - 2) < r ∧ r < x.interval.high * 2 ^ (x.exponent - 2)

/-- The mantissa is the nearest one to a number in units of the double. Next to a power of two the
number is not even halfway to the midpoint of equal neighbours. -/
structure Finite.Nearest (x : Finite) (y : ℚ) : Prop where
  low : (x.mantissa : ℚ) - 1 / 2 ≤ y
  high : y ≤ x.mantissa + 1 / 2
  tie : y = x.mantissa - 1 / 2 ∨ y = x.mantissa + 1 / 2 → x.mantissa % 2 = 0
  close : x.mantissa = leastFull → -1074 < x.exponent → (x.mantissa : ℚ) - 1 / 4 ≤ y

theorem Finite.le_interval_low {x : Finite} (nonzero : x.mantissa ≠ 0) :
    (x.mantissa : ℚ) - 1 / 2 ≤ x.interval.low / 4 ∧
      (x.mantissa = leastFull → -1074 < x.exponent →
        (x.mantissa : ℚ) - 1 / 4 ≤ x.interval.low / 4) := by
  rw [interval]
  dsimp only
  split
  · rw [Nat.cast_sub (by omega)]
    push_cast
    constructor
    · linarith
    · intros
      linarith
  · next other =>
      rw [Nat.cast_sub (by omega)]
      push_cast
      constructor
      · linarith
      · intro least bound
        exact absurd ⟨least, bound⟩ other

theorem Finite.interval_high (x : Finite) :
    (x.interval.high : ℚ) / 4 = x.mantissa + 1 / 2 := by
  rw [interval]
  push_cast
  linarith

theorem Finite.Covers.nearest {x : Finite} (nonzero : x.mantissa ≠ 0) {r : ℚ} (h : x.Covers r) :
    x.Nearest (r / 2 ^ x.exponent) := by
  have quarter : ∀ a : ℚ, a * 2 ^ (x.exponent - 2) = a / 4 * 2 ^ x.exponent := by
    intro a
    rw [zpow_sub₀ two_ne_zero]
    ring
  have unit : (0 : ℚ) < 2 ^ x.exponent := by positivity
  obtain ⟨low, close⟩ := le_interval_low nonzero
  rw [Covers, quarter, quarter, interval_high, ← le_div_iff₀ unit, ← div_le_iff₀ unit,
    ← lt_div_iff₀ unit, ← div_lt_iff₀ unit] at h
  generalize r / 2 ^ x.exponent = y at *
  split at h
  · next even =>
      refine ⟨low.trans h.1, h.2, fun _ => ?_, fun least bound => (close least bound).trans h.1⟩
      simpa [interval] using even
  · refine ⟨low.trans h.1.le, h.2.le, ?_, fun least bound => (close least bound).trans h.1.le⟩
    rintro (below | above)
    · linarith
    · linarith

theorem finite_of_parts (x : Finite) {m : Nat} {e : Int} (mantissa : m = x.mantissa)
    (exponent : e = x.exponent) :
    (if h : Normal m e then Binary64.finite ⟨x.negative, m, e, h⟩ else .infinite x.negative) =
      .finite x := by
  subst mantissa exponent
  exact dif_pos x.normal

/-- A ratio that a double covers is rounded to it. -/
theorem ofRatio_eq_finite {x : Finite} (nonzero : x.mantissa ≠ 0) {num den : Nat} (pos : 0 < den)
    (covers : x.Covers (num / den)) : ofRatio x.negative num den = .finite x := by
  obtain ⟨low, high, tie, close⟩ := covers.nearest nonzero
  obtain ⟨bound, least, greatest, full⟩ := x.normal
  have mantissaPos : (1 : ℚ) ≤ x.mantissa := by exact_mod_cast Nat.pos_of_ne_zero nonzero
  have mantissaLt : (x.mantissa : ℚ) + 1 ≤ 2 * leastFull := by exact_mod_cast bound
  have numNonzero : num ≠ 0 := by
    rintro rfl
    rw [Nat.cast_zero, zero_div, zero_div] at low
    linarith
  by_cases fillsHere : leastFull ≤ (num : ℚ) / den / 2 ^ x.exponent ∨ x.exponent = -1074
  · have fills : Fills (num / den) x.exponent := ⟨by linarith, least, fillsHere⟩
    rw [ofRatio_eq_of_near x.negative numNonzero pos fills low high tie, if_neg bound.ne]
    exact finite_of_parts x rfl rfl
  · -- just below a power of two: the exponent is one less, and the carry makes up for it
    rw [not_or, not_le] at fillsHere
    obtain ⟨short, above⟩ := fillsHere
    have full : leastFull ≤ x.mantissa := full.resolve_right above
    have power : x.mantissa = leastFull := by
      by_contra other
      have next : (leastFull : ℚ) + 1 ≤ x.mantissa := by
        exact_mod_cast Nat.lt_of_le_of_ne full (Ne.symm other)
      linarith
    have near := close power (by omega)
    have half := div_two_zpow_succ ((num : ℚ) / den) (x.exponent - 1)
    rw [sub_add_cancel] at half
    rw [half] at near short
    rw [power] at near
    have large : (1 : ℚ) ≤ leastFull := by
      rw [leastFull_cast]
      norm_num
    have fills : Fills (num / den) (x.exponent - 1) :=
      ⟨by linarith, by omega, .inl (by linarith)⟩
    have carried : ((2 * leastFull : Nat) : ℚ) = 2 * leastFull := by push_cast; rfl
    rw [ofRatio_eq_of_near x.negative numNonzero pos fills (k := 2 * leastFull)
      (by linarith) (by linarith) (fun _ => by decide), if_pos rfl]
    exact finite_of_parts x power.symm (sub_add_cancel _ _)

theorem two_pow_le_ten_pow {a b : Nat} (h : 28 * a ≤ 93 * b) : 2 ^ a ≤ 10 ^ b := by
  apply (Nat.pow_le_pow_iff_left (show 93 ≠ 0 by decide)).mp
  calc (2 ^ a) ^ 93 = (2 ^ 93) ^ a := Nat.pow_right_comm 2 a 93
    _ ≤ (10 ^ 28) ^ a := Nat.pow_le_pow_left (by norm_num) a
    _ = 10 ^ (28 * a) := (Nat.pow_mul 10 28 a).symm
    _ ≤ 10 ^ (93 * b) := Nat.pow_le_pow_right (by decide) h
    _ = (10 ^ b) ^ 93 := by rw [Nat.mul_comm, Nat.pow_mul]

/-- Negative powers of ten are smaller than those of two. -/
theorem ten_zpow_neg_le {a b : Nat} (h : 28 * a ≤ 93 * b) :
    (10 : ℚ) ^ (-b : Int) ≤ 2 ^ (-a : Int) := by
  rw [zpow_neg, zpow_neg, zpow_natCast, zpow_natCast]
  apply inv_anti₀ (by positivity)
  exact_mod_cast two_pow_le_ten_pow h

theorem Finite.Covers.lower {x : Finite} (nonzero : x.mantissa ≠ 0) {r : ℚ} (h : x.Covers r) :
    (2 : ℚ) ^ (-1075 : Int) ≤ r := by
  have unit : (0 : ℚ) < 2 ^ x.exponent := by positivity
  have low := (h.nearest nonzero).low
  have mantissaPos : (1 : ℚ) ≤ x.mantissa := by exact_mod_cast Nat.pos_of_ne_zero nonzero
  have least : (2 : ℚ) ^ (-1074 : Int) ≤ 2 ^ x.exponent :=
    zpow_le_zpow_right₀ one_le_two x.normal.2.1
  rw [le_div_iff₀ unit] at low
  calc (2 : ℚ) ^ (-1075 : Int) = 2 ^ (-1074 : Int) / 2 := zpow_sub_one₀ two_ne_zero (-1074)
    _ ≤ 2 ^ x.exponent / 2 := by gcongr
    _ ≤ (x.mantissa - 1 / 2) * 2 ^ x.exponent := by
      rw [div_eq_inv_mul]
      gcongr
      linarith
    _ ≤ r := low

theorem Finite.Covers.upper {x : Finite} (nonzero : x.mantissa ≠ 0) {r : ℚ} (h : x.Covers r) :
    r < 2 ^ 1024 := by
  have unit : (0 : ℚ) < 2 ^ x.exponent := by positivity
  have high := (h.nearest nonzero).high
  have mantissaLt : (x.mantissa : ℚ) + 1 ≤ 2 * leastFull := by exact_mod_cast x.normal.1
  have greatest := x.normal.2.2.1
  rw [div_le_iff₀ unit] at high
  calc r ≤ (x.mantissa + 1 / 2) * 2 ^ x.exponent := high
    _ < 2 * leastFull * 2 ^ x.exponent := by
      gcongr
      linarith
    _ = 2 ^ (1 + 52 + x.exponent) := by
      rw [leastFull_cast, zpow_add₀ two_ne_zero, zpow_add₀ two_ne_zero, zpow_one]
    _ ≤ 2 ^ (1024 : Int) := zpow_le_zpow_right₀ one_le_two (by omega)
    _ = 2 ^ 1024 := zpow_natCast 2 1024

/-- A decimal that a double covers reads as the double. -/
theorem ofDecimal_eq_finite {x : Finite} (nonzero : x.mantissa ≠ 0) {c : Nat} {k : Int}
    (covers : x.Covers (c * 10 ^ k)) : ofDecimal x.negative c k = .finite x := by
  have lower := covers.lower nonzero
  have upper := covers.upper nonzero
  have coefficient : c ≠ 0 := by
    rintro rfl
    rw [Nat.cast_zero, zero_mul] at lower
    exact absurd lower (not_le.mpr (by positivity))
  have notHuge : ¬400 ≤ k := by
    intro huge
    apply absurd upper
    rw [not_lt]
    have digit : (1 : ℚ) ≤ c := by exact_mod_cast Nat.pos_of_ne_zero coefficient
    calc (2 : ℚ) ^ 1024 ≤ 10 ^ 400 := by exact_mod_cast two_pow_le_ten_pow (by decide)
      _ = 10 ^ (400 : Int) := (zpow_natCast 10 400).symm
      _ ≤ 10 ^ k := zpow_le_zpow_right₀ (by norm_num) huge
      _ ≤ c * 10 ^ k := le_mul_of_one_le_left (by positivity) digit
  have notTiny : ¬k < -(Nat.log2 c + 401 : Int) := by
    intro tiny
    apply absurd lower
    rw [not_le]
    have digits : (c : ℚ) < 10 ^ ((c.log2 : Int) + 1) :=
      (lt_two_pow_log2_succ c).trans_le
        (zpow_le_zpow_left₀ (by positivity) (by norm_num) (by norm_num))
    calc (c : ℚ) * 10 ^ k < 10 ^ ((c.log2 : Int) + 1) * 10 ^ k := by gcongr
      _ = 10 ^ ((c.log2 : Int) + 1 + k) := (zpow_add₀ (by norm_num) _ _).symm
      _ ≤ 10 ^ (-(401 : Nat) : Int) := zpow_le_zpow_right₀ (by norm_num) (by omega)
      _ ≤ 2 ^ (-(1075 : Nat) : Int) := ten_zpow_neg_le (by decide)
  rw [ofDecimal, if_neg coefficient, if_neg notHuge, if_neg notTiny]
  split
  · next nonneg =>
      obtain ⟨n, rfl⟩ := Int.eq_ofNat_of_zero_le nonneg
      apply ofRatio_eq_finite nonzero Nat.one_pos
      simpa using covers
  · next negative =>
      obtain ⟨n, hn⟩ := Int.eq_ofNat_of_zero_le (show 0 ≤ -k by omega)
      obtain rfl : k = -n := by omega
      apply ofRatio_eq_finite nonzero (Nat.pow_pos (by decide))
      simpa [zpow_neg, div_eq_mul_inv] using covers

end Binary64

end JsonShapes
