/-!
# Double-precision numbers

A finite double is a sign, a mantissa and a power of two, kept in the one normal form that every
such number has. A ratio of natural numbers rounds to the nearest double, a tie going to the even
mantissa; everything is exact arithmetic on natural numbers.
-/

namespace JsonShapes

namespace Binary64

/-- The least mantissa that fills its 53 bits. -/
def leastFull : Nat := 4503599627370496

/-- The mantissa fills its 53 bits unless the exponent is already the least one. -/
def Normal (mantissa : Nat) (exponent : Int) : Prop :=
  mantissa < 2 * leastFull ∧ -1074 ≤ exponent ∧ exponent ≤ 971 ∧
    (leastFull ≤ mantissa ∨ exponent = -1074)

instance (m : Nat) (e : Int) : Decidable (Normal m e) := by
  unfold Normal
  infer_instance

/-- The number `± mantissa * 2 ^ exponent`. -/
structure Finite where
  negative : Bool
  mantissa : Nat
  exponent : Int
  normal : Normal mantissa exponent
deriving DecidableEq

/-- The zero of either sign. -/
def Finite.zero (negative : Bool) : Finite := ⟨negative, 0, -1074, by decide⟩

end Binary64

/-- A double: finite, infinite, or not a number. -/
inductive Binary64 where
  | finite (x : Binary64.Finite)
  | infinite (negative : Bool)
  | nan
deriving DecidableEq

namespace Binary64

def isFinite : Binary64 → Bool
  | .finite _ => true
  | .infinite _ => false
  | .nan => false

/-- The natural number nearest to `num / den`, the even one of two. -/
def roundRatio (num den : Nat) : Nat :=
  let quotient := num / den
  let twice := 2 * (num % den)
  if den < twice || (twice == den && quotient % 2 == 1) then quotient + 1 else quotient

/-- `num / den` divided by `2 ^ exponent`, as a ratio of natural numbers. -/
def scaled (num den : Nat) (exponent : Int) : Nat × Nat :=
  if 0 ≤ exponent then (num, den * Nat.pow 2 exponent.toNat)
  else (num * Nat.pow 2 (-exponent).toNat, den)

/-- The exponent at which `num / den` has 53 bits before the point, or the least exponent. -/
def exponentOf (num den : Nat) : Int :=
  let guess : Int := (Nat.log2 num : Int) - Nat.log2 den - 52
  let (n, d) := scaled num den guess
  max (-1074) (if n / d < leastFull then guess - 1 else guess)

/-- The double nearest to `± num / den`; too large a number becomes infinite. -/
def ofRatio (negative : Bool) (num den : Nat) : Binary64 :=
  if num = 0 then .finite (.zero negative)
  else
    let exponent := exponentOf num den
    let (n, d) := scaled num den exponent
    let rounded := roundRatio n d
    let (m, e) := if rounded = 2 * leastFull then (leastFull, exponent + 1) else (rounded, exponent)
    if h : Normal m e then .finite ⟨negative, m, e, h⟩ else .infinite negative

/-- The double nearest to `± coefficient * 10 ^ exponent`. Numbers from `10 ^ 400` on are infinite
and numbers below `10 ^ (-400)` are zero, whatever their digits, so that no power of ten beyond
these is ever formed. -/
def ofDecimal (negative : Bool) (coefficient : Nat) (exponent : Int) : Binary64 :=
  if coefficient = 0 then .finite (.zero negative)
  else if 400 ≤ exponent then .infinite negative
  else if exponent < -(Nat.log2 coefficient + 401 : Int) then .finite (.zero negative)
  else if 0 ≤ exponent then ofRatio negative (coefficient * Nat.pow 10 exponent.toNat) 1
  else ofRatio negative coefficient (Nat.pow 10 (-exponent).toNat)

end Binary64

end JsonShapes
