import JsonShapes.Number.Binary64
import JsonShapes.Text.Basic

/-!
# Shortest decimals

A finite double is written with the fewest decimal digits that read back as the same double. All
reals between the two midpoints to the neighbouring doubles read back, the midpoints themselves
only if the mantissa is even. Decimal grids are tried from coarse to fine: on each one the two
neighbours of the double are candidates, and the first grid that has one inside the interval wins.
Of two candidates the nearer one is taken, the even one on a tie.
-/

namespace JsonShapes

namespace Binary64

/-- The number `coefficient * 10 ^ exponent`. -/
structure Decimal where
  coefficient : Nat
  exponent : Int
deriving DecidableEq

/-- The reals that read back as a double, in quarters of its unit in the last place. -/
structure Interval where
  low : Nat
  value : Nat
  high : Nat
  closed : Bool

/-- Below a power of two the neighbours stand twice as close. -/
def Finite.interval (x : Finite) : Interval where
  low :=
    if x.mantissa = leastFull ∧ -1074 < x.exponent then 4 * x.mantissa - 1
    else 4 * x.mantissa - 2
  value := 4 * x.mantissa
  high := 4 * x.mantissa + 2
  closed := x.mantissa % 2 == 0

/-- A quarter of the unit in the last place, measured on the grid of multiples of `10 ^ k`, as a
ratio of natural numbers. -/
def Finite.quarterOnGrid (x : Finite) (k : Int) : Nat × Nat :=
  let e := x.exponent - 2
  (Nat.pow 2 e.toNat * Nat.pow 10 (-k).toNat, Nat.pow 2 (-e).toNat * Nat.pow 10 k.toNat)

/-- The point of the grid of multiples of `10 ^ k` that stands for the double, if one does. -/
def Finite.onGrid? (x : Finite) (k : Int) : Option Nat :=
  let i := x.interval
  let (n, d) := x.quarterOnGrid k
  let inside (c : Nat) : Bool :=
    if i.closed then i.low * n ≤ c * d && c * d ≤ i.high * n
    else i.low * n < c * d && c * d < i.high * n
  let below := i.value * n / d
  let above := below + 1
  match inside below, inside above with
  | true, true =>
    let down := i.value * n - below * d
    let up := above * d - i.value * n
    some (if down < up || (down == up && below % 2 == 0) then below else above)
  | true, false => some below
  | false, true => some above
  | false, false => none

/-- The first hit on ever finer grids, starting with multiples of `10 ^ k`. -/
def Finite.firstHit (x : Finite) : Nat → Int → Decimal
  | 0, k => ⟨x.interval.value * (x.quarterOnGrid k).1 / (x.quarterOnGrid k).2, k⟩
  | tries + 1, k =>
    match x.onGrid? k with
    | some c => ⟨c, k⟩
    | none => x.firstHit tries (k - 1)

/-- The shortest decimal that reads back as the magnitude of a nonzero double. Seventeen digits
always suffice, and the first grid is at most a few steps too coarse. -/
def Finite.shortest (x : Finite) : Decimal :=
  if x.mantissa = 0 then ⟨0, 0⟩
  else x.firstHit 24 (((Nat.log2 x.mantissa : Int) + x.exponent + 1) * 1233 / 4096 + 1)

end Binary64

/-- Where a decimal is written with an exponent, and how. -/
structure DecimalLayout where
  /-- The least number of places before the point that is written positionally. -/
  leastPoint : Int
  /-- The greatest number of places before the point that is written positionally. -/
  greatestPoint : Int
  /-- The least number of digits of a written exponent. -/
  exponentWidth : Nat

namespace DecimalLayout

/-- Numbers from `0.0001` up to, but not including, `10 ^ 16` are written positionally. -/
def plain : DecimalLayout := ⟨-3, 16, 2⟩

/-- A decimal as text. A whole number written positionally keeps one zero after its point. -/
def write (layout : DecimalLayout) (d : Binary64.Decimal) : Text :=
  let digits := Text.ofNat d.coefficient
  let point : Int := digits.length + d.exponent
  if layout.leastPoint ≤ point ∧ point ≤ layout.greatestPoint then
    if point ≤ 0 then "0." ++ List.replicate (-point).toNat (CodePoint.ofChar '0') ++ digits
    else if (digits.length : Int) ≤ point then
      digits ++ List.replicate (point - digits.length).toNat (CodePoint.ofChar '0') ++ ".0"
    else digits.take point.toNat ++ "." ++ digits.drop point.toNat
  else
    let exponent := point - 1
    let magnitude := Text.ofNat exponent.natAbs
    let padding := List.replicate (layout.exponentWidth - magnitude.length) (CodePoint.ofChar '0')
    let sign : Text := if exponent < 0 then "e-" else "e+"
    let fraction : Text := if digits.length ≤ 1 then [] else '.' :: digits.drop 1
    digits.take 1 ++ fraction ++ sign ++ padding ++ magnitude

end DecimalLayout

namespace Binary64

/-- A finite double as text; zero keeps its sign. -/
def Finite.text (x : Finite) : Text :=
  let magnitude : Text :=
    if x.mantissa = 0 then Text.ofString "0.0" else DecimalLayout.plain.write x.shortest
  if x.negative then '-' :: magnitude else magnitude

end Binary64

end JsonShapes
