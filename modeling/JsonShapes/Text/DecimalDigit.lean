import JsonShapes.Text.Lines

/-!
# Decimal digits of all scripts

The decimal digits of Unicode 14 come in runs of ten, so a digit is known by the zero of its run.
Numbers given by hand may use any of them, with white space around and single underscores between
digits.
-/

namespace JsonShapes

/-- The zeros of all scripts. -/
def CodePoint.zeros : List Nat :=
  [0x30, 0x660, 0x6F0, 0x7C0, 0x966, 0x9E6, 0xA66, 0xAE6, 0xB66, 0xBE6, 0xC66, 0xCE6, 0xD66, 0xDE6,
   0xE50, 0xED0, 0xF20, 0x1040, 0x1090, 0x17E0, 0x1810, 0x1946, 0x19D0, 0x1A80, 0x1A90, 0x1B50,
   0x1BB0, 0x1C40, 0x1C50, 0xA620, 0xA8D0, 0xA900, 0xA9D0, 0xA9F0, 0xAA50, 0xABF0, 0xFF10, 0x104A0,
   0x10D30, 0x11066, 0x110F0, 0x11136, 0x111D0, 0x112F0, 0x11450, 0x114D0, 0x11650, 0x116C0,
   0x11730, 0x118E0, 0x11950, 0x11C50, 0x11D50, 0x11DA0, 0x16A60, 0x16AC0, 0x16B50, 0x1D7CE,
   0x1D7D8, 0x1D7E2, 0x1D7EC, 0x1D7F6, 0x1E140, 0x1E2F0, 0x1E950, 0x1FBF0]

/-- The value of a decimal digit of any script. -/
def CodePoint.decimalValue? (c : CodePoint) : Option Nat :=
  (CodePoint.zeros.find? fun z => z ≤ c.val && c.val < z + 10).map (c.val - ·)

namespace Text

/-- The number that digits with single underscores between them stand for, and how many digits
there are. -/
def groupedDigits? : Nat → Nat → Text → Option (Nat × Nat)
  | _, _, [] => none
  | n, count, c :: rest =>
    match c.decimalValue? with
    | none => none
    | some d =>
      match rest with
      | [] => some (10 * n + d, count + 1)
      | u :: rest' =>
        if u = '_' then groupedDigits? (10 * n + d) (count + 1) rest'
        else groupedDigits? (10 * n + d) (count + 1) (u :: rest')

/-- The most digits that a number given by hand may have. -/
def maxDigits : Nat := 4300

/-- The integer that a text spells: white space around, a sign, digits of any script with single
underscores between them, and no more of them than `maxDigits`. -/
def toInt? (t : Text) : Option Int :=
  let magnitude (digits : Text) : Option Nat :=
    match groupedDigits? 0 0 digits with
    | some (n, count) => if count ≤ maxDigits then some n else none
    | none => none
  match t.trimBy CodePoint.isWhiteSpace with
  | [] => none
  | c :: rest =>
    if c = '-' then (magnitude rest).map fun n => -(n : Int)
    else if c = '+' then (magnitude rest).map fun n => (n : Int)
    else (magnitude (c :: rest)).map fun n => (n : Int)

end Text

end JsonShapes
