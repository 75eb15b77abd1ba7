import JsonShapes.Proofs.Digits
import JsonShapes.Proofs.Reader
import JsonShapes.Proofs.ShortestDecimal

/-!
# Numbers read back from their text

The text of an integer reads as the integer, as long as it is not too long, and the text of a finite
double as the double. A written decimal takes one of four forms; each reads as a coefficient and a
power of ten of the same value, though not always the same two numbers, and that value is all that
decides on the double.
-/

namespace JsonShapes

namespace Text

/-- The text does not go on with a digit. -/
def NoDigit (rest : Text) : Prop := ∀ c ∈ rest.head?, c.isDigit = false

/-- The text does not go on with anything that could still belong to a number. -/
def EndsNumber (rest : Text) : Prop :=
  ∀ c ∈ rest.head?, c.isDigit = false ∧ c ≠ '.' ∧ c ≠ 'e' ∧ c ≠ 'E'

theorem EndsNumber.noDigit {rest : Text} (h : rest.EndsNumber) : rest.NoDigit :=
  fun c hc => (h c hc).1

theorem takeWhile_isDigit {t rest : Text} (digits : t.IsDigits) (ends : rest.NoDigit) :
    (t ++ rest).takeWhile CodePoint.isDigit = t := by
  rw [List.takeWhile_append_of_pos digits]
  cases rest with
  | nil => simp
  | cons c rest => simp [ends c rfl]

theorem dropWhile_isDigit {t rest : Text} (digits : t.IsDigits) (ends : rest.NoDigit) :
    (t ++ rest).dropWhile CodePoint.isDigit = rest := by
  rw [List.dropWhile_append_of_pos digits]
  cases rest with
  | nil => rfl
  | cons c rest => simp [ends c rfl]

end Text

namespace Json

open Text

theorem wholeDigits?_append {whole rest : Text} (h : whole.IsWhole) (ends : rest.NoDigit) :
    wholeDigits? (whole ++ rest) = some (whole, rest) := by
  cases h with
  | zero => rfl
  | digits first digit digits =>
      rw [List.cons_append, wholeDigits?, if_neg first, if_pos digit,
        takeWhile_isDigit digits ends, dropWhile_isDigit digits ends]

/-- A point and digits after it, or nothing if there are none. -/
def afterPoint (digits : Text) : Text := if digits = [] then [] else '.' :: digits

theorem fraction?_append {digits rest : Text} (nonempty : digits ≠ []) (h : digits.IsDigits)
    (ends : rest.NoDigit) :
    fraction? (CodePoint.ofChar '.' :: digits ++ rest) = some (digits, rest) := by
  rw [List.cons_append, fraction?, if_pos rfl, takeWhile_isDigit h ends, dropWhile_isDigit h ends]
  cases digits with
  | nil => exact absurd rfl nonempty
  | cons c digits => rfl

theorem fraction?_eq_none {rest : Text} (ends : ∀ c ∈ rest.head?, c ≠ '.') :
    fraction? rest = none := by
  cases rest with
  | nil => rfl
  | cons c rest => rw [fraction?, if_neg (ends c rfl)]

theorem exponent?_eq_none {rest : Text} (ends : rest.EndsNumber) : exponent? rest = none := by
  cases rest with
  | nil => rfl
  | cons c rest =>
      obtain ⟨-, -, lower, upper⟩ := ends c rfl
      simp [exponent?, lower, upper]

/-- The mark of an exponent, with its sign. -/
def exponentMark (negative : Bool) : Text := if negative then "e-" else "e+"

theorem exponent?_mark (negative : Bool) (s : Text) :
    exponent? (exponentMark negative ++ s) =
      match s.takeWhile CodePoint.isDigit with
      | [] => none
      | digits => some (if negative then -(toNat digits : Int) else toNat digits,
          s.dropWhile CodePoint.isDigit) := by
  cases negative <;> rfl

theorem exponent?_append (negative : Bool) {digits rest : Text} (nonempty : digits ≠ [])
    (h : digits.IsDigits) (ends : rest.NoDigit) :
    exponent? (exponentMark negative ++ (digits ++ rest)) =
      some (if negative then -(toNat digits : Int) else toNat digits, rest) := by
  obtain ⟨c, tail, eq⟩ := List.exists_cons_of_ne_nil nonempty
  rw [exponent?_mark, takeWhile_isDigit h ends, dropWhile_isDigit h ends, eq]

/-- Digits alone are an integer. -/
theorem readNumber_whole (negative : Bool) (start : Text) {whole rest : Text}
    (h : whole.IsWhole) (short : whole.length ≤ maxDigits) (ends : rest.EndsNumber) :
    readNumber negative start (whole ++ rest) =
      .ok (.int (if negative then -(toNat whole : Int) else toNat whole), rest) := by
  rw [readNumber, wholeDigits?_append h ends.noDigit]
  dsimp only
  rw [fraction?_eq_none fun c hc => (ends c hc).2.1, Option.map_none, Option.getD_none,
    exponent?_eq_none ends, if_neg (Nat.not_lt.mpr short)]

/-- Digits with a point are a double. -/
theorem readNumber_fraction (negative : Bool) (start : Text) {whole digits rest : Text}
    (h : whole.IsWhole) (nonempty : digits ≠ []) (isDigits : digits.IsDigits)
    (ends : rest.EndsNumber) :
    readNumber negative start (whole ++ (CodePoint.ofChar '.' :: digits ++ rest)) =
      .ok (.double (.ofDecimal negative (toNat (whole ++ digits)) (-digits.length)), rest) := by
  have point : NoDigit (CodePoint.ofChar '.' :: digits ++ rest) := by
    rintro _ ⟨⟩
    decide
  rw [readNumber, wholeDigits?_append h point]
  dsimp only
  rw [fraction?_append nonempty isDigits ends.noDigit, Option.map_some, Option.getD_some,
    exponent?_eq_none ends]
  simp

/-- Digits with an exponent are a double, with or without a point. -/
theorem readNumber_exponent (negative : Bool) (start : Text) {whole digits power rest : Text}
    (h : whole.IsWhole) (isDigits : digits.IsDigits) (below : Bool) (nonempty : power ≠ [])
    (isPower : power.IsDigits) (ends : rest.NoDigit) :
    readNumber negative start (whole ++ (afterPoint digits ++
        (exponentMark below ++ (power ++ rest)))) =
      .ok (.double (.ofDecimal negative (toNat (whole ++ digits))
        ((if below then -(toNat power : Int) else toNat power) - digits.length)), rest) := by
  have exponent := exponent?_append below nonempty isPower ends
  have mark : ∃ s, exponentMark below ++ (power ++ rest) = CodePoint.ofChar 'e' :: s := by
    cases below <;> exact ⟨_, rfl⟩
  obtain ⟨s, eq⟩ := mark
  rw [eq] at exponent
  rw [eq]
  have noDigit : NoDigit (CodePoint.ofChar 'e' :: s) := by
    rintro _ ⟨⟩
    decide
  by_cases empty : digits = []
  · subst empty
    have none : fraction? (CodePoint.ofChar 'e' :: s) = none := rfl
    rw [afterPoint, if_pos rfl, List.nil_append, readNumber, wholeDigits?_append h noDigit]
    dsimp only
    rw [none, Option.map_none, Option.getD_none, exponent]
    simp
  · have point : NoDigit (CodePoint.ofChar '.' :: digits ++ CodePoint.ofChar 'e' :: s) := by
      rintro _ ⟨⟩
      decide
    rw [afterPoint, if_neg empty, readNumber, wholeDigits?_append h point]
    dsimp only
    rw [fraction?_append empty isDigits noDigit, Option.map_some, Option.getD_some, exponent]
    simp

/-- The first digits of a positive number are the digits before a point. -/
theorem isWhole_take {n : Nat} (nonzero : n ≠ 0) {count : Nat} (some : 0 < count) :
    IsWhole ((ofNat n).take count) := by
  obtain ⟨c, t, eq, first, digit, rest⟩ := exists_ofNat_eq_cons nonzero
  obtain ⟨k, rfl⟩ := Nat.exists_eq_succ_of_ne_zero some.ne'
  rw [eq, List.take_succ_cons]
  exact .digits first digit (rest.take k)

theorem isWhole_append {n : Nat} (nonzero : n ≠ 0) {t : Text} (h : t.IsDigits) :
    IsWhole (ofNat n ++ t) := by
  obtain ⟨c, s, eq, first, digit, rest⟩ := exists_ofNat_eq_cons nonzero
  rw [eq]
  exact .digits first digit (rest.append h)

section Layouts

variable (negative : Bool) (start : Text) {n : Nat} {rest : Text}

/-- Zeros between the point and the digits. -/
theorem readNumber_zeros_before (zeros : Nat) (ends : rest.EndsNumber) :
    readNumber negative start (Text.ofString "0." ++ List.replicate zeros (CodePoint.ofChar '0') ++
        ofNat n ++ rest) =
      .ok (.double (.ofDecimal negative n (-(zeros + (ofNat n).length))), rest) := by
  have digits : IsDigits (List.replicate zeros (CodePoint.ofChar '0') ++ ofNat n) :=
    (isDigits_zeros zeros).append (isDigits_ofNat n)
  have nonempty : List.replicate zeros (CodePoint.ofChar '0') ++ ofNat n ≠ [] :=
    List.append_ne_nil_of_right_ne_nil _ (ofNat_ne_nil n)
  have read := readNumber_fraction negative start .zero nonempty digits ends
  have zero : toNat [CodePoint.ofChar '0'] = 0 := toNat_zeros 1
  have point : Text.ofString "0." = [CodePoint.ofChar '0', CodePoint.ofChar '.'] := rfl
  rw [toNat_append, toNat_append, toNat_zeros, toNat_ofNat, zero, List.length_append,
    List.length_replicate] at read
  simpa [point] using read

/-- Zeros between the digits and the point. -/
theorem readNumber_zeros_after (nonzero : n ≠ 0) (zeros : Nat) (ends : rest.EndsNumber) :
    readNumber negative start (ofNat n ++ List.replicate zeros (CodePoint.ofChar '0') ++
        Text.ofString ".0" ++ rest) =
      .ok (.double (.ofDecimal negative (n * 10 ^ zeros * 10) (-1)), rest) := by
  have read := readNumber_fraction negative start (isWhole_append nonzero (isDigits_zeros zeros))
    (show [CodePoint.ofChar '0'] ≠ [] by simp) (isDigits_zeros 1) ends
  have zero : toNat [CodePoint.ofChar '0'] = 0 := toNat_zeros 1
  have point : Text.ofString ".0" = [CodePoint.ofChar '.', CodePoint.ofChar '0'] := rfl
  rw [toNat_append, toNat_append, toNat_zeros, toNat_ofNat, zero] at read
  simpa [point] using read

/-- The point among the digits. -/
theorem readNumber_point (nonzero : n ≠ 0) {point : Nat} (some : 0 < point)
    (inside : point < (ofNat n).length) (ends : rest.EndsNumber) :
    readNumber negative start ((ofNat n).take point ++ Text.ofString "." ++ (ofNat n).drop point ++
        rest) =
      .ok (.double (.ofDecimal negative n (-((ofNat n).length - point : Nat))), rest) := by
  have nonempty : (ofNat n).drop point ≠ [] := by
    simpa using inside
  have read := readNumber_fraction negative start (isWhole_take nonzero some) nonempty
    ((isDigits_ofNat n).drop point) ends
  have dot : Text.ofString "." = [CodePoint.ofChar '.'] := rfl
  rw [List.take_append_drop, toNat_ofNat, List.length_drop] at read
  simpa [dot] using read

/-- One digit before the point, and an exponent. -/
theorem readNumber_scientific (nonzero : n ≠ 0) (power : Int) (zeros : Nat)
    (ends : rest.EndsNumber) :
    readNumber negative start ((ofNat n).take 1 ++ afterPoint ((ofNat n).drop 1) ++
        exponentMark (power < 0) ++ List.replicate zeros (CodePoint.ofChar '0') ++
        ofNat power.natAbs ++ rest) =
      .ok (.double (.ofDecimal negative n (power - ((ofNat n).length - 1 : Nat))), rest) := by
  have digits : IsDigits (List.replicate zeros (CodePoint.ofChar '0') ++ ofNat power.natAbs) :=
    (isDigits_zeros zeros).append (isDigits_ofNat _)
  have nonempty : List.replicate zeros (CodePoint.ofChar '0') ++ ofNat power.natAbs ≠ [] :=
    List.append_ne_nil_of_right_ne_nil _ (ofNat_ne_nil _)
  have read := readNumber_exponent negative start (isWhole_take nonzero Nat.one_pos)
    ((isDigits_ofNat n).drop 1) (power < 0) nonempty digits ends.noDigit
  have sign : (if decide (power < 0) = true then -(power.natAbs : Int) else power.natAbs) =
      power := by
    simp only [decide_eq_true_eq]
    split <;> omega
  rw [List.take_append_drop, toNat_append, toNat_zeros, toNat_ofNat, toNat_ofNat, Nat.zero_mul,
    Nat.zero_add, sign, List.length_drop] at read
  simpa using read

end Layouts

/-- A written decimal reads as one of the same value. -/
theorem exists_readNumber_write (layout : DecimalLayout) {d : Binary64.Decimal}
    (nonzero : d.coefficient ≠ 0) (negative : Bool) (start : Text) {rest : Text}
    (ends : rest.EndsNumber) :
    ∃ (c : Nat) (k : Int), (c : ℚ) * 10 ^ k = d.coefficient * 10 ^ d.exponent ∧
      readNumber negative start (layout.write d ++ rest) =
        .ok (.double (.ofDecimal negative c k), rest) := by
  have length : 0 < (ofNat d.coefficient).length :=
    List.length_pos_of_ne_nil (ofNat_ne_nil d.coefficient)
  rw [DecimalLayout.write]
  generalize pointEq : ((ofNat d.coefficient).length : Int) + d.exponent = point
  dsimp only
  split
  · split
    · refine ⟨d.coefficient, _, ?_, readNumber_zeros_before negative start _ ends⟩
      congr 2
      omega
    · split
      · refine ⟨_, _, ?_, readNumber_zeros_after negative start nonzero _ ends⟩
        have power : d.exponent = ((point - (ofNat d.coefficient).length).toNat : Int) := by omega
        rw [power, zpow_natCast, zpow_neg_one]
        push_cast
        field_simp
      · refine ⟨d.coefficient, _, ?_, readNumber_point negative start nonzero
          (show 0 < point.toNat by omega) (by omega) ends⟩
        congr 2
        omega
  · have fraction : (if (ofNat d.coefficient).length ≤ 1 then ([] : Text)
        else '.' :: (ofNat d.coefficient).drop 1) = afterPoint ((ofNat d.coefficient).drop 1) := by
      simp only [afterPoint, List.drop_eq_nil_iff]
    have mark : (if point - 1 < 0 then Text.ofString "e-" else Text.ofString "e+") =
        exponentMark (decide (point - 1 < 0)) := by
      simp only [exponentMark, decide_eq_true_eq]
    rw [fraction, mark]
    refine ⟨d.coefficient, _, ?_, readNumber_scientific negative start nonzero _ _ ends⟩
    congr 2
    omega

/-- The first code point of a number without its sign. -/
theorem exists_eq_cons_of_readNumber {negative : Bool} {start s : Text} {r : Json × Text}
    (h : readNumber negative start s = .ok r) : ∃ c t, s = c :: t ∧ c.isDigit = true := by
  cases s with
  | nil => cases h
  | cons c t =>
      refine ⟨c, t, rfl, ?_⟩
      by_contra other
      have zero : c ≠ '0' := by
        rintro rfl
        exact other rfl
      rw [readNumber, wholeDigits?, if_neg zero, if_neg other] at h
      cases h

theorem dropStart?_eq_none {b c : CodePoint} (other : b ≠ c) (word t : Text) :
    dropStart? (b :: word) (c :: t) = none := by
  rw [dropStart?, if_neg other]

/-- No word starts with a digit. -/
theorem word?_eq_none_of_isDigit {c : CodePoint} (digit : c.isDigit = true) (t : Text) :
    word? (c :: t) = none := by
  have starts : ∀ p ∈ words, p.1.head?.map CodePoint.isDigit = some false := by decide
  refine List.findSome?_eq_none_iff.mpr fun p hp => ?_
  obtain ⟨b, head, notDigit⟩ := Option.map_eq_some_iff.mp (starts p hp)
  obtain ⟨word, eq⟩ := List.head?_eq_some_iff.mp head
  have other : b ≠ c := by
    rintro rfl
    rw [digit] at notDigit
    cases notDigit
  simp only [eq, dropStart?_eq_none other, Option.map_none]

/-- No word starts with a minus sign before a digit. -/
theorem word?_minus_eq_none {c : CodePoint} (digit : c.isDigit = true) (t : Text) :
    word? ('-' :: c :: t) = none := by
  have starts : ∀ p ∈ words, p.1.head? ≠ some '-' → p.1 ≠ [] := by decide
  have goesOn : ∀ p ∈ words, p.1.head? = some '-' →
      p.1.tail.head?.map CodePoint.isDigit = some false := by decide
  refine List.findSome?_eq_none_iff.mpr fun p hp => ?_
  by_cases minus : p.1.head? = some '-'
  · obtain ⟨b, head, notDigit⟩ := Option.map_eq_some_iff.mp (goesOn p hp minus)
    obtain ⟨word, eq⟩ := List.head?_eq_some_iff.mp minus
    rw [eq, List.tail_cons] at head
    obtain ⟨more, rfl⟩ := List.head?_eq_some_iff.mp head
    have other : b ≠ c := by
      rintro rfl
      rw [digit] at notDigit
      cases notDigit
    simp only [eq, dropStart?, if_true, if_neg other, Option.map_none]
  · obtain ⟨b, word, eq⟩ := List.exists_cons_of_ne_nil (starts p hp minus)
    have other : b ≠ '-' := by
      rintro rfl
      exact minus (by rw [eq]; rfl)
    simp only [eq, dropStart?_eq_none other, Option.map_none]

/-- A number is read with its sign. -/
theorem readScalar_of_readNumber {negative : Bool} {s : Text} {r : Json × Text}
    (h : ∀ start, readNumber negative start s = .ok r) :
    readScalar (if negative then '-' :: s else s) = .ok r := by
  obtain ⟨c, t, rfl, digit⟩ := exists_eq_cons_of_readNumber (h [])
  cases negative with
  | true =>
      rw [if_pos rfl, readScalar, word?_minus_eq_none digit]
      exact h _
  | false =>
      have minus : c ≠ '-' := by
        rintro rfl
        cases digit
      rw [if_neg (by decide), readScalar, word?_eq_none_of_isDigit digit]
      dsimp only
      rw [if_neg minus]
      exact h _

theorem ofInt_eq (n : Int) :
    ofInt n =
      if decide (n < 0) then CodePoint.ofChar '-' :: ofNat n.natAbs else ofNat n.natAbs := by
  cases n with
  | ofNat n => rfl
  | negSucc n =>
      rw [if_pos (decide_eq_true (Int.negSucc_lt_zero n))]
      rfl

/-- The magnitude of an integer, as it is written. -/
theorem readNumber_natAbs {n : Int} (short : (ofNat n.natAbs).length ≤ maxDigits) (start : Text)
    {rest : Text} (ends : rest.EndsNumber) :
    readNumber (decide (n < 0)) start (ofNat n.natAbs ++ rest) = .ok (.int n, rest) := by
  rw [readNumber_whole (decide (n < 0)) start (isWhole_ofNat n.natAbs) short ends, toNat_ofNat]
  congr 3
  simp only [decide_eq_true_eq]
  split <;> omega

theorem finite_eq_zero {x : Binary64.Finite} (zero : x.mantissa = 0) :
    x = .zero x.negative := by
  obtain ⟨negative, mantissa, exponent, normal⟩ := x
  obtain rfl : mantissa = 0 := zero
  obtain rfl : exponent = -1074 := normal.2.2.2.resolve_left (by decide)
  rfl

/-- The magnitude of a double, as it is written. -/
theorem readNumber_magnitude (x : Binary64.Finite) (start : Text) {rest : Text}
    (ends : rest.EndsNumber) :
    readNumber x.negative start ((if x.mantissa = 0 then Text.ofString "0.0"
        else DecimalLayout.plain.write x.shortest) ++ rest) =
      .ok (.double (.finite x), rest) := by
  split
  · next zero =>
      have read := readNumber_zeros_before x.negative start (n := 0) 0 ends
      rw [Binary64.ofDecimal, if_pos rfl, ← finite_eq_zero zero] at read
      exact read
  · next nonzero =>
      have covers := Binary64.Finite.covers_shortest nonzero
      have coefficient : x.shortest.coefficient ≠ 0 := by
        intro zero
        have positive := covers.lower nonzero
        rw [zero, Nat.cast_zero, zero_mul] at positive
        exact absurd positive (not_le.mpr (by positivity))
      obtain ⟨c, k, value, read⟩ :=
        exists_readNumber_write .plain coefficient x.negative start ends
      rw [← value] at covers
      rw [read, Binary64.ofDecimal_eq_finite nonzero covers]

/-- A document that is a number. -/
theorem parse_of_readNumber {negative : Bool} {s : Text} {v : Json}
    (h : ∀ start, readNumber negative start s = .ok (v, [])) :
    parse (if negative then '-' :: s else s) = .ok v :=
  parse_of_readValue (readValue_of_readScalar (readScalar_of_readNumber h) _)

theorem endsNumber_nil : EndsNumber [] := fun _ h => nomatch h

/-- A finite double is what its text reads as. -/
theorem parse_text (x : Binary64.Finite) : parse x.text = .ok (.double (.finite x)) := by
  apply parse_of_readNumber
  intro start
  simpa using readNumber_magnitude x start endsNumber_nil

/-- An integer is what its digits read as. -/
theorem parse_ofInt {n : Int} (short : (ofNat n.natAbs).length ≤ maxDigits) :
    parse (ofInt n) = .ok (.int n) := by
  rw [ofInt_eq]
  apply parse_of_readNumber
  intro start
  simpa using readNumber_natAbs short start endsNumber_nil

end Json

end JsonShapes
