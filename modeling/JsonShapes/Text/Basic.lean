/-!
# Code points and texts

A text is a finite sequence of code points. Unlike `String`, it may hold lone surrogates: JSON
documents can spell them, so every later stage has to carry them through. Texts are ordered by
code point, which is the order of every sorted listing in this library.
-/

namespace JsonShapes

/-- A number below `0x110000`. Surrogates are code points like any other. -/
structure CodePoint where
  val : Nat
  isLt : val < 0x110000
deriving DecidableEq

namespace CodePoint

instance : LT CodePoint := ⟨fun a b => a.val < b.val⟩

instance : LE CodePoint := ⟨fun a b => a.val ≤ b.val⟩

instance (a b : CodePoint) : Decidable (a < b) := inferInstanceAs (Decidable (a.val < b.val))

instance (a b : CodePoint) : Decidable (a ≤ b) := inferInstanceAs (Decidable (a.val ≤ b.val))

/-- The code point with the given number, or U+FFFD where there is none. -/
def ofNat (n : Nat) : CodePoint :=
  if h : n < 0x110000 then ⟨n, h⟩ else ⟨0xFFFD, by decide⟩

theorem toNat_lt (c : Char) : c.toNat < 0x110000 := by
  have h := c.valid
  simp only [UInt32.isValidChar, Nat.isValidChar] at h
  have e : c.toNat = c.val.toNat := rfl
  omega

/-- Every character is a code point; the converse fails at surrogates only. -/
def ofChar (c : Char) : CodePoint := ⟨c.toNat, toNat_lt c⟩

instance : Coe Char CodePoint := ⟨ofChar⟩

/-- The character of a code point, with U+FFFD standing in for a surrogate. -/
def toChar (c : CodePoint) : Char :=
  if h : c.val.isValidChar then Char.ofNatAux c.val h else Char.ofNat 0xFFFD

def isHighSurrogate (c : CodePoint) : Bool := 0xD800 ≤ c.val && c.val ≤ 0xDBFF

def isLowSurrogate (c : CodePoint) : Bool := 0xDC00 ≤ c.val && c.val ≤ 0xDFFF

def isSurrogate (c : CodePoint) : Bool := 0xD800 ≤ c.val && c.val ≤ 0xDFFF

/-- The digits `0` to `9`. -/
def isDigit (c : CodePoint) : Bool := 0x30 ≤ c.val && c.val ≤ 0x39

/-- The letters `a` to `z`. -/
def isLowerLetter (c : CodePoint) : Bool := 0x61 ≤ c.val && c.val ≤ 0x7A

/-- The letters `A` to `Z`. -/
def isUpperLetter (c : CodePoint) : Bool := 0x41 ≤ c.val && c.val ≤ 0x5A

/-- A letter of either case or a digit, all of ASCII. -/
def isAlphanumeric (c : CodePoint) : Bool := c.isLowerLetter || c.isUpperLetter || c.isDigit

/-- The hexadecimal digit for a number below sixteen, in lower case. -/
def hexDigit (n : Nat) : CodePoint :=
  if n < 10 then ofNat (0x30 + n) else ofNat (0x61 + (n - 10))

/-- The number that a hexadecimal digit of either case stands for. -/
def hexValue? (c : CodePoint) : Option Nat :=
  if c.isDigit then some (c.val - 0x30)
  else if 0x61 ≤ c.val && c.val ≤ 0x66 then some (c.val - 0x61 + 10)
  else if 0x41 ≤ c.val && c.val ≤ 0x46 then some (c.val - 0x41 + 10)
  else none

@[simp] theorem val_ofChar (c : Char) : (ofChar c).val = c.toNat := rfl

theorem isSurrogate_eq (c : CodePoint) :
    c.isSurrogate = (c.isHighSurrogate || c.isLowSurrogate) := by
  rw [Bool.eq_iff_iff]
  simp only [isSurrogate, isHighSurrogate, isLowSurrogate, Bool.and_eq_true, Bool.or_eq_true,
    decide_eq_true_eq]
  omega

end CodePoint

/-- A finite sequence of code points. -/
abbrev Text := List CodePoint

namespace Text

instance instLawfulBEq : LawfulBEq Text := inferInstance

def ofString (s : String) : Text := s.toList.map CodePoint.ofChar

instance : Coe String Text := ⟨ofString⟩

/-- The text as a string; lone surrogates, which a string cannot hold, become U+FFFD. -/
def toString (t : Text) : String := String.ofList (t.map CodePoint.toChar)

/-- The decimal digits of a natural number. -/
def ofNat (n : Nat) : Text := (Nat.toDigits 10 n).map CodePoint.ofChar

/-- The decimal digits of an integer, with a minus sign in front of a negative one. -/
def ofInt : Int → Text
  | .ofNat n => ofNat n
  | .negSucc n => '-' :: ofNat (n + 1)

/-- The last `width` hexadecimal digits of a number. -/
def hex : Nat → Nat → Text
  | 0, _ => []
  | width + 1, n => hex width (n / 16) ++ [CodePoint.hexDigit (n % 16)]

/-- The number a run of digits stands for, read in base ten. -/
def toNat (digits : Text) : Nat := digits.foldl (fun n c => 10 * n + (c.val - 0x30)) 0

/-- The pieces between the occurrences of a separator; there is always at least one. -/
def splitOn (sep : CodePoint) : Text → List Text
  | [] => [[]]
  | c :: rest =>
    if c = sep then [] :: splitOn sep rest
    else
      match splitOn sep rest with
      | [] => [[c]]
      | piece :: pieces => (c :: piece) :: pieces

/-- The pieces laid end to end with a separator between neighbours. -/
def join (sep : Text) : List Text → Text
  | [] => []
  | [piece] => piece
  | piece :: pieces => piece ++ sep ++ join sep pieces

/-- The given number of copies of a text, laid end to end. -/
def times : Nat → Text → Text
  | 0, _ => []
  | n + 1, t => t ++ times n t

/-- What follows the given beginning of a text, if it begins so. -/
def dropStart? : Text → Text → Option Text
  | [], t => some t
  | _ :: _, [] => none
  | b :: beginning, c :: rest => if b = c then dropStart? beginning rest else none

def startsWith (t beginning : Text) : Bool := (dropStart? beginning t).isSome

/-- Whether no code point is a surrogate, so that the text can be encoded. -/
def isEncodable (t : Text) : Bool := t.all fun c => !c.isSurrogate

/-- Every surrogate is written out as a backslash, `u` and four hexadecimal digits. -/
def escapeSurrogates (t : Text) : Text :=
  t.flatMap fun c => if c.isSurrogate then '\\' :: 'u' :: hex 4 c.val else [c]

@[simp] theorem times_zero (t : Text) : times 0 t = [] := rfl

@[simp] theorem times_succ (n : Nat) (t : Text) : times (n + 1) t = t ++ times n t := rfl

theorem dropStart?_eq_some_iff {beginning t rest : Text} :
    dropStart? beginning t = some rest ↔ t = beginning ++ rest := by
  fun_induction dropStart? beginning t with
  | case1 t => simp
  | case2 => simp
  | case3 b beginning t ih => simp [ih]
  | case4 b beginning c t other => simp [Ne.symm other]

theorem splitOn_ne_nil (sep : CodePoint) (t : Text) : splitOn sep t ≠ [] := by
  cases t with
  | nil => simp [splitOn]
  | cons c rest =>
    rw [splitOn]
    split
    · simp
    · split <;> simp

end Text

end JsonShapes
