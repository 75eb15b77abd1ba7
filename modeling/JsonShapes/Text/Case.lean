import JsonShapes.Text.CaseTable
import JsonShapes.Text.LetterTable

/-!
# Case mappings

Full upper-case, lower-case and title-case mappings. They act code point by code point except for
one rule of context: a capital sigma at the end of a word has a lower case of its own. Ignoring
what lies between, the end of a word is where a cased letter comes before and none comes after.
-/

namespace JsonShapes

namespace CaseTable

/-- What a code point maps to under a table, if the table mentions it. -/
def image? (runs : List Run) (expansions : List (Nat × List Nat)) (c : CodePoint) : Option Text :=
  match expansions.lookup c.val with
  | some image => some (image.map CodePoint.ofNat)
  | none =>
    (runs.find? (·.holds c.val)).map fun r => [CodePoint.ofNat (Int.toNat (c.val + r.shift))]

end CaseTable

namespace CodePoint

def upper (c : CodePoint) : Text :=
  (CaseTable.image? CaseTable.upperRuns CaseTable.upperExpansions c).getD [c]

/-- The lower case of a code point that stands alone. -/
def lower (c : CodePoint) : Text :=
  (CaseTable.image? CaseTable.lowerRuns CaseTable.lowerExpansions c).getD [c]

def title (c : CodePoint) : Text :=
  (CaseTable.image? CaseTable.titleRuns CaseTable.titleExpansions c).getD c.upper

def isUpperCase (c : CodePoint) : Bool :=
  LetterTable.upperCase.any fun (first, last, step) =>
    first ≤ c.val && c.val ≤ last && (c.val - first) % step == 0

def isCased (c : CodePoint) : Bool :=
  LetterTable.cased.any fun (first, last) => first ≤ c.val && c.val ≤ last

def isCaseIgnorable (c : CodePoint) : Bool :=
  LetterTable.caseIgnorable.any fun (first, last) => first ≤ c.val && c.val ≤ last

end CodePoint

namespace Text

/-- Whether the nearest code point that is not ignored is a cased one. -/
def meetsCased (t : Text) : Bool :=
  ((t.dropWhile CodePoint.isCaseIgnorable).head?.map CodePoint.isCased).getD false

/-- Lower case of a text whose code points before it are given in reverse order. -/
def lowerAfter : Text → Text → Text
  | _, [] => []
  | before, c :: rest =>
    (if c.val = 0x3A3 then
      [CodePoint.ofNat (if meetsCased before && !meetsCased rest then 0x3C2 else 0x3C3)]
    else c.lower) ++ lowerAfter (c :: before) rest

def lower (t : Text) : Text := lowerAfter [] t

def upper (t : Text) : Text := t.flatMap CodePoint.upper

/-- Title case for the first code point and lower case for the others. -/
def capitalize : Text → Text
  | [] => []
  | c :: rest => c.title ++ lowerAfter [c] rest

end Text

end JsonShapes
