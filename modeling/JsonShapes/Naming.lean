import JsonShapes.Text.Case

/-!
# Names

Identifiers for the generated modules. A safe identifier has only letters, digits, underscores and
dollar signs and does not start with a digit. Names in Pascal case are put together from the words
of a text. The type name of an endpoint comes from the segments of its path, without the host, the
path parameters in braces and the query.
-/

namespace JsonShapes

namespace Naming

def isIdentifierPoint (c : CodePoint) : Bool := c.isAlphanumeric || c = '_' || c = '$'

/-- Replaces what cannot stand in an identifier, and what cannot start one. -/
def safeIdentifier (name : Text) : Text :=
  let safe := name.map fun c : CodePoint => if isIdentifierPoint c then c else '_'
  match safe with
  | [] => "_"
  | c :: _ => if c.isDigit then '_' :: safe else safe

/-- The identifier for a number. -/
def numberIdentifier (n : Int) : Text := safeIdentifier ('_' :: Text.ofInt n)

/-- The identifier for a truth value. -/
def boolIdentifier (b : Bool) : Text := if b then "_True" else "_False"

/-- The pieces between the occurrences of a pair of colons, left to right; `piece` is the beginning
of the first one, in reverse. -/
def splitColons (piece : Text) : Text → List Text
  | [] => [piece.reverse]
  | [c] => [(c :: piece).reverse]
  | c :: d :: rest =>
    if c = ':' && d = ':' then piece.reverse :: splitColons [] rest
    else splitColons (c :: piece) (d :: rest)

/-- The words of a text without underscores. A capital letter starts a word and small letters and
digits go on with it. Small letters and digits also start a word if `smallStarts` is set. Anything
else belongs to no word. The word under way, if there is one, is given in reverse. -/
def wordsFrom (smallStarts : Bool) : Option Text → Text → List Text
  | word, [] => (word.map List.reverse).toList
  | word, c :: rest =>
    if c.isUpperLetter then (word.map List.reverse).toList ++ wordsFrom smallStarts (some [c]) rest
    else if c.isLowerLetter || c.isDigit then
      match word with
      | some w => wordsFrom smallStarts (some (c :: w)) rest
      | none => wordsFrom smallStarts (if smallStarts then some [c] else none) rest
    else (word.map List.reverse).toList ++ wordsFrom smallStarts none rest

/-- The words of a text: between underscores if there are any, else by case. A text that starts
with a capital has no words that start small. -/
def words (t : Text) : List Text :=
  if t.contains (CodePoint.ofChar '_') then Text.splitOn '_' t
  else
    match t with
    | [] => []
    | c :: _ => wordsFrom (!c.isUpperCase) none t

/-- Pascal case of a text without dots and pairs of colons; one leading underscore stays. -/
def pascalWord (t : Text) : Text :=
  let joined := (words t).flatMap Text.capitalize
  if t.head? = some (CodePoint.ofChar '_') then '_' :: joined else joined

/-- Pascal case of the pieces between dots. -/
def pascalDotted (t : Text) : Text := Text.join "." ((Text.splitOn '.' t).map pascalWord)

/-- Pascal case. Dots and pairs of colons stay; what comes before the first pair is kept as is. -/
def pascal (t : Text) : Text :=
  match splitColons [] t with
  | [] => []
  | [only] => pascalDotted only
  | first :: rest => Text.join "::" (first :: rest.map pascalDotted)

/-- The path without a leading scheme and host. -/
def dropHost (path : Text) : Text :=
  let afterScheme := (Text.dropStart? "http://" path).or (Text.dropStart? "https://" path)
  match afterScheme with
  | some (c :: rest) => if c = '/' then path else (c :: rest).dropWhile fun d => d ≠ '/'
  | _ => path

/-- Removes every group in braces that is not empty. The group under way, if there is one, is given
in reverse; it is kept if it turns out to be empty or not to be closed. -/
def dropGroupsFrom : Option Text → Text → Text
  | none, [] => []
  | some group, [] => '\x7b' :: group.reverse
  | none, c :: rest =>
    if c = '\x7b' then dropGroupsFrom (some []) rest else c :: dropGroupsFrom none rest
  | some group, c :: rest =>
    if c = '\x7d' then
      if group.isEmpty then '\x7b' :: '\x7d' :: dropGroupsFrom none rest
      else dropGroupsFrom none rest
    else dropGroupsFrom (some (c :: group)) rest

/-- What a segment is turned into before its words are told apart. -/
def cleaned (segment : Text) : Text :=
  segment.map fun c : CodePoint => if c.isAlphanumeric || c = '_' then c else '_'

/-- A path segment as a word for Pascal case. -/
def segmentName (segment : Text) : Text := pascal (cleaned segment)

/-- The part of an endpoint path that names its type. -/
def nameablePath (path : Text) : Text :=
  (dropGroupsFrom none (dropHost path)).takeWhile fun c => c ≠ '?'

/-- The segments of a path that are not empty. -/
def segments (path : Text) : List Text :=
  (Text.splitOn '/' (nameablePath path)).filter fun s => !s.isEmpty

/-- The type name of an endpoint path; the root path has an empty one. -/
def typeName (path : Text) : Text :=
  ((segments path).flatMap segmentName).filter fun c => c ≠ '_'

/-- The name under which the type of an endpoint is first tried. -/
def baseName (path : Text) : Text :=
  match typeName path with
  | [] => safeIdentifier "Root"
  | name => safeIdentifier name

/-- The numbered names to try when the plain one is taken. -/
def numbered (base : Text) (count : Nat) : List Text :=
  (List.range count).map fun k => base ++ Text.ofNat (k + 2)

/-- The first name not in use: the base itself, or the base with the least number from two on. One
more candidate than there are names in use is always enough. -/
def fresh (used : List Text) (base : Text) : Text :=
  ((base :: numbered base used.length).find? fun name => name ∉ used).getD base

end Naming

end JsonShapes
