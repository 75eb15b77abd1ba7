import JsonShapes.Json.Basic
import JsonShapes.Text.DecimalDigit

/-!
# Reading JSON

A reader takes the rest of a document and gives back what it read together with what follows. A
failure keeps the rest at which it arose, from which the position in the document is counted. Only
space, tab, line feed and carriage return are white space. A number or word takes its longest valid
beginning, so that whatever follows is judged as if it stood alone. Objects take the last value of
a repeated key and keep its first place.
-/

namespace JsonShapes

namespace Json

/-- What is wrong with a document. -/
inductive Problem where
  | value
  | propertyName
  | colon
  | comma
  | unterminatedString
  | controlCharacter
  | escape
  | unicodeEscape
  | extraData
  | byteOrderMark
deriving DecidableEq

/-- A problem, and the rest of the document from where it arose. -/
inductive Failure where
  | problem (what : Problem) (rest : Text)
  | tooManyDigits (count : Nat)
deriving DecidableEq

/-- The outcome of reading one thing off the front of a text. -/
abbrev Read (α : Type) := Except Failure (α × Text)

def isSpace (c : CodePoint) : Bool := c = ' ' || c = '\t' || c = '\n' || c = '\r'

/-- The text from its first code point on that is not white space. -/
def skipSpace (s : Text) : Text := s.dropWhile isSpace

/-- Four hexadecimal digits, at least one code point following them. -/
def hex4? : Text → Option (Nat × Text)
  | a :: b :: c :: d :: e :: rest => do
    let a ← a.hexValue?
    let b ← b.hexValue?
    let c ← c.hexValue?
    let d ← d.hexValue?
    return (((a * 16 + b) * 16 + c) * 16 + d, e :: rest)
  | _ => none

/-- The low surrogate that an escape at the front of a text spells, and what follows. -/
def lowEscape? : Text → Option (Nat × Text)
  | a :: b :: rest =>
    if a = '\\' && b = 'u' then
      match hex4? rest with
      | some (n, rest) => if 0xDC00 ≤ n && n ≤ 0xDFFF then some (n, rest) else none
      | none => none
    else none
  | _ => none

/-- The code point of an escape that is not given by number. -/
def shortEscape? (c : CodePoint) : Option CodePoint :=
  if c = '"' || c = '\\' || c = '/' then some c
  else if c = 'b' then some (CodePoint.ofNat 0x08)
  else if c = 'f' then some (CodePoint.ofNat 0x0C)
  else if c = 'n' then some '\n'
  else if c = 'r' then some '\r'
  else if c = 't' then some '\t'
  else none

/-- An escaped code point, given what follows the backslash; `opening` is the text from the quote
that opened the string on. Escaped surrogates that form a pair are one code point. -/
def readEscape (opening backslash : Text) : Text → Read CodePoint
  | [] => .error (.problem .unterminatedString opening)
  | c :: rest =>
    if c = 'u' then
      match hex4? rest with
      | none => .error (.problem .unicodeEscape (c :: rest))
      | some (n, rest) =>
        if 0xD800 ≤ n && n ≤ 0xDBFF then
          match lowEscape? rest with
          | some (low, rest) =>
            .ok (CodePoint.ofNat (0x10000 + (n - 0xD800) * 0x400 + (low - 0xDC00)), rest)
          | none => .ok (CodePoint.ofNat n, rest)
        else .ok (CodePoint.ofNat n, rest)
    else
      match shortEscape? c with
      | some d => .ok (d, rest)
      | none => .error (.problem .escape backslash)

/-- The inside of a string up to its closing quote. Every step takes at least one code point, so
`fuel` need only reach the length of the text. -/
def readString (opening : Text) : Nat → Text → Read Text
  | 0, _ => .error (.problem .unterminatedString opening)
  | _ + 1, [] => .error (.problem .unterminatedString opening)
  | fuel + 1, c :: rest =>
    if c = '"' then .ok ([], rest)
    else if c = '\\' then
      match readEscape opening (c :: rest) rest with
      | .error e => .error e
      | .ok (d, rest) =>
        match readString opening fuel rest with
        | .error e => .error e
        | .ok (t, rest) => .ok (d :: t, rest)
    else if c.val < 0x20 then .error (.problem .controlCharacter (c :: rest))
    else
      match readString opening fuel rest with
      | .error e => .error e
      | .ok (t, rest) => .ok (c :: t, rest)

/-- The digits after a decimal point, if the point has any. -/
def fraction? : Text → Option (Text × Text)
  | p :: rest =>
    if p = '.' then
      match rest.takeWhile CodePoint.isDigit with
      | [] => none
      | digits => some (digits, rest.dropWhile CodePoint.isDigit)
    else none
  | [] => none

/-- The power of ten that a number is multiplied by, if it states one. -/
def exponent? : Text → Option (Int × Text)
  | m :: rest =>
    if m = 'e' || m = 'E' then
      let (negative, unsigned) : Bool × Text :=
        match rest with
        | s :: after =>
          if s = '-' then (true, after) else if s = '+' then (false, after) else (false, rest)
        | [] => (false, [])
      match unsigned.takeWhile CodePoint.isDigit with
      | [] => none
      | digits =>
        let n : Int := Text.toNat digits
        some (if negative then -n else n, unsigned.dropWhile CodePoint.isDigit)
    else none
  | [] => none

/-- The digits before the decimal point: a lone zero, or digits that do not start with one. -/
def wholeDigits? : Text → Option (Text × Text)
  | c :: rest =>
    if c = '0' then some ([c], rest)
    else if c.isDigit then
      some (c :: rest.takeWhile CodePoint.isDigit, rest.dropWhile CodePoint.isDigit)
    else none
  | [] => none

/-- A number without its sign; without fraction and exponent it is an integer. -/
def readNumber (negative : Bool) (start s : Text) : Read Json :=
  match wholeDigits? s with
  | none => .error (.problem .value start)
  | some (whole, rest) =>
    match fraction? rest, exponent? ((fraction? rest).map Prod.snd |>.getD rest) with
    | none, none =>
      if Text.maxDigits < whole.length then .error (.tooManyDigits whole.length)
      else
        let n : Int := Text.toNat whole
        .ok (.int (if negative then -n else n), rest)
    | fraction, power =>
      let digits := (fraction.map Prod.fst).getD []
      let afterFraction := (fraction.map Prod.snd).getD rest
      let exponent := (power.map Prod.fst).getD 0
      .ok (.double (.ofDecimal negative (Text.toNat (whole ++ digits)) (exponent - digits.length)),
        (power.map Prod.snd).getD afterFraction)

/-- The values that are spelled as words. -/
def words : List (Text × Json) :=
  [("null", .null), ("true", .bool true), ("false", .bool false), ("NaN", .double .nan),
   ("Infinity", .double (.infinite false)), ("-Infinity", .double (.infinite true))]

/-- A word at the front of a text. -/
def word? (s : Text) : Option (Json × Text) :=
  words.findSome? fun (w, j) => (Text.dropStart? w s).map (j, ·)

/-- A word or a number. -/
def readScalar (s : Text) : Read Json :=
  match word? s with
  | some r => .ok r
  | none =>
    match s with
    | c :: rest => if c = '-' then readNumber true s rest else readNumber false s s
    | [] => .error (.problem .value s)

mutual

/-- A value at the very front of a text. The fuel bounds the number of steps, and any two of them
take at least one code point. -/
def readValue : Nat → Text → Read Json
  | 0, s => .error (.problem .value s)
  | _ + 1, [] => .error (.problem .value [])
  | fuel + 1, c :: rest =>
    if c = '"' then
      match readString (c :: rest) (rest.length + 1) rest with
      | .error e => .error e
      | .ok (t, rest) => .ok (.str t, rest)
    else if c = '[' then
      match skipSpace rest with
      | [] => .error (.problem .value [])
      | d :: after =>
        if d = ']' then .ok (.arr [], after)
        else
          match readItems fuel (d :: after) with
          | .error e => .error e
          | .ok (items, rest) => .ok (.arr items, rest)
    else if c = '\x7b' then
      match skipSpace rest with
      | [] => .error (.problem .propertyName [])
      | d :: after =>
        if d = '\x7d' then .ok (.obj [], after)
        else
          match readMembers fuel [] (d :: after) with
          | .error e => .error e
          | .ok (members, rest) => .ok (.obj members, rest)
    else readScalar (c :: rest)

/-- The items of an array from the first one to the closing bracket. -/
def readItems : Nat → Text → Read (List Json)
  | 0, s => .error (.problem .value s)
  | fuel + 1, s =>
    match readValue fuel s with
    | .error e => .error e
    | .ok (item, rest) =>
      match skipSpace rest with
      | [] => .error (.problem .comma [])
      | c :: rest =>
        if c = ']' then .ok ([item], rest)
        else if c = ',' then
          match readItems fuel (skipSpace rest) with
          | .error e => .error e
          | .ok (items, rest) => .ok (item :: items, rest)
        else .error (.problem .comma (c :: rest))

/-- The members of an object from a key to the closing brace, added to those before them. -/
def readMembers : Nat → List (Text × Json) → Text → Read (List (Text × Json))
  | 0, _, s => .error (.problem .propertyName s)
  | _ + 1, _, [] => .error (.problem .propertyName [])
  | fuel + 1, before, q :: afterQuote =>
    if q = '"' then
      match readString (q :: afterQuote) (afterQuote.length + 1) afterQuote with
      | .error e => .error e
      | .ok (key, rest) =>
        match skipSpace rest with
        | [] => .error (.problem .colon [])
        | c :: rest =>
          if c = ':' then
            match readValue fuel (skipSpace rest) with
            | .error e => .error e
            | .ok (item, rest) =>
              match skipSpace rest with
              | [] => .error (.problem .comma [])
              | d :: rest =>
                if d = '\x7d' then .ok (Fields.set before key item, rest)
                else if d = ',' then readMembers fuel (Fields.set before key item) (skipSpace rest)
                else .error (.problem .comma (d :: rest))
          else .error (.problem .colon (c :: rest))
    else .error (.problem .propertyName (q :: afterQuote))

end

/-- A whole document: white space, one value, white space. -/
def readDocument (s : Text) : Except Failure Json :=
  match s with
  | c :: _ =>
    if c.val = 0xFEFF then .error (.problem .byteOrderMark s)
    else
      match readValue (2 * s.length + 2) (skipSpace s) with
      | .error e => .error e
      | .ok (j, rest) =>
        match skipSpace rest with
        | [] => .ok j
        | d :: rest => .error (.problem .extraData (d :: rest))
  | [] => .error (.problem .value [])

/-- Where a problem stands: offset from zero, line and column from one. -/
structure Position where
  offset : Nat
  line : Nat
  column : Nat
deriving DecidableEq

/-- The position after the given beginning of a document. -/
def Position.after (beginning : Text) : Position where
  offset := beginning.length
  line := beginning.count (CodePoint.ofChar '\n') + 1
  column := (beginning.reverse.takeWhile fun c => !(c == CodePoint.ofChar '\n')).length + 1

/-- Why a document cannot be read. -/
inductive ReadError where
  | malformed (what : Problem) (place : Position)
  | tooManyDigits (count : Nat)
deriving DecidableEq

/-- The value of a document. -/
def parse (s : Text) : Except ReadError Json :=
  match readDocument s with
  | .ok j => .ok j
  | .error (.problem what rest) =>
    .error (.malformed what (.after (s.take (s.length - rest.length))))
  | .error (.tooManyDigits count) => .error (.tooManyDigits count)

/-- The wording of a problem. -/
def Problem.message : Problem → Text
  | .value => "Expecting value"
  | .propertyName => "Expecting property name enclosed in double quotes"
  | .colon => "Expecting ':' delimiter"
  | .comma => "Expecting ',' delimiter"
  | .unterminatedString => "Unterminated string starting at"
  | .controlCharacter => "Invalid control character at"
  | .escape => "Invalid \\escape"
  | .unicodeEscape => "Invalid \\uXXXX escape"
  | .extraData => "Extra data"
  | .byteOrderMark => "Unexpected UTF-8 BOM (decode using utf-8-sig)"

/-- The wording of a failed reading. -/
def ReadError.message : ReadError → Text
  | .malformed what place =>
    what.message ++ ": line " ++ Text.ofNat place.line ++ " column " ++ Text.ofNat place.column ++
      " (char " ++ Text.ofNat place.offset ++ ")"
  | .tooManyDigits count =>
    "Exceeds the limit (" ++ Text.ofNat Text.maxDigits ++
      " digits) for integer string conversion: value has " ++ Text.ofNat count ++
      " digits; use sys.set_int_max_str_digits() to increase the limit"

end Json

end JsonShapes
