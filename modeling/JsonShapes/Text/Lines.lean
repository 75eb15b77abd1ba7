import JsonShapes.Text.Basic

/-!
# Line ends and surrounding blanks

Reading a file turns the line ends CR LF and CR into LF. Blanks are the white space of Unicode
together with the four information separators; trimming removes them from both ends of a text.
-/

namespace JsonShapes

/-- White space in the sense of Unicode. -/
def CodePoint.isWhiteSpace (c : CodePoint) : Bool :=
  (0x09 ≤ c.val && c.val ≤ 0x0D) || c.val == 0x20 || c.val == 0x85 || c.val == 0xA0 ||
    c.val == 0x1680 || (0x2000 ≤ c.val && c.val ≤ 0x200A) || c.val == 0x2028 ||
    c.val == 0x2029 || c.val == 0x202F || c.val == 0x205F || c.val == 0x3000

/-- White space, or one of the information separators U+001C to U+001F. -/
def CodePoint.isBlank (c : CodePoint) : Bool :=
  c.isWhiteSpace || (0x1C ≤ c.val && c.val ≤ 0x1F)

namespace Text

/-- CR LF and CR become LF, so that every line ends in the same way. -/
def normalizeLines : Text → Text
  | [] => []
  | c :: rest =>
    if c = '\r' then
      match rest with
      | [] => ['\n']
      | d :: rest' =>
        if d = '\n' then '\n' :: normalizeLines rest' else '\n' :: normalizeLines (d :: rest')
    else c :: normalizeLines rest

/-- The text without what is to be dropped at its two ends. -/
def trimBy (drop : CodePoint → Bool) (t : Text) : Text :=
  ((t.dropWhile drop).reverse.dropWhile drop).reverse

/-- The text without the blanks at its two ends. -/
def trim (t : Text) : Text := t.trimBy CodePoint.isBlank

/-- The pieces between line feeds. -/
def lines (t : Text) : List Text := splitOn '\n' t

end Text

end JsonShapes
