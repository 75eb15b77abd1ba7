import JsonShapes.Text.Basic

/-!
# Quoted strings

A JSON string literal. The quote, the backslash and the controls are always escaped. The plain
style leaves everything else as it is; the ASCII style escapes whatever is not printable ASCII, with
a pair of surrogates for a code point beyond the first plane.
-/

namespace JsonShapes

namespace Quoted

/-- Which code points are escaped beyond those that must be. -/
inductive Style where
  | plain
  | ascii
deriving DecidableEq

/-- An escape by number. -/
def unicodeEscape (n : Nat) : Text := '\\' :: 'u' :: Text.hex 4 n

/-- One code point inside a literal. -/
def escape (style : Style) (c : CodePoint) : Text :=
  if c = '"' then "\\\""
  else if c = '\\' then "\\\\"
  else if c = '\n' then "\\n"
  else if c = '\r' then "\\r"
  else if c = '\t' then "\\t"
  else if c.val = 0x0C then "\\f"
  else if c.val = 0x08 then "\\b"
  else if c.val < 0x20 then unicodeEscape c.val
  else
    match style with
    | .plain => [c]
    | .ascii =>
      if c.val < 0x7F then [c]
      else if c.val < 0x10000 then unicodeEscape c.val
      else
        unicodeEscape (0xD800 + (c.val - 0x10000) / 0x400) ++
          unicodeEscape (0xDC00 + (c.val - 0x10000) % 0x400)

/-- The literal of a text. -/
def write (style : Style) (t : Text) : Text := "\"" ++ t.flatMap (escape style) ++ "\""

end Quoted

/-- A string literal of the emitted languages: plain style, with surrogates escaped as well so that
it can always be encoded. -/
def Text.quote (t : Text) : Text := (Quoted.write .plain t).escapeSurrogates

end JsonShapes
