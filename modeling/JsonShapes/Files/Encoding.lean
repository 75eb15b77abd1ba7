import JsonShapes.Files.Path
import JsonShapes.Text.Utf8

/-!
# Paths as bytes

The file system sees a path as bytes without a zero among them. A path is encoded as UTF-8, except
that the surrogates U+DC80 to U+DCFF stand for single bytes, so that names which are not UTF-8 can
be spelled too; other surrogates have no encoding.
-/

namespace JsonShapes

namespace Path

/-- A surrogate that stands for one byte. -/
def isRawByte (c : CodePoint) : Bool := 0xDC80 ≤ c.val && c.val ≤ 0xDCFF

/-- The bytes of a path that can be encoded. -/
def bytes (path : Text) : List UInt8 :=
  path.flatMap fun c => if isRawByte c then [(c.val - 0xDC00).toUInt8] else Utf8.encodePoint c

/-- The run of surrogates at which encoding a path stops. -/
def encodeError? (path : Text) : Option Utf8.EncodeError :=
  let encodable (c : CodePoint) : Bool := !c.isSurrogate || isRawByte c
  match path.dropWhile encodable with
  | [] => none
  | c :: rest =>
    some ⟨(path.takeWhile encodable).length, c,
      ((c :: rest).takeWhile CodePoint.isSurrogate).length⟩

/-- Whether the path has a zero among its bytes. -/
def holdsNull (path : Text) : Bool := path.any fun c => c.val == 0

/-- The most bytes that a name may have. -/
def maxNameBytes : Nat := 255

/-- The most bytes that a path may have. -/
def maxPathBytes : Nat := 4095

end Path

end JsonShapes
