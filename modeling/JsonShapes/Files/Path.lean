import JsonShapes.Text.Basic

/-!
# Paths

A path is a text in which slashes separate the components. These functions only look at the text;
what a path leads to depends on the file tree.
-/

namespace JsonShapes

namespace Path

def slash : CodePoint := '/'

/-- The components of a path. Empty ones do not count. -/
def components (path : Text) : List Text := (Text.splitOn slash path).filter fun c => !c.isEmpty

/-- Whether a path ends in a slash, so that it can only lead to a directory. -/
def endsInSlash (path : Text) : Bool := path.getLast? == some slash

/-- The path without trailing slashes, unless it consists of slashes. -/
def dropTrailingSlashes (path : Text) : Text :=
  if path.all (· == slash) then path else (path.reverse.dropWhile (· == slash)).reverse

/-- What comes before the last slash, and what comes after it. -/
def split (path : Text) : Text × Text :=
  (dropTrailingSlashes (path.reverse.dropWhile fun c => !(c == slash)).reverse,
    (path.reverse.takeWhile fun c => !(c == slash)).reverse)

/-- The directory part of a path. -/
def directory (path : Text) : Text := (split path).1

/-- A relative path below a directory. -/
def join (dir path : Text) : Text :=
  if dir.isEmpty || endsInSlash dir then dir ++ path else dir ++ "/" ++ path

/-- The part before the last component, and the last component, however many slashes follow it. -/
def splitLast (path : Text) : Text × Text :=
  let (head, tail) := split path
  if tail.isEmpty then split head else (head, tail)

end Path

end JsonShapes
