import JsonShapes.Files.Path

/-!
# Places

A place in a file system is a directory to start from and the names on the way from there. Which
directories lie around the working directory is not known, so those above it are told apart from
the root and count by how far up they are.
-/

namespace JsonShapes

/-- Where the way to a place starts: at the root, or so many levels above the working directory. -/
inductive Start where
  | working (up : Nat)
  | root
deriving DecidableEq

structure Place where
  start : Start
  names : List Text
deriving DecidableEq

namespace Place

/-- The working directory. -/
def top : Place := ⟨.working 0, []⟩

/-- The place that a path starts from. -/
def startOf (path : Text) : Place :=
  if path.head? == some Path.slash then ⟨.root, []⟩ else top

/-- The directory above a place. Above the root is the root. -/
def parent : Place → Place
  | ⟨.working n, []⟩ => ⟨.working (n + 1), []⟩
  | ⟨.root, []⟩ => ⟨.root, []⟩
  | ⟨start, name :: names⟩ => ⟨start, (name :: names).dropLast⟩

def child (place : Place) (name : Text) : Place := ⟨place.start, place.names ++ [name]⟩

/-- The place that one component of a path leads to. -/
def step (place : Place) (name : Text) : Place :=
  if name = Text.ofString "." then place
  else if name = Text.ofString ".." then place.parent
  else place.child name

/-- The place that a path leads to if every directory on the way is there. -/
def ofPath (path : Text) : Place := (Path.components path).foldl step (startOf path)

/-- The places below the start on the way to a place, from the outermost. -/
def ancestors (place : Place) : List Place :=
  ((List.range place.names.length).drop 1).map fun n => ⟨place.start, place.names.take n⟩

/-- A path that leads to a place. -/
def path (place : Place) : Text :=
  match place.start with
  | .root => "/" ++ Text.join "/" place.names
  | .working up => Text.join "/" (List.replicate up (Text.ofString "..") ++ place.names)

end Place

end JsonShapes
