import JsonShapes.Files.Encoding
import JsonShapes.Files.Place
import JsonShapes.Text.Display

/-!
# File trees

A file tree is a value: a list of places, each a file with its bytes or a directory. The working
directory, those above it and the root are always there. Following a path needs a directory at
every step.
-/

namespace JsonShapes

inductive Entry where
  | file (content : List UInt8)
  | directory
deriving DecidableEq

structure FileTree where
  entries : List (Place × Entry)

namespace FileTree

/-- Why a path cannot be used. -/
inductive Cause where
  | missing
  | taken
  | notDirectory
  | isDirectory
  | nameTooLong
  | nullByte
  | unencodable (error : Utf8.EncodeError)
deriving DecidableEq

/-- A cause together with the path that was used. -/
structure Failure where
  cause : Cause
  path : Text
deriving DecidableEq

def empty : FileTree := ⟨[]⟩

/-- What stands at a place. -/
def get? (tree : FileTree) (place : Place) : Option Entry :=
  if place.names.isEmpty then some .directory else tree.entries.lookup place

/-- The entries with one at a place, in addition to or instead of what stands there. -/
def putEntry (place : Place) (entry : Entry) : List (Place × Entry) → List (Place × Entry)
  | [] => [(place, entry)]
  | (p, e) :: rest =>
    if p = place then (place, entry) :: rest else (p, e) :: putEntry place entry rest

def put (tree : FileTree) (place : Place) (entry : Entry) : FileTree :=
  ⟨putEntry place entry tree.entries⟩

theorem lookup_putEntry (place q : Place) (entry : Entry) (entries : List (Place × Entry)) :
    (putEntry place entry entries).lookup q =
      if q = place then some entry else entries.lookup q := by
  induction entries with
  | nil =>
    by_cases h : q = place
    · simp [putEntry, h]
    · simp [putEntry, List.lookup_cons, beq_eq_false_iff_ne.2 h, h]
  | cons first rest ih =>
    obtain ⟨p, e⟩ := first
    by_cases hp : p = place
    · subst hp
      by_cases h : q = p
      · simp [putEntry, h]
      · simp [putEntry, List.lookup_cons, beq_eq_false_iff_ne.2 h, h]
    · by_cases h : q = p
      · subst h
        simp [putEntry, hp]
      · simp [putEntry, List.lookup_cons, hp, beq_eq_false_iff_ne.2 h, ih]

/-- Putting an entry changes what stands at its place and nothing else. -/
theorem get?_put (tree : FileTree) (place q : Place) (entry : Entry) (h : q.names ≠ []) :
    (tree.put place entry).get? q = if q = place then some entry else tree.get? q := by
  simp [get?, put, h, lookup_putEntry]

/-- The place that components lead to from a place. -/
def follow (tree : FileTree) : Place → List Text → Except Cause Place
  | place, [] => .ok place
  | place, name :: rest =>
    match tree.get? place with
    | none => .error .missing
    | some (.file _) => .error .notDirectory
    | some .directory =>
      if Path.maxNameBytes < (Path.bytes name).length then .error .nameTooLong
      else follow tree (place.step name) rest

/-- The place that a path leads to; the empty path leads nowhere. -/
def locate (tree : FileTree) (path : Text) : Except Cause Place :=
  match Path.encodeError? path with
  | some e => .error (.unencodable e)
  | none =>
    if Path.holdsNull path then .error .nullByte
    else if path.isEmpty then .error .missing
    else if Path.maxPathBytes < (Path.bytes path).length then .error .nameTooLong
    else tree.follow (Place.startOf path) (Path.components path)

/-- What a path leads to. Behind a trailing slash only a directory can be found. -/
def find (tree : FileTree) (path : Text) : Except Cause Entry :=
  match tree.locate path with
  | .error e => .error e
  | .ok place =>
    match tree.get? place with
    | none => .error .missing
    | some .directory => .ok .directory
    | some (.file content) =>
      if Path.endsInSlash path then .error .notDirectory else .ok (.file content)

def pathExists (tree : FileTree) (path : Text) : Bool :=
  match tree.find path with
  | .ok _ => true
  | .error _ => false

def isDirectory (tree : FileTree) (path : Text) : Bool :=
  match tree.find path with
  | .ok .directory => true
  | _ => false

/-- The bytes of a file. -/
def read (tree : FileTree) (path : Text) : Except Failure (List UInt8) :=
  match tree.find path with
  | .ok (.file content) => .ok content
  | .ok .directory => .error ⟨.isDirectory, path⟩
  | .error cause => .error ⟨cause, path⟩

/-- The tree with the given bytes as the file at a path, whose directory must be there. A path with
a trailing slash is taken for a directory, whatever it leads to. -/
def write (tree : FileTree) (path : Text) (content : List UInt8) : Except Failure FileTree :=
  match tree.locate path with
  | .error cause => .error ⟨cause, path⟩
  | .ok place =>
    if tree.get? place = some .directory || Path.endsInSlash path then
      .error ⟨.isDirectory, path⟩
    else .ok (tree.put place (.file content))

/-- The tree with a new directory, below one that must be there. -/
def makeDirectory (tree : FileTree) (path : Text) : Except Failure FileTree :=
  match tree.locate path with
  | .error cause => .error ⟨cause, path⟩
  | .ok place =>
    match tree.get? place with
    | some _ => .error ⟨.taken, path⟩
    | none => .ok (tree.put place .directory)

/-- The tree with a file at a place, and with the directories that it needs. -/
def putFile (tree : FileTree) (place : Place) (content : List UInt8) : FileTree :=
  (place.ancestors.foldl (fun t d => t.put d .directory) tree).put place (.file content)

/-- A tree in which the given files stand. -/
def ofFiles (files : List (Text × List UInt8)) : FileTree :=
  files.foldl (fun tree (path, content) => tree.putFile (Place.ofPath path) content) empty

/-- The files in the working directory and below it, with their paths from there. -/
def files (tree : FileTree) : List (Text × List UInt8) :=
  tree.entries.filterMap fun (place, entry) =>
    match place.start, entry with
    | .working 0, .file content => some (place.path, content)
    | _, _ => none

/-- The files that are not in another tree with the same bytes. -/
def changedSince (tree before : FileTree) : List (Text × List UInt8) :=
  tree.files.filter fun file => !before.files.contains file

def Cause.message : Cause → Text
  | .missing => "[Errno 2] No such file or directory"
  | .taken => "[Errno 17] File exists"
  | .notDirectory => "[Errno 20] Not a directory"
  | .isDirectory => "[Errno 21] Is a directory"
  | .nameTooLong => "[Errno 36] File name too long"
  | .nullByte => "embedded null byte"
  | .unencodable e => e.message

/-- Whether the path could be handed to the file system at all. -/
def Cause.isFromSystem : Cause → Bool
  | .nullByte => false
  | .unencodable _ => false
  | _ => true

/-- The wording of a failure, with the path unless it never got as far as the file system. -/
def Failure.message (f : Failure) : Text :=
  if f.cause.isFromSystem then f.cause.message ++ ": " ++ f.path.display else f.cause.message

end FileTree

end JsonShapes
