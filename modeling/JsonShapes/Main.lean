import JsonShapes.CommandLine.Program

/-!
# Entry point

Carries the program out on the real file system: what stands at the paths that the arguments name
is read into a tree, the program runs on that tree, and what it changed is written back.
-/

namespace JsonShapes

namespace CommandLine

/-- All that is left on standard input. -/
def readInput : IO ByteArray := do
  let stream ← IO.getStdin
  let mut bytes := ByteArray.empty
  repeat
    let chunk ← stream.read 65536
    if chunk.isEmpty then break
    bytes := bytes ++ chunk
  return bytes

/-- The tree with what stands at a place, if its directory is in the tree. -/
def loadPlace (tree : FileTree) (place : Place) : IO FileTree := do
  if tree.get? place.parent ≠ some .directory then return tree
  try
    let bytes ← IO.FS.readBinFile place.path.toString
    return tree.put place (.file bytes.toList)
  catch
    | .noFileOrDirectory .. => return tree
    -- what holds the place is a directory, so the place is of another type only if it is one too
    | .inappropriateType .. => return tree.put place .directory
    | failure => throw failure

/-- The tree with what stands at a path and on the way to it. -/
def loadPath (tree : FileTree) (path : Text) : IO FileTree :=
  let place := Place.ofPath path
  if place.names.isEmpty then return tree
  else (place.ancestors ++ [place]).foldlM loadPlace tree

/-- Writes the entries of a tree that are not in another one. -/
def save (before after : FileTree) : IO Unit :=
  for (place, entry) in after.entries do
    unless before.get? place = some entry do
      match entry with
      | .directory => IO.FS.createDirAll place.path.toString
      | .file content => IO.FS.writeBinFile place.path.toString ⟨content.toArray⟩

/-- Runs the program with the given arguments. -/
def perform (arguments : List Text) : IO Outcome := do
  let request := Request.ofArguments arguments
  let before ← request.paths.foldlM loadPath FileTree.empty
  let bytes ← if request.readsInput then readInput else pure .empty
  match Utf8.decode bytes.toList with
  | .error e => return ⟨1, "Error: " ++ (Error.undecodable e).message ++ "\n", [], before⟩
  | .ok stdin =>
    let outcome := request.run stdin.normalizeLines before
    save before outcome.files
    return outcome

end CommandLine

end JsonShapes

def main (arguments : List String) : IO UInt32 := do
  let outcome ← JsonShapes.CommandLine.perform (arguments.map JsonShapes.Text.ofString)
  (← IO.getStdout).putStr outcome.output.toString
  (← IO.getStderr).putStr outcome.errorOutput.toString
  return outcome.exitCode.toUInt32
