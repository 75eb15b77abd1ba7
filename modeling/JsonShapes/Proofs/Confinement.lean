import JsonShapes.Proofs.Outputs

/-!
# Where a discovery writes

The names of types are identifiers, and so they cannot lead away from the directory that they are
joined to. A discovery writes its files right below the folder of a flavor and a method, or the page
below the output directory, and the directories that it makes lie on the way there. Everything else
in the file tree stays as it is, whatever the document says and however the discovery ends.
-/

namespace JsonShapes

namespace Path

variable {name folder : Text}

theorem exists_join_eq (path : Text) (h : IsName name) :
    ∃ front last, join path name = front ++ [last] ∧ last ≠ slash := by
  obtain ⟨front, last, rfl⟩ := (List.eq_nil_or_concat' name).resolve_left h.notEmpty
  have other : last ≠ slash := by
    rintro rfl
    exact h.noSlash (List.mem_append_right _ List.mem_cons_self)
  unfold join
  split
  · exact ⟨path ++ front, last, (List.append_assoc ..).symm, other⟩
  · exact ⟨path ++ "/" ++ front, last, (List.append_assoc ..).symm, other⟩

/-- The directory part ends where the last name was joined. -/
theorem directory_join (path : Text) (h : IsName folder) (noSlash : slash ∉ name) :
    directory (join (join path folder) name) = join path folder := by
  obtain ⟨front, last, eq, other⟩ := exists_join_eq path h
  rw [eq]
  have unslashed : endsInSlash (front ++ [last]) = false := by simpa [endsInSlash] using other
  have joined : join (front ++ [last]) name = front ++ [last] ++ slash :: name := by
    rw [join, if_neg (by simp [unslashed]), List.append_assoc _ _ name]
    rfl
  have cut : (front ++ [last] ++ slash :: name).reverse.dropWhile (fun c => !(c == slash)) =
      slash :: last :: front.reverse := by
    have passed : ∀ c ∈ name.reverse, (!(c == slash)) = true := by
      rintro c member
      rw [Bool.not_eq_true', beq_eq_false_iff_ne]
      rintro rfl
      exact noSlash (List.mem_reverse.1 member)
    rw [List.reverse_append, List.reverse_cons, List.append_assoc,
      List.dropWhile_append_of_pos passed]
    simp
  rw [directory, split, joined, cut]
  simp [dropTrailingSlashes, other]

end Path

namespace Run

/-- Every place holds what it held before, unless it is one of the given places for files and a file
was written there, or one of those for directories and a directory was made. -/
def Confined (files folders : Set Place) (before after : World) : Prop :=
  ∀ place, after.files.get? place = before.files.get? place ∨
    (place ∈ files ∧ ∃ content, after.files.get? place = some (.file content)) ∨
      (place ∈ folders ∧ after.files.get? place = some .directory)

variable {files folders : Set Place}

theorem Confined.of_files_eq {u v : World} (h : v.files = u.files) : Confined files folders u v :=
  fun place => .inl (congrArg (·.get? place) h)

theorem confined_trans (u v w : World) (h : Confined files folders u v)
    (h' : Confined files folders v w) : Confined files folders u w := by
  intro place
  obtain same | changed := h' place
  · rw [same]
    exact h place
  · exact .inr changed

theorem confined_makeDirectory {path : Text} (h : Place.ofPath path ∈ folders) :
    Preserves (Confined files folders) (makeDirectory path) := by
  rw [makeDirectory_eq]
  refine preserves_change (fun w => .of_files_eq rfl) fun w made eq place => ?_
  obtain ⟨free, rfl⟩ := FileTree.makeDirectory_eq_ok eq
  by_cases here : place = Place.ofPath path
  · subst here
    have below : (Place.ofPath path).names ≠ [] :=
      FileTree.names_ne_nil (t := w.files) (by simp [free])
    exact .inr (.inr ⟨h, (FileTree.get?_put _ _ _ _ below).trans (if_pos rfl)⟩)
  · exact .inl (FileTree.get?_put_of_ne here)

theorem confined_writeBytes {path : Text} (h : Place.ofPath path ∈ files) (bytes : List UInt8) :
    Preserves (Confined files folders) (writeBytes path bytes) := by
  rw [writeBytes_eq]
  refine preserves_change (fun w => .of_files_eq rfl) fun w written eq place => ?_
  obtain ⟨-, notDirectory, -, rfl⟩ := FileTree.write_eq_ok eq
  by_cases here : place = Place.ofPath path
  · subst here
    have below := FileTree.names_ne_nil notDirectory
    exact .inr (.inl ⟨h, bytes, (FileTree.get?_put _ _ _ _ below).trans (if_pos rfl)⟩)
  · exact .inl (FileTree.get?_put_of_ne here)

theorem confined_writeText {path : Text} (h : Place.ofPath path ∈ files) (text : Text) :
    Preserves (Confined files folders) (writeText path text) := by
  unfold writeText
  split
  · exact confined_writeBytes h _
  · refine .bind confined_trans (confined_writeBytes h []) fun _ => ?_
    exact .throw (fun w => .of_files_eq rfl) _

end Run

namespace Discovery

open Run (Confined confined_trans)
open Naming (IsIdentifier)

/-- The place of the file of a requested flavor for some endpoint, or that of the page. -/
inductive Settings.OwnFile (settings : Settings) : Place → Prop where
  | file {flavors : List Flavor} {directory method name : Text} {format : Format}
      (asked : settings.flavors = .ok flavors) (set : settings.directory = some directory)
      (requested : format.flavor ∈ flavors) (supported : method ∈ methods)
      (identifier : IsIdentifier name) :
      OwnFile settings ((((Place.ofPath directory).child format.folder).child method).child
        (name ++ format.extension))
  | page {flavors : List Flavor} {directory : Text} (asked : settings.flavors = .ok flavors)
      (set : settings.directory = some directory) (requested : Flavor.markdown ∈ flavors) :
      OwnFile settings ((Place.ofPath directory).child "API.md")

/-- The place of a directory on the way to the folder of a requested flavor and a method, or to the
page. -/
inductive Settings.OwnFolder (settings : Settings) : Place → Prop where
  | folder {flavors : List Flavor} {directory method q : Text} {format : Format}
      (asked : settings.flavors = .ok flavors) (set : settings.directory = some directory)
      (requested : format.flavor ∈ flavors) (supported : method ∈ methods)
      (way : Path.OnTheWay q (Path.join (Path.join directory format.folder) method)) :
      OwnFolder settings (Place.ofPath q)
  | page {flavors : List Flavor} {directory q : Text} (asked : settings.flavors = .ok flavors)
      (set : settings.directory = some directory) (requested : Flavor.markdown ∈ flavors)
      (way : Path.OnTheWay q (Path.directory (Path.join directory "API.md"))) :
      OwnFolder settings (Place.ofPath q)

variable {settings : Settings} {flavors : List Flavor}

/-- The directories for the file of an endpoint do not depend on its name. -/
theorem directory_path {directory : Text} {e : Endpoint} {format : Format} (named : Named e) :
    Path.directory (format.path directory e) =
      Path.join (Path.join directory format.folder) e.method := by
  have file := format.isName_append_extension named.identifier
  exact Path.directory_join _ (isName_of_mem_methods named.method) file.noSlash

theorem confined_write {endpoints : List Endpoint} (asked : settings.flavors = .ok flavors)
    (named : ∀ e ∈ endpoints, Named e) {output : Output}
    (h : output ∈ outputs flavors endpoints) :
    Preserves (Confined settings.OwnFile settings.OwnFolder) (output.write settings) := by
  refine Output.preserves_write (fun w => .of_files_eq rfl) fun directory text set _ => ?_
  refine preserves_writeFile confined_trans (fun w log => .of_files_eq rfl)
    (fun q way => Run.confined_makeDirectory ?_) (Run.confined_writeText ?_ text)
  all_goals obtain ⟨e, listed, format, requested, rfl⟩ | ⟨requested, rfl⟩ := mem_outputs h
  · rw [Output.path, directory_path (named e listed)] at way
    exact .folder asked set requested (named e listed).method way
  · exact .page asked set requested way
  · rw [Output.path, ofPath_path (named e listed)]
    exact .file asked set requested (named e listed).method (named e listed).identifier
  · rw [Output.path, Place.ofPath_join _ (by decide)]
    exact .page asked set requested

theorem returns_prepare {probe : Json} {found : List Flavor × List Endpoint} {w w' : World}
    (h : Returns (prepare settings probe) w found w') :
    settings.flavors = .ok found.1 ∧ ∀ e ∈ found.2, Named e := by
  obtain ⟨flavors, _, asked, h⟩ := returns_bind_iff.1 h
  obtain ⟨endpoints, _, inferred, h⟩ := returns_bind_iff.1 h
  obtain ⟨rfl, -⟩ := returns_pure_iff.1 h
  exact ⟨(Run.returns_ofOutcome_iff.1 asked).1,
    (labels_of_inferEndpoints (Run.returns_ofLogged inferred).1).1⟩

/-- A discovery changes nothing outside the places that belong to it. -/
theorem confined_discover (settings : Settings) (probe : Json) :
    Preserves (Confined settings.OwnFile settings.OwnFolder) (discover settings probe) := by
  intro w
  rw [discover_eq]
  obtain ⟨found, middle, returns⟩ | ⟨e, middle, fails⟩ :=
    returns_or_fails (prepare settings probe) w
  · rw [run_bind_ok returns]
    have before := returns.of_preserves (sameTree_prepare settings probe)
    obtain ⟨asked, named⟩ := returns_prepare returns
    refine confined_trans _ _ _ (.of_files_eq before) ?_
    exact preserves_complete confined_trans (fun w log => .of_files_eq rfl)
      (fun output listed => confined_write asked named listed) middle
  · rw [run_bind_error fails]
    exact .of_files_eq (fails.of_preserves (sameTree_prepare settings probe))

end Discovery

end JsonShapes
