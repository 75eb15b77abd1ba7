import JsonShapes.Discovery
import JsonShapes.Proofs.Runs

/-!
# Files that are written

Where a path leads to does not depend on the tree that it is followed in, as long as the directories
on the way are there. Making directories changes nothing that is there already, and writing a file
changes that file alone. So a file that was written holds its bytes until something is written at
the same place.
-/

namespace JsonShapes

theorem Text.splitOn_append_cons (separator : CodePoint) (s t : Text) :
    splitOn separator (s ++ separator :: t) = splitOn separator s ++ splitOn separator t := by
  induction s with
  | nil => simp [splitOn]
  | cons c s ih =>
      rw [List.cons_append, splitOn, splitOn]
      split
      · rw [ih, List.cons_append]
      · obtain ⟨piece, pieces, eq⟩ := List.exists_cons_of_ne_nil (splitOn_ne_nil separator s)
        rw [ih, eq, List.cons_append]
        rfl

theorem Text.splitOn_of_notMem {separator : CodePoint} {t : Text} (h : separator ∉ t) :
    splitOn separator t = [t] := by
  induction t with
  | nil => rfl
  | cons c t ih =>
      rw [List.mem_cons, not_or] at h
      rw [splitOn, if_neg (Ne.symm h.1), ih h.2]

theorem Text.flatten_splitOn (separator : CodePoint) (t : Text) :
    (splitOn separator t).flatten = t.filter fun c => c ≠ separator := by
  induction t with
  | nil => rfl
  | cons c t ih =>
      rw [splitOn]
      split
      · next same => simpa [same] using ih
      · next other =>
          obtain ⟨piece, pieces, eq⟩ := List.exists_cons_of_ne_nil (splitOn_ne_nil separator t)
          rw [eq] at ih ⊢
          simpa [other] using ih

namespace Path

/-- A text that can name one step of a path. -/
structure IsName (name : Text) : Prop where
  noSlash : slash ∉ name
  notEmpty : name ≠ []
  notHere : name ≠ Text.ofString "."
  notAbove : name ≠ Text.ofString ".."

instance (name : Text) : Decidable (IsName name) :=
  decidable_of_iff (slash ∉ name ∧ name ≠ [] ∧ name ≠ Text.ofString "." ∧ name ≠ Text.ofString "..")
    ⟨fun ⟨noSlash, notEmpty, notHere, notAbove⟩ => ⟨noSlash, notEmpty, notHere, notAbove⟩,
      fun h => ⟨h.noSlash, h.notEmpty, h.notHere, h.notAbove⟩⟩

variable {name : Text}

theorem components_of_isName (h : IsName name) : components name = [name] := by
  rw [components, Text.splitOn_of_notMem h.noSlash]
  simpa using h.notEmpty

theorem components_append (path rest : Text) :
    components (path ++ slash :: rest) = components path ++ components rest := by
  rw [components, Text.splitOn_append_cons, List.filter_append]
  rfl

theorem components_join (path : Text) (h : IsName name) :
    components (join path name) = components path ++ [name] := by
  rw [← components_of_isName h]
  unfold join
  split
  · next flush =>
      rw [Bool.or_eq_true] at flush
      rcases flush with empty | slashed
      · rw [List.isEmpty_iff.mp empty]
        rfl
      · -- the slash at the end separates the two, and nothing stands after it in the path itself
        obtain ⟨front, rfl⟩ := List.getLast?_eq_some_iff.mp (beq_iff_eq.mp slashed)
        have alone : components (front ++ [slash]) = components front ++ [] :=
          components_append front []
        rw [List.append_assoc, List.singleton_append, components_append, alone, List.append_nil]
  · rw [List.append_assoc]
    exact components_append path name

/-- A path for which a directory may have to be made so that there is one at another path: that path
itself, or one on the way to it. -/
inductive OnTheWay (q : Text) : Text → Prop where
  | here : OnTheWay q q
  | above {path : Text} (h : OnTheWay q (splitLast path).1) : OnTheWay q path

end Path

namespace Place

open JsonShapes.Path

variable {name : Text}

theorem startOf_join (path : Text) (h : IsName name) : startOf (join path name) = startOf path := by
  cases path with
  | nil =>
      -- a name does not start with a slash, so that it leads on from the working directory
      have relative : (name.head? == some slash) = false := by
        rw [beq_eq_false_iff_ne]
        exact fun first => h.noSlash (List.mem_of_head? first)
      change startOf name = top
      rw [startOf, relative]
      rfl
  | cons c path =>
      have first : (join (c :: path) name).head? = some c := by
        unfold join
        split <;> rfl
      rw [startOf, startOf, first, List.head?_cons]

theorem step_of_isName (place : Place) (h : IsName name) : place.step name = place.child name := by
  rw [step, if_neg h.notHere, if_neg h.notAbove]

/-- A name that is joined to a path leads to a child of the place of the path. -/
theorem ofPath_join (path : Text) (h : IsName name) :
    ofPath (join path name) = (ofPath path).child name := by
  rw [ofPath, components_join path h, startOf_join path h, List.foldl_append, List.foldl_cons,
    List.foldl_nil, step_of_isName _ h]
  rfl

theorem child_inj {p q : Place} {name' : Text} :
    p.child name = q.child name' ↔ p = q ∧ name = name' := by
  cases p
  cases q
  simp [child, and_assoc]

end Place

namespace FileTree

variable {t t' t'' : FileTree} {path : Text}

/-- Where components lead to is known beforehand. -/
theorem follow_eq_ok {place q : Place} {names : List Text} (h : t.follow place names = .ok q) :
    q = names.foldl Place.step place := by
  induction names generalizing place with
  | nil =>
      cases h
      rfl
  | cons name names ih =>
      rw [follow] at h
      split at h
      · cases h
      · cases h
      · split at h
        · cases h
        · exact ih h

theorem locate_eq_ok {q : Place} (h : t.locate path = .ok q) : q = Place.ofPath path := by
  unfold locate at h
  split at h
  · cases h
  split at h
  · cases h
  split at h
  · cases h
  split at h
  · cases h
  · exact follow_eq_ok h

/-- Directories of one tree are directories of the other. -/
def KeepsDirectories (t t' : FileTree) : Prop :=
  ∀ place, t.get? place = some .directory → t'.get? place = some .directory

theorem KeepsDirectories.follow (kept : t.KeepsDirectories t') {place q : Place}
    {names : List Text} (h : t.follow place names = .ok q) : t'.follow place names = .ok q := by
  induction names generalizing place with
  | nil => exact h
  | cons name names ih =>
      rw [FileTree.follow] at h ⊢
      split at h
      · cases h
      · cases h
      · next here =>
          rw [kept place here]
          split at h
          · cases h
          · next short =>
              rw [if_neg short]
              exact ih h

theorem KeepsDirectories.locate (kept : t.KeepsDirectories t') {q : Place}
    (h : t.locate path = .ok q) : t'.locate path = .ok q := by
  unfold FileTree.locate at h ⊢
  split at h
  · cases h
  split at h
  · cases h
  split at h
  · cases h
  split at h
  · cases h
  · next encodable noNull nonempty short =>
      rw [if_neg noNull, if_neg nonempty, if_neg short]
      exact kept.follow h

theorem find_eq_file_iff {content : List UInt8} :
    t.find path = .ok (.file content) ↔ t.locate path = .ok (Place.ofPath path) ∧
      t.get? (Place.ofPath path) = some (.file content) ∧ Path.endsInSlash path = false := by
  constructor
  · intro h
    unfold find at h
    split at h
    · cases h
    · next place located =>
        obtain rfl := locate_eq_ok located
        split at h
        · cases h
        · cases h
        · next here =>
            split at h
            · cases h
            · next notSlash =>
                cases h
                exact ⟨located, here, Bool.not_eq_true _ ▸ notSlash⟩
  · rintro ⟨located, here, notSlash⟩
    rw [find, located]
    simp only [here, notSlash, Bool.false_eq_true, if_false]

/-- A file with the given bytes stands at the place of the path, and the path leads there. -/
theorem read_eq_ok_iff {content : List UInt8} :
    t.read path = .ok content ↔ t.locate path = .ok (Place.ofPath path) ∧
      t.get? (Place.ofPath path) = some (.file content) ∧ Path.endsInSlash path = false := by
  rw [← find_eq_file_iff]
  constructor
  · intro h
    unfold read at h
    split at h
    · next found =>
        cases h
        exact found
    · cases h
    · cases h
  · intro found
    rw [read, found]

/-- What stands in one tree stands in the other. -/
def Keeps (t t' : FileTree) : Prop :=
  ∀ place entry, t.get? place = some entry → t'.get? place = some entry

theorem Keeps.refl (t : FileTree) : t.Keeps t := fun _ _ h => h

theorem Keeps.trans (h : t.Keeps t') (h' : t'.Keeps t'') : t.Keeps t'' :=
  fun place entry here => h' place entry (h place entry here)

theorem Keeps.directories (h : t.Keeps t') : t.KeepsDirectories t' :=
  fun place => h place .directory

theorem Keeps.read (h : t.Keeps t') {content : List UInt8} (held : t.read path = .ok content) :
    t'.read path = .ok content := by
  rw [read_eq_ok_iff] at held ⊢
  exact ⟨h.directories.locate held.1, h _ _ held.2.1, held.2.2⟩

/-- The starting points of paths are there in every tree. -/
theorem get?_of_names_eq_nil {place : Place} (h : place.names = []) :
    t.get? place = some .directory := by
  rw [get?, h]
  rfl

theorem names_ne_nil {place : Place} (h : t.get? place ≠ some .directory) : place.names ≠ [] :=
  fun start => h (get?_of_names_eq_nil start)

theorem get?_put_of_ne {place q : Place} {entry : Entry} (other : q ≠ place) :
    (t.put place entry).get? q = t.get? q := by
  by_cases start : q.names = []
  · rw [get?_of_names_eq_nil start, get?_of_names_eq_nil start]
  · rw [get?_put t place q entry start, if_neg other]

theorem keeps_put {place : Place} (free : t.get? place = none) (entry : Entry) :
    t.Keeps (t.put place entry) := by
  intro q e here
  have other : q ≠ place := by
    rintro rfl
    rw [free] at here
    cases here
  rw [get?_put_of_ne other, here]

theorem makeDirectory_eq_ok (h : t.makeDirectory path = .ok t') :
    t.get? (Place.ofPath path) = none ∧ t' = t.put (Place.ofPath path) .directory := by
  unfold makeDirectory at h
  split at h
  · cases h
  · next located =>
      obtain rfl := locate_eq_ok located
      split at h
      · cases h
      · next free =>
          cases h
          exact ⟨free, rfl⟩

theorem keeps_of_makeDirectory (h : t.makeDirectory path = .ok t') : t.Keeps t' := by
  obtain ⟨free, rfl⟩ := makeDirectory_eq_ok h
  exact keeps_put free .directory

variable {content : List UInt8}

theorem write_eq_ok (h : t.write path content = .ok t') :
    t.locate path = .ok (Place.ofPath path) ∧ t.get? (Place.ofPath path) ≠ some .directory ∧
      Path.endsInSlash path = false ∧ t' = t.put (Place.ofPath path) (.file content) := by
  unfold write at h
  split at h
  · cases h
  · next place located =>
      obtain rfl := locate_eq_ok located
      split at h
      · cases h
      · next fits =>
          cases h
          rw [Bool.or_eq_true, not_or, decide_eq_true_eq, Bool.not_eq_true] at fits
          exact ⟨located, fits.1, fits.2, rfl⟩

theorem keepsDirectories_of_write (h : t.write path content = .ok t') : t.KeepsDirectories t' := by
  obtain ⟨-, notDirectory, -, rfl⟩ := write_eq_ok h
  intro place here
  have other : place ≠ Place.ofPath path := by
    rintro rfl
    exact notDirectory here
  rw [get?_put_of_ne other, here]

/-- A file that was written holds its bytes. -/
theorem read_of_write (h : t.write path content = .ok t') : t'.read path = .ok content := by
  have located := (keepsDirectories_of_write h).locate (write_eq_ok h).1
  obtain ⟨-, notDirectory, notSlash, rfl⟩ := write_eq_ok h
  refine read_eq_ok_iff.mpr ⟨located, ?_, notSlash⟩
  rw [get?_put t _ _ _ (names_ne_nil notDirectory), if_pos rfl]

/-- The files at other places stay as they are. -/
theorem read_of_write_of_ne (h : t.write path content = .ok t') {other : Text}
    (apart : Place.ofPath other ≠ Place.ofPath path) {held : List UInt8}
    (before : t.read other = .ok held) : t'.read other = .ok held := by
  obtain ⟨located, here, notSlash⟩ := read_eq_ok_iff.mp before
  refine read_eq_ok_iff.mpr ⟨(keepsDirectories_of_write h).locate located, ?_, notSlash⟩
  obtain ⟨-, -, -, rfl⟩ := write_eq_ok h
  rw [get?_put_of_ne apart, here]

end FileTree

/-- The file tree is the same. -/
def SameTree (before after : World) : Prop := after.files = before.files

theorem sameTree_refl (w : World) : SameTree w w := rfl

theorem sameTree_trans (u v w : World) (h : SameTree u v) (h' : SameTree v w) : SameTree u w :=
  h'.trans h

namespace Run

/-- Changes the file tree, unless that fails. -/
def change (f : FileTree → Except FileTree.Failure FileTree) : Run Unit := do
  match f (← get).files with
  | .error failure => throw (.file failure)
  | .ok files => modify fun world => { world with files }

theorem makeDirectory_eq (path : Text) : makeDirectory path = change (·.makeDirectory path) := rfl

theorem writeBytes_eq (path : Text) (bytes : List UInt8) :
    writeBytes path bytes = change (·.write path bytes) := rfl

section

variable {f : FileTree → Except FileTree.Failure FileTree}

theorem preserves_change {R : World → World → Prop} (refl : ∀ w, R w w)
    (step : ∀ w files, f w.files = .ok files → R w { w with files }) :
    Preserves R (change f) := by
  intro w
  rw [change, run_get_bind]
  split
  · exact refl w
  · next files changed => exact step w files changed

theorem failsOnly_change {E : Error → Prop}
    (refused : ∀ t failure, f t = .error failure → E (.file failure)) :
    FailsOnly E (change f) := by
  intro w e w' h
  rw [Fails, change, run_get_bind] at h
  split at h
  · next failure stopped =>
      obtain ⟨rfl, -⟩ := fails_throw_iff.mp h
      exact refused w.files failure stopped
  · cases congrArg Prod.fst h

end

/-- What stands in the file tree before stands in it afterwards. -/
def KeepsFiles (before after : World) : Prop := before.files.Keeps after.files

theorem keepsFiles_refl (w : World) : KeepsFiles w w := FileTree.Keeps.refl w.files

theorem keepsFiles_trans (u v w : World) (h : KeepsFiles u v) (h' : KeepsFiles v w) :
    KeepsFiles u w :=
  FileTree.Keeps.trans h h'

theorem preserves_makeDirectory (path : Text) : Preserves KeepsFiles (makeDirectory path) := by
  rw [makeDirectory_eq]
  exact preserves_change keepsFiles_refl fun _ _ made => FileTree.keeps_of_makeDirectory made

section

variable {R : World → World → Prop} (refl : ∀ w, R w w)
  (trans : ∀ u v w, R u v → R v w → R u w)

include refl trans

theorem preserves_allowTaken {x : Run Unit} (h : Preserves R x) : Preserves R (allowTaken x) := by
  refine .tryCatch trans h fun e => ?_
  split
  · exact .pure refl ()
  · exact .throw refl _

theorem preserves_ensureDirectory (lenient : Bool) {path : Text}
    (step : Preserves R (makeDirectory path)) : Preserves R (ensureDirectory lenient path) := by
  refine .tryCatch trans step fun e => ?_
  refine .bind trans (.get refl) fun w => ?_
  split
  · exact .pure refl ()
  · exact .throw refl e

/-- What making one directory does, making several does. -/
theorem preserves_makeDirectories (lenient : Bool) (fuel : Nat) {path : Text}
    (step : ∀ q, Path.OnTheWay q path → Preserves R (makeDirectory q)) :
    Preserves R (makeDirectories lenient fuel path) := by
  induction fuel generalizing path with
  | zero => exact step path .here
  | succ fuel ih =>
      have last := preserves_ensureDirectory refl trans lenient (step path .here)
      have above := ih fun q way => step q (.above way)
      rw [makeDirectories]
      refine .bind trans (.get refl) fun w => ?_
      split
      · exact last
      · refine .bind trans (preserves_allowTaken refl trans above) fun _ => ?_
        split
        · exact .pure refl ()
        · exact last

end

theorem sameTree_ofLogged {α : Type} (x : Logged α) : Preserves SameTree (ofLogged x) :=
  fun _ => rfl

theorem sameTree_ofOutcome {α : Type} (outcome : Except Error α) :
    Preserves SameTree (ofOutcome outcome) := by
  cases outcome with
  | ok a => exact .pure sameTree_refl a
  | error e => exact .throw sameTree_refl e

theorem returns_ofOutcome_iff {α : Type} {outcome : Except Error α} {a : α} {w w' : World} :
    Returns (ofOutcome outcome) w a w' ↔ outcome = .ok a ∧ w = w' := by
  cases outcome with
  | ok b => rw [ofOutcome, returns_pure_iff, Except.ok.injEq]
  | error e => exact ⟨fun h => absurd h not_returns_throw, fun h => nomatch h.1⟩

/-- A run that only logs leaves the files alone. -/
theorem returns_ofLogged {α : Type} {x : Logged α} {a : α} {w w' : World}
    (h : Returns (ofLogged x) w a w') : Returns x w.log a w'.log ∧ w'.files = w.files := by
  obtain ⟨outcome, world⟩ := Prod.mk.inj h
  rw [← world]
  exact ⟨Prod.ext outcome rfl, rfl⟩

theorem files_of_returns_log {level : Level} {source : Source} {message : Text} {w w' : World}
    (h : Returns (Run.log level source message) w () w') : w'.files = w.files :=
  (returns_ofLogged h).2

theorem returns_writeBytes {path : Text} {bytes : List UInt8} {w w' : World}
    (h : Returns (writeBytes path bytes) w () w') : w.files.write path bytes = .ok w'.files := by
  rw [Returns, writeBytes, run_get_bind] at h
  split at h
  · cases h
  · next written =>
      cases h
      exact written

/-- A text that was written could be encoded. -/
theorem returns_writeText {path text : Text} {w w' : World}
    (h : Returns (writeText path text) w () w') :
    ∃ bytes, Utf8.encode text = .ok bytes ∧ w.files.write path bytes = .ok w'.files := by
  unfold writeText at h
  split at h
  · next bytes encoded => exact ⟨bytes, encoded, returns_writeBytes h⟩
  · obtain ⟨_, _, -, thrown⟩ := returns_bind_iff.mp h
    exact absurd thrown not_returns_throw

end Run

namespace Discovery

open Run (KeepsFiles)

/-- The directories are made first, and the log comes last. -/
theorem exists_returns_writeText {path text : Text} {w w' : World}
    (h : Returns (writeFile path text) w () w') :
    ∃ made written, KeepsFiles w made ∧ Returns (Run.writeText path text) made () written ∧
      w'.files = written.files := by
  have last : ∀ made, Returns (do
      Run.writeText path text
      Run.log .info .discovery ("Wrote " ++ path)) made () w' →
      ∃ written, Returns (Run.writeText path text) made () written ∧
        w'.files = written.files := by
    intro made rest
    obtain ⟨_, written, text, log⟩ := returns_bind_iff.mp rest
    exact ⟨written, text, Run.files_of_returns_log log⟩
  simp only [writeFile] at h
  split at h
  · obtain ⟨_, made, directories, rest⟩ := returns_bind_iff.mp h
    obtain ⟨written, text, files⟩ := last made rest
    have kept := directories.of_preserves (Run.preserves_makeDirectories Run.keepsFiles_refl
      Run.keepsFiles_trans _ _ fun q _ => Run.preserves_makeDirectory q)
    exact ⟨made, written, kept, text, files⟩
  · obtain ⟨written, text, files⟩ := last w h
    exact ⟨w, written, Run.keepsFiles_refl w, text, files⟩

/-- A file that was written holds the encoded text, and the files at other places are as before. -/
theorem returns_writeFile {path text : Text} {w w' : World}
    (h : Returns (writeFile path text) w () w') :
    (∃ bytes, Utf8.encode text = .ok bytes ∧ w'.files.read path = .ok bytes) ∧
      ∀ other held, Place.ofPath other ≠ Place.ofPath path → w.files.read other = .ok held →
        w'.files.read other = .ok held := by
  obtain ⟨made, written, kept, text, files⟩ := exists_returns_writeText h
  obtain ⟨bytes, encoded, write⟩ := Run.returns_writeText text
  rw [files]
  refine ⟨⟨bytes, encoded, FileTree.read_of_write write⟩, ?_⟩
  intro other held apart before
  exact FileTree.read_of_write_of_ne write apart (FileTree.Keeps.read kept before)

end Discovery

end JsonShapes
