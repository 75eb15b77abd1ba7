import JsonShapes.Proofs.Encodability

/-!
# Writes that fail

A file is not written because its path cannot be handed to the file system, because the file system
refuses, or because its text cannot be encoded. In the first case no file changes at all, whatever
directories were made on the way. So a path that is clean leaves the file system as the only source
of failure for a text that can be encoded.
-/

namespace JsonShapes

namespace Path

/-- The code point has an encoding in paths, and it is not the one that ends them. -/
def isUsable (c : CodePoint) : Bool := (!c.isSurrogate || isRawByte c) && !(c.val == 0)

/-- The path can be handed to the file system. -/
def Clean (path : Text) : Prop := ∀ c ∈ path, isUsable c = true

variable {path : Text}

instance (path : Text) : Decidable (Clean path) :=
  inferInstanceAs (Decidable (∀ c ∈ path, isUsable c = true))

theorem clean_append {rest : Text} : Clean (path ++ rest) ↔ Clean path ∧ Clean rest :=
  List.forall_mem_append

theorem Clean.mono {rest : Text} (h : Clean path) (part : rest ⊆ path) : Clean rest :=
  fun c hc => h c (part hc)

theorem clean_join {rest : Text} : Clean (join path rest) ↔ Clean path ∧ Clean rest := by
  have slash : Clean "/" := by decide
  unfold join
  split
  · exact clean_append
  · rw [clean_append, clean_append, and_iff_left slash]

theorem clean_of_isIdentifier {name : Text} (h : Naming.IsIdentifier name) : Clean name := by
  intro c hc
  obtain ⟨low, high, -⟩ := h.isPlain c hc
  have noSurrogate : c.isSurrogate = false := CodePoint.isSurrogate_eq_false (by omega)
  have noNull : (c.val == 0) = false := beq_false_of_ne (by omega)
  rw [isUsable, noSurrogate, noNull]
  rfl

theorem clean_iff : Clean path ↔ encodeError? path = none ∧ holdsNull path = false := by
  have encoded : encodeError? path = none ↔ ∀ c ∈ path, (!c.isSurrogate || isRawByte c) = true := by
    rw [← List.dropWhile_eq_nil_iff, encodeError?]
    cases path.dropWhile (fun c => !c.isSurrogate || isRawByte c) with
    | nil => exact iff_of_true rfl rfl
    | cons c rest => exact iff_of_false nofun nofun
  have ended : holdsNull path = false ↔ ∀ c ∈ path, (!(c.val == 0)) = true := by
    rw [holdsNull, List.any_eq_false]
    simp
  simp only [encoded, ended, Clean, isUsable, Bool.and_eq_true, forall_and]

theorem dropTrailingSlashes_subset (path : Text) : dropTrailingSlashes path ⊆ path := by
  unfold dropTrailingSlashes
  split
  · exact List.Subset.refl path
  · intro c hc
    exact List.mem_reverse.1 ((List.dropWhile_sublist _).subset (List.mem_reverse.1 hc))

theorem directory_subset (path : Text) : directory path ⊆ path := by
  intro c hc
  have listed := List.mem_reverse.1 (dropTrailingSlashes_subset _ hc)
  exact List.mem_reverse.1 ((List.dropWhile_sublist _).subset listed)

theorem splitLast_subset (path : Text) : (splitLast path).1 ⊆ path := by
  unfold splitLast
  split
  next head tail eq =>
  have above : head = directory path := (congrArg Prod.fst eq).symm
  split
  · rw [above]
    exact List.Subset.trans (directory_subset _) (directory_subset path)
  · rw [above]
    exact directory_subset path

end Path

namespace FileTree

open JsonShapes.Path (Clean clean_iff)

variable {t t' : FileTree} {path : Text}

theorem isFromSystem_of_follow {place : Place} {names : List Text} {cause : Cause}
    (h : t.follow place names = .error cause) : cause.isFromSystem = true := by
  induction names generalizing place with
  | nil => cases h
  | cons name names ih =>
      rw [follow] at h
      split at h
      · cases h
        rfl
      · cases h
        rfl
      · split at h
        · cases h
          rfl
        · exact ih h

/-- A clean path reaches the file system. -/
theorem isFromSystem_of_locate (clean : Clean path) {cause : Cause}
    (h : t.locate path = .error cause) : cause.isFromSystem = true := by
  obtain ⟨encodable, noNull⟩ := clean_iff.1 clean
  rw [locate, encodable, noNull] at h
  dsimp only at h
  split at h
  · contradiction
  split at h
  · cases h
    rfl
  split at h
  · cases h
    rfl
  · exact isFromSystem_of_follow h

/-- No other path does. -/
theorem clean_of_locate {place : Place} (h : t.locate path = .ok place) : Clean path := by
  rw [clean_iff]
  unfold locate at h
  split at h
  · cases h
  · next encodable =>
      split at h
      · cases h
      · next noNull => exact ⟨encodable, Bool.not_eq_true _ ▸ noNull⟩

theorem isFromSystem_of_makeDirectory (clean : Clean path) {failure : Failure}
    (h : t.makeDirectory path = .error failure) : failure.cause.isFromSystem = true := by
  unfold makeDirectory at h
  split at h
  · next located =>
      cases h
      exact isFromSystem_of_locate clean located
  · split at h
    · cases h
      rfl
    · cases h

theorem isFromSystem_of_write (clean : Clean path) {content : List UInt8} {failure : Failure}
    (h : t.write path content = .error failure) : failure.cause.isFromSystem = true := by
  unfold write at h
  split at h
  · next located =>
      cases h
      exact isFromSystem_of_locate clean located
  · split at h
    · cases h
      rfl
    · cases h

/-- The same files with the same bytes stand in both trees. -/
def SameFiles (t t' : FileTree) : Prop :=
  ∀ place content, t'.get? place = some (.file content) ↔ t.get? place = some (.file content)

theorem sameFiles_of_makeDirectory (h : t.makeDirectory path = .ok t') : t.SameFiles t' := by
  obtain ⟨free, rfl⟩ := makeDirectory_eq_ok h
  intro place content
  by_cases here : place = Place.ofPath path
  · subst here
    have other : t.get? (Place.ofPath path) ≠ some .directory := by
      rw [free]
      exact nofun
    rw [get?_put t _ _ _ (names_ne_nil other), if_pos rfl, free]
    exact iff_of_false nofun nofun
  · rw [get?_put_of_ne here]

/-- A file that is there after a write was there before, or it is the one that was written. -/
theorem file_of_write {content held : List UInt8} {place : Place}
    (h : t.write path content = .ok t') (here : t'.get? place = some (.file held)) :
    t.get? place = some (.file held) ∨ held = content := by
  obtain ⟨-, notDirectory, -, rfl⟩ := write_eq_ok h
  by_cases same : place = Place.ofPath path
  · subst same
    rw [get?_put t _ _ _ (names_ne_nil notDirectory), if_pos rfl] at here
    cases here
    exact .inr rfl
  · rw [get?_put_of_ne same] at here
    exact .inl here

end FileTree

namespace Run

open JsonShapes.Path (Clean)

/-- A path could not be used. If the condition holds, it was the file system that refused it. -/
def FromFiles (P : Prop) (e : Error) : Prop :=
  ∃ failure, e = .file failure ∧ (P → failure.cause.isFromSystem = true)

section

variable {P : Prop} {path : Text}

theorem failsOnly_makeDirectory (clean : P → Clean path) :
    FailsOnly (FromFiles P) (makeDirectory path) := by
  rw [makeDirectory_eq]
  refine failsOnly_change fun t failure refused => ⟨failure, rfl, fun p => ?_⟩
  exact FileTree.isFromSystem_of_makeDirectory (clean p) refused

theorem failsOnly_ensureDirectory (lenient : Bool) (clean : P → Clean path) :
    FailsOnly (FromFiles P) (ensureDirectory lenient path) := by
  refine .tryCatch (failsOnly_makeDirectory clean) fun e known => .bind .get fun w => ?_
  split
  · exact .pure ()
  · exact .throw known

/-- All directories on the way have clean paths, since they are made of parts of the whole. -/
theorem failsOnly_makeDirectories (lenient : Bool) (fuel : Nat) (clean : P → Clean path) :
    FailsOnly (FromFiles P) (makeDirectories lenient fuel path) := by
  induction fuel generalizing path with
  | zero => exact failsOnly_makeDirectory clean
  | succ fuel ih =>
      rw [makeDirectories]
      split
      next above name eq =>
      have cleanAbove : P → Clean above := by
        have part := Path.splitLast_subset path
        rw [eq] at part
        exact fun p => (clean p).mono part
      refine .bind .get fun w => ?_
      split
      · exact failsOnly_ensureDirectory lenient clean
      · have made : FailsOnly (FromFiles P) (allowTaken (makeDirectories lenient fuel above)) := by
          refine .tryCatch (ih cleanAbove) fun e known => ?_
          split
          · exact .pure ()
          · exact .throw known
        refine .bind made fun _ => ?_
        split
        · exact .pure ()
        · exact failsOnly_ensureDirectory lenient clean

theorem failsOnly_writeBytes (clean : P → Clean path) (bytes : List UInt8) :
    FailsOnly (FromFiles P) (writeBytes path bytes) := by
  rw [writeBytes_eq]
  refine failsOnly_change fun t failure refused => ⟨failure, rfl, fun p => ?_⟩
  exact FileTree.isFromSystem_of_write (clean p) refused

/-- A file is not written because of its path or because of its text. -/
def WriteError (P : Prop) (text : Text) (e : Error) : Prop :=
  FromFiles P e ∨ text.isEncodable = false ∧ ∃ cause, e = .unencodable cause

theorem failsOnly_writeText (clean : P → Clean path) (text : Text) :
    FailsOnly (WriteError P text) (writeText path text) := by
  have bytes (content : List UInt8) : FailsOnly (WriteError P text) (writeBytes path content) :=
    (failsOnly_writeBytes clean content).mono fun _ => .inl
  unfold writeText
  split
  · exact bytes _
  · next cause stopped =>
      refine .bind (bytes []) fun _ => .throw (.inr ⟨?_, cause, rfl⟩)
      rw [← Bool.not_eq_true, ← Utf8.exists_encode_iff, stopped]
      exact nofun

end

/-- No file appears, disappears or changes. -/
def SameFiles (before after : World) : Prop := before.files.SameFiles after.files

theorem sameFiles_refl (w : World) : SameFiles w w := fun _ _ => Iff.rfl

theorem sameFiles_trans (u v w : World) (h : SameFiles u v) (h' : SameFiles v w) :
    SameFiles u w :=
  fun place content => (h' place content).trans (h place content)

/-- Every file is one from before, or holds the encoding of one of the given texts. -/
def Adds (T : Set Text) (before after : World) : Prop :=
  ∀ place content, after.files.get? place = some (.file content) →
    before.files.get? place = some (.file content) ∨ ∃ text ∈ T, Utf8.encode text = .ok content

variable {T : Set Text}

theorem SameFiles.adds {u v : World} (h : SameFiles u v) : Adds T u v :=
  fun place content here => .inl ((h place content).1 here)

theorem adds_trans (u v w : World) (h : Adds T u v) (h' : Adds T v w) : Adds T u w := by
  intro place content here
  obtain before | written := h' place content here
  · exact h place content before
  · exact .inr written

theorem sameFiles_makeDirectory (path : Text) : Preserves SameFiles (makeDirectory path) := by
  rw [makeDirectory_eq]
  exact preserves_change sameFiles_refl fun _ _ made => FileTree.sameFiles_of_makeDirectory made

/-- Nothing is written to a path that is not clean. -/
theorem sameFiles_writeBytes {path : Text} (unclean : ¬Path.Clean path) (bytes : List UInt8) :
    Preserves SameFiles (writeBytes path bytes) := by
  rw [writeBytes_eq]
  refine preserves_change sameFiles_refl fun w files written => absurd ?_ unclean
  exact FileTree.clean_of_locate (FileTree.write_eq_ok written).1

theorem sameFiles_writeText {path : Text} (unclean : ¬Path.Clean path) (text : Text) :
    Preserves SameFiles (writeText path text) := by
  unfold writeText
  split
  · exact sameFiles_writeBytes unclean _
  · refine .bind sameFiles_trans (sameFiles_writeBytes unclean []) fun _ => ?_
    exact .throw sameFiles_refl _

theorem adds_writeText (path : Text) {text : Text} (listed : text ∈ T)
    (encodable : text.isEncodable = true) : Preserves (Adds T) (writeText path text) := by
  obtain ⟨bytes, encoded⟩ := Utf8.exists_encode_iff.2 encodable
  simp only [writeText, encoded, writeBytes_eq]
  refine preserves_change (fun w => (sameFiles_refl w).adds) ?_
  intro w files written place content here
  obtain before | rfl := FileTree.file_of_write written here
  · exact .inl before
  · exact .inr ⟨text, listed, encoded⟩

theorem preserves_log {R : World → World → Prop} (logged : ∀ w log, R w { w with log })
    (level : Level) (source : Source) (message : Text) :
    Preserves R (Run.log level source message) :=
  fun w => logged w _

theorem failsOnly_log {E : Error → Prop} (level : Level) (source : Source) (message : Text) :
    FailsOnly E (Run.log level source message) := by
  intro w e w' h
  cases congrArg Prod.fst h

end Run

namespace Discovery

open Run

variable {path text : Text}

/-- What making a directory, writing the text and logging do, writing a file does. -/
theorem preserves_writeFile {R : World → World → Prop} (trans : ∀ u v w, R u v → R v w → R u w)
    (logged : ∀ w log, R w { w with log })
    (made : ∀ q, Path.OnTheWay q (Path.directory path) → Preserves R (makeDirectory q))
    (written : Preserves R (writeText path text)) : Preserves R (writeFile path text) := by
  have refl : ∀ w, R w w := fun w => logged w w.log
  have last := Preserves.bind trans written fun _ =>
    preserves_log logged .info .discovery ("Wrote " ++ path)
  simp only [writeFile]
  split
  · exact .bind trans (preserves_makeDirectories refl trans _ _ made) fun _ => last
  · exact last

theorem sameFiles_writeFile (unclean : ¬Path.Clean path) :
    Preserves SameFiles (writeFile path text) :=
  preserves_writeFile sameFiles_trans (fun _ _ _ _ => Iff.rfl)
    (fun above _ => sameFiles_makeDirectory above) (sameFiles_writeText unclean text)

theorem adds_writeFile {T : Set Text} (listed : text ∈ T) (encodable : text.isEncodable = true) :
    Preserves (Adds T) (writeFile path text) :=
  preserves_writeFile adds_trans (fun _ _ _ _ => .inl)
    (fun above _ w => (sameFiles_makeDirectory above w).adds)
    (adds_writeText path listed encodable)

theorem failsOnly_writeFile {P : Prop} (clean : P → Path.Clean path) :
    FailsOnly (WriteError P text) (writeFile path text) := by
  have above : P → Path.Clean (Path.directory path) := fun p =>
    (clean p).mono (Path.directory_subset path)
  have last := FailsOnly.bind (failsOnly_writeText clean text) fun _ =>
    failsOnly_log .info .discovery ("Wrote " ++ path)
  simp only [writeFile]
  split
  · exact .bind ((failsOnly_makeDirectories _ _ above).mono fun _ => .inl) fun _ => last
  · exact last

end Discovery

end JsonShapes
