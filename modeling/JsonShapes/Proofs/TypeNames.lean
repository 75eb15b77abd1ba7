import JsonShapes.Proofs.Confinement
import JsonShapes.Proofs.NameablePaths

/-!
# Type names

Of a path without its host, its groups in braces and its query, the type name keeps every ASCII
letter and digit, in order and up to case, and nothing else. Segments and words only decide which
letters become capitals. So the names under which types are tried are identifiers, and whatever the
paths are, a discovery writes its files where the flavors and methods say.
-/

namespace JsonShapes

namespace CodePoint

/-- The small letter for a capital one; anything else stays as it is. -/
def small (c : CodePoint) : CodePoint := if c.isUpperLetter then ofNat (c.val + 0x20) else c

/-- The capital letter for a small one; anything else stays as it is. -/
def large (c : CodePoint) : CodePoint := if c.isLowerLetter then ofNat (c.val - 0x20) else c

theorem val_lt_of_isAlphanumeric {c : CodePoint} (h : c.isAlphanumeric = true) : c.val < 0x80 := by
  simp only [isAlphanumeric, isLowerLetter, isUpperLetter, isDigit, Bool.or_eq_true,
    Bool.and_eq_true, decide_eq_true_eq] at h
  omega

/-- What holds of letters and digits can be looked up. -/
theorem of_isAlphanumeric {P : CodePoint → Prop}
    (table : ∀ n < 0x80, (ofNat n).isAlphanumeric = true → P (ofNat n)) {c : CodePoint}
    (h : c.isAlphanumeric = true) : P c := by
  have found := table c.val (val_lt_of_isAlphanumeric h)
  rw [ofNat_val] at found
  exact found h

/-- On letters and digits the case mappings of Unicode are those of ASCII. -/
theorem mappings_of_isAlphanumeric {c : CodePoint} (h : c.isAlphanumeric = true) :
    c.val ≠ 0x3A3 ∧ c.lower = [c.small] ∧ c.title = [c.large] ∧
      c.isUpperCase = c.isUpperLetter := by
  refine of_isAlphanumeric (P := fun c => c.val ≠ 0x3A3 ∧ c.lower = [c.small] ∧
    c.title = [c.large] ∧ c.isUpperCase = c.isUpperLetter) ?_ h
  decide +kernel

/-- Small and capital letters are letters that differ in case only. -/
theorem folds_of_isAlphanumeric {c : CodePoint} (h : c.isAlphanumeric = true) :
    c.small.isAlphanumeric = true ∧ c.small.small = c.small ∧ c.large.isAlphanumeric = true ∧
      c.large.small = c.small ∧ c.large.isLowerLetter = false := by
  refine of_isAlphanumeric (P := fun c => c.small.isAlphanumeric = true ∧
    c.small.small = c.small ∧ c.large.isAlphanumeric = true ∧ c.large.small = c.small ∧
      c.large.isLowerLetter = false) ?_ h
  decide +kernel

end CodePoint

namespace Text

/-- Nothing but letters and digits. -/
def IsAlphanumeric (t : Text) : Prop := ∀ c ∈ t, c.isAlphanumeric = true

/-- The text does not start with a small letter. -/
def StartsLarge (t : Text) : Prop := ∀ c ∈ t.head?, c.isLowerLetter = false

/-- The letters and digits of a text, without regard to case. -/
def letters (t : Text) : Text := (t.filter CodePoint.isAlphanumeric).map CodePoint.small

theorem IsAlphanumeric.filter_eq {t : Text} (h : t.IsAlphanumeric) :
    t.filter CodePoint.isAlphanumeric = t :=
  List.filter_eq_self.2 h

theorem startsLarge_flatMap {α : Type} {f : α → Text} {l : List α}
    (h : ∀ a ∈ l, (f a).StartsLarge) : StartsLarge (l.flatMap f) := by
  induction l with
  | nil => exact nofun
  | cons a l ih =>
      rw [List.forall_mem_cons] at h
      rw [List.flatMap_cons, StartsLarge, List.head?_append]
      intro c first
      cases start : (f a).head? with
      | none =>
          rw [start, Option.none_or] at first
          exact ih h.2 c first
      | some d =>
          rw [start, Option.some_or] at first
          exact h.1 c (start ▸ first)

section

variable {t : Text}

theorem lowerAfter_of_isAlphanumeric (h : t.IsAlphanumeric) (before : Text) :
    lowerAfter before t = t.map CodePoint.small := by
  induction t generalizing before with
  | nil => rfl
  | cons c t ih =>
      obtain ⟨here, rest⟩ := List.forall_mem_cons.1 h
      obtain ⟨noSigma, lower, -⟩ := CodePoint.mappings_of_isAlphanumeric here
      rw [lowerAfter, if_neg noSigma, lower, ih rest]
      rfl

theorem capitalize_cons_of_isAlphanumeric {c : CodePoint} (h : IsAlphanumeric (c :: t)) :
    capitalize (c :: t) = c.large :: t.map CodePoint.small := by
  obtain ⟨here, rest⟩ := List.forall_mem_cons.1 h
  obtain ⟨-, -, title, -⟩ := CodePoint.mappings_of_isAlphanumeric here
  rw [capitalize, title, lowerAfter_of_isAlphanumeric rest]
  rfl

/-- Capitalizing changes the case of letters only. -/
theorem map_small_capitalize (h : t.IsAlphanumeric) :
    t.capitalize.map CodePoint.small = t.map CodePoint.small := by
  cases t with
  | nil => rfl
  | cons c t =>
      obtain ⟨here, rest⟩ := List.forall_mem_cons.1 h
      obtain ⟨-, -, -, first, -⟩ := CodePoint.folds_of_isAlphanumeric here
      rw [capitalize_cons_of_isAlphanumeric h, List.map_cons, List.map_cons, List.map_map, first]
      refine congrArg _ (List.map_congr_left fun d hd => ?_)
      exact (CodePoint.folds_of_isAlphanumeric (rest d hd)).2.1

theorem isAlphanumeric_capitalize (h : t.IsAlphanumeric) : t.capitalize.IsAlphanumeric := by
  cases t with
  | nil => exact nofun
  | cons c t =>
      obtain ⟨here, rest⟩ := List.forall_mem_cons.1 h
      obtain ⟨-, -, first, -⟩ := CodePoint.folds_of_isAlphanumeric here
      rw [capitalize_cons_of_isAlphanumeric h, IsAlphanumeric, List.forall_mem_cons]
      refine ⟨first, List.forall_mem_map.2 fun d hd => ?_⟩
      exact (CodePoint.folds_of_isAlphanumeric (rest d hd)).1

theorem startsLarge_capitalize (h : t.IsAlphanumeric) : t.capitalize.StartsLarge := by
  cases t with
  | nil => exact nofun
  | cons c t =>
      obtain ⟨-, -, -, -, first⟩ := CodePoint.folds_of_isAlphanumeric (h c List.mem_cons_self)
      rw [capitalize_cons_of_isAlphanumeric h, StartsLarge, List.head?_cons]
      rintro d ⟨⟩
      exact first

end

end Text

namespace Naming

open Text (letters)

/-- Nothing but letters, digits and underscores. -/
def IsClean (t : Text) : Prop := ∀ c ∈ t, c.isAlphanumeric = true ∨ c = CodePoint.ofChar '_'

theorem isClean_cleaned (segment : Text) : IsClean (cleaned segment) := by
  refine List.forall_mem_map.2 fun c _ => ?_
  split
  · next fits => simpa using fits
  · exact .inr rfl

theorem underscore_not_isAlphanumeric : (CodePoint.ofChar '_').isAlphanumeric = false := by decide

theorem letters_cleaned (segment : Text) : letters (cleaned segment) = letters segment := by
  induction segment with
  | nil => rfl
  | cons c segment ih =>
      unfold letters cleaned at ih ⊢
      by_cases inside : c.isAlphanumeric = true
      · simpa [inside] using ih
      · have first : (if c = CodePoint.ofChar '_' then c else CodePoint.ofChar '_') =
            CodePoint.ofChar '_' := ite_eq_right_iff.2 id
        simpa [inside, first, underscore_not_isAlphanumeric] using ih

section

variable {t : Text}

theorem IsClean.notMem {c : CodePoint} (h : IsClean t) (other : c.isAlphanumeric = false)
    (notUnderscore : c ≠ CodePoint.ofChar '_') : c ∉ t := by
  intro member
  rcases h c member with inside | same
  · rw [inside] at other
    cases other
  · exact notUnderscore same

theorem IsClean.filter_eq (h : IsClean t) :
    (t.filter fun c => c ≠ CodePoint.ofChar '_') = t.filter CodePoint.isAlphanumeric := by
  refine List.filter_congr fun c member => ?_
  rcases h c member with inside | rfl
  · have other : c ≠ CodePoint.ofChar '_' := by
      rintro rfl
      rw [underscore_not_isAlphanumeric] at inside
      cases inside
    rw [inside]
    exact decide_eq_true other
  · decide

/-- A word that is under way goes on with what follows, and capitals start new ones. -/
theorem flatten_wordsFrom_some (smallStarts : Bool) (word : Text) (h : t.IsAlphanumeric) :
    (wordsFrom smallStarts (some word) t).flatten = word.reverse ++ t := by
  induction t generalizing word with
  | nil => simp [wordsFrom]
  | cons c t ih =>
      obtain ⟨here, rest⟩ := List.forall_mem_cons.1 h
      rw [wordsFrom]
      split
      · simp [ih _ rest]
      · next notLarge =>
          have continues : (c.isLowerLetter || c.isDigit) = true := by
            simpa [CodePoint.isAlphanumeric, notLarge] using here
          simp [continues, ih _ rest]

/-- The words are made of all letters and digits, unless the first one starts small where it must
not. -/
theorem flatten_wordsFrom_none {c : CodePoint} (h : Text.IsAlphanumeric (c :: t))
    {smallStarts : Bool} (starts : smallStarts = !c.isUpperLetter) :
    (wordsFrom smallStarts none (c :: t)).flatten = c :: t := by
  obtain ⟨here, rest⟩ := List.forall_mem_cons.1 h
  rw [wordsFrom]
  split
  · simp [flatten_wordsFrom_some _ _ rest]
  · next notLarge =>
      have continues : (c.isLowerLetter || c.isDigit) = true := by
        simpa [CodePoint.isAlphanumeric, notLarge] using here
      have small : smallStarts = true := by simpa [notLarge] using starts
      simp [continues, small, flatten_wordsFrom_some _ _ rest]

/-- No letter or digit of a clean text is lost among its words. -/
theorem flatten_words (h : IsClean t) : (words t).flatten = t.filter CodePoint.isAlphanumeric := by
  unfold words
  split
  · rw [Text.flatten_splitOn, h.filter_eq]
  · next none =>
      have alphanumeric : t.IsAlphanumeric := by
        intro c member
        refine (h c member).resolve_right ?_
        rintro rfl
        exact none (List.contains_iff_mem.2 member)
      rw [alphanumeric.filter_eq]
      cases t with
      | nil => rfl
      | cons c t =>
          have first := alphanumeric c List.mem_cons_self
          obtain ⟨-, -, -, upper⟩ := CodePoint.mappings_of_isAlphanumeric first
          exact flatten_wordsFrom_none alphanumeric (congrArg (!·) upper)

theorem isAlphanumeric_of_mem_words (h : IsClean t) {word : Text} (member : word ∈ words t) :
    word.IsAlphanumeric := by
  intro c inside
  have listed := List.mem_flatten.2 ⟨word, member, inside⟩
  rw [flatten_words h] at listed
  exact (List.mem_filter.1 listed).2

theorem splitColons_of_notMem (piece : Text) (h : CodePoint.ofChar ':' ∉ t) :
    splitColons piece t = [piece.reverse ++ t] := by
  fun_induction splitColons piece t with
  | case1 piece => simp
  | case2 piece c => simp
  | case3 piece c d rest pair ih => simp_all
  | case4 piece c d rest other ih =>
      rw [ih (fun member => h (List.mem_cons_of_mem c member))]
      simp

/-- A clean text is one word for Pascal case. -/
theorem pascal_of_isClean (h : IsClean t) : pascal t = pascalWord t := by
  have noColon : CodePoint.ofChar ':' ∉ t := h.notMem (by decide) (by decide)
  have noDot : CodePoint.ofChar '.' ∉ t := h.notMem (by decide) (by decide)
  rw [pascal, splitColons_of_notMem [] noColon]
  change pascalDotted t = _
  rw [pascalDotted, Text.splitOn_of_notMem noDot]
  rfl

end

/-- The words of a segment, each with a capital. -/
def capitalWords (segment : Text) : Text := (words (cleaned segment)).flatMap Text.capitalize

theorem isAlphanumeric_capitalWords (segment : Text) : (capitalWords segment).IsAlphanumeric := by
  intro c member
  obtain ⟨word, listed, inside⟩ := List.mem_flatMap.1 member
  have word := isAlphanumeric_of_mem_words (isClean_cleaned segment) listed
  exact Text.isAlphanumeric_capitalize word c inside

theorem filter_segmentName (segment : Text) :
    ((segmentName segment).filter fun c => c ≠ CodePoint.ofChar '_') = capitalWords segment := by
  have kept : ((capitalWords segment).filter fun c => c ≠ CodePoint.ofChar '_') =
      capitalWords segment := by
    refine List.filter_eq_self.2 fun c member => decide_eq_true ?_
    rintro rfl
    have inside := isAlphanumeric_capitalWords segment _ member
    rw [underscore_not_isAlphanumeric] at inside
    cases inside
  rw [segmentName, pascal_of_isClean (isClean_cleaned segment), pascalWord]
  split
  · rw [List.filter_cons_of_neg (by simp)]
    exact kept
  · exact kept

theorem startsLarge_capitalWords (segment : Text) : (capitalWords segment).StartsLarge :=
  Text.startsLarge_flatMap fun _ member =>
    Text.startsLarge_capitalize (isAlphanumeric_of_mem_words (isClean_cleaned segment) member)

/-- The words of a segment have its letters and digits. -/
theorem map_small_capitalWords (segment : Text) :
    (capitalWords segment).map CodePoint.small = letters segment := by
  have clean := isClean_cleaned segment
  have each : ∀ word ∈ words (cleaned segment),
      word.capitalize.map CodePoint.small = word.map CodePoint.small :=
    fun word member => Text.map_small_capitalize (isAlphanumeric_of_mem_words clean member)
  calc (capitalWords segment).map CodePoint.small
      = (words (cleaned segment)).flatMap (List.map CodePoint.small) := by
        rw [capitalWords, List.map_flatMap]
        exact List.flatMap_congr each
    _ = (words (cleaned segment)).flatten.map CodePoint.small := by
        rw [List.flatMap_def, List.map_flatten]
    _ = letters (cleaned segment) := by rw [flatten_words clean, letters]
    _ = letters segment := letters_cleaned segment

theorem typeName_eq (path : Text) : typeName path = (segments path).flatMap capitalWords := by
  rw [typeName, List.filter_flatMap]
  exact List.flatMap_congr fun segment _ => filter_segmentName segment

theorem isAlphanumeric_typeName (path : Text) : (typeName path).IsAlphanumeric := by
  rw [typeName_eq]
  intro c member
  obtain ⟨segment, -, inside⟩ := List.mem_flatMap.1 member
  exact isAlphanumeric_capitalWords segment c inside

theorem startsLarge_typeName (path : Text) : (typeName path).StartsLarge := by
  rw [typeName_eq]
  exact Text.startsLarge_flatMap fun segment _ => startsLarge_capitalWords segment

/-- The type name has the letters and digits of the part that names the type. -/
theorem map_small_typeName (path : Text) :
    (typeName path).map CodePoint.small = letters (nameablePath path) := by
  have slash : (CodePoint.ofChar '/').isAlphanumeric = false := by decide
  have kept : ((nameablePath path).filter fun c => c ≠ CodePoint.ofChar '/').filter
      CodePoint.isAlphanumeric = (nameablePath path).filter CodePoint.isAlphanumeric := by
    rw [List.filter_filter]
    refine List.filter_congr fun c _ => ?_
    by_cases same : c = CodePoint.ofChar '/'
    · rw [same, slash, Bool.false_and]
    · simp [same]
  calc (typeName path).map CodePoint.small
      = (segments path).flatMap letters := by
        rw [typeName_eq, List.map_flatMap]
        exact List.flatMap_congr fun segment _ => map_small_capitalWords segment
    _ = letters (segments path).flatten := by
        rw [letters, List.filter_flatten, List.map_flatten, List.map_map, List.flatMap_def]
        rfl
    _ = letters (nameablePath path) := by
        rw [segments, List.flatten_filter_not_isEmpty, Text.flatten_splitOn, letters, kept, letters]

/-- A letter or an underscore, followed by letters, digits and underscores. -/
def IsBareName (name : Text) : Prop :=
  IsClean name ∧ ∃ first ∈ name.head?, first.isDigit = false

theorem isBareName_safeIdentifier {name : Text} (h : name.IsAlphanumeric) :
    IsBareName (safeIdentifier name) := by
  have same : (name.map fun c : CodePoint => if isIdentifierPoint c then c else '_') = name := by
    refine List.map_congr_left (fun c member => ?_) |>.trans (List.map_id name)
    simp [isIdentifierPoint, h c member]
  have clean : IsClean name := fun c member => .inl (h c member)
  have underscore : IsClean ['_'] := List.forall_mem_singleton.2 (.inr rfl)
  simp only [safeIdentifier, same]
  cases name with
  | nil => exact ⟨underscore, _, rfl, rfl⟩
  | cons c name =>
      dsimp only
      split
      · exact ⟨List.forall_mem_append.2 ⟨underscore, clean⟩, _, rfl, rfl⟩
      · next noDigit => exact ⟨clean, c, rfl, Bool.eq_false_iff.2 noDigit⟩

/-- The first name that is tried is an identifier without a dollar sign. -/
theorem isBareName_baseName (path : Text) : IsBareName (baseName path) := by
  unfold baseName
  split
  · have root : ∀ c ∈ Text.ofString "Root", c.isAlphanumeric = true := by decide
    exact isBareName_safeIdentifier root
  · exact isBareName_safeIdentifier (isAlphanumeric_typeName path)

/-- The type name of a path has only letters and digits and does not start with a small letter. Up
to case it is what remains of the letters and digits of the path without its host, groups and query.
So the first name tried for a path is a bare name, and no document leads a discovery away from the
places that belong to it. -/
theorem typeName_keeps_letters (path : Text) :
    (typeName path).IsAlphanumeric ∧ (typeName path).StartsLarge ∧
    (∃ rest, (∀ other, Remains path other ↔ other = rest) ∧
      (typeName path).map CodePoint.small = letters rest) ∧
    IsBareName (baseName path) ∧
    ∀ (settings : Discovery.Settings) (probe : Json),
      Preserves (Run.Confined settings.OwnFile settings.OwnFolder)
        (Discovery.discover settings probe) :=
  ⟨isAlphanumeric_typeName path, startsLarge_typeName path,
    ⟨nameablePath path, fun _ => remains_iff, map_small_typeName path⟩,
    isBareName_baseName path, Discovery.confined_discover⟩

end Naming

end JsonShapes
