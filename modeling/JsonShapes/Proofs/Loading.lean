import JsonShapes.Proofs.FileWrites
import JsonShapes.Proofs.SpacedDocuments
import JsonShapes.Samples

/-!
# Loading samples

Texts that are written one to a line are loaded as the values that they spell, whatever the line
ends and however many blank lines there are. Two documents in a row are never one document, so the
lines are read one by one; a document that stands alone may take several lines. A limit on the
number of samples takes a beginning of the values that are loaded without it.
-/

namespace JsonShapes

namespace Text

theorem trim_cons {c : CodePoint} (blank : c.isBlank = true) (t : Text) :
    trim (c :: t) = trim t := by
  rw [trim, trimBy, List.dropWhile_cons_of_pos blank, trim, trimBy]

theorem trim_concat (t : Text) {c : CodePoint} (blank : c.isBlank = true) :
    trim (t ++ [c]) = trim t := by
  change ((t ++ [c]).dropWhile CodePoint.isBlank).rdropWhile CodePoint.isBlank =
    (t.dropWhile CodePoint.isBlank).rdropWhile CodePoint.isBlank
  rw [List.dropWhile_append]
  split
  · next none =>
      rw [List.isEmpty_iff.1 none, List.dropWhile_cons_of_pos blank, List.dropWhile_nil]
  · exact List.rdropWhile_concat_pos _ _ _ blank

theorem trim_eq_nil {t : Text} (blank : ∀ c ∈ t, c.isBlank = true) : t.trim = [] := by
  rw [trim, trimBy, List.dropWhile_eq_nil_iff.2 blank]
  rfl

/-- The lines that are not blank, without the blanks around them. -/
def stripped (lines : List Text) : List Text := (lines.map trim).filter fun t => !t.isEmpty

theorem stripped_append (lines others : List Text) :
    stripped (lines ++ others) = stripped lines ++ stripped others := by
  simp [stripped]

theorem stripped_cons (t : Text) (lines : List Text) :
    stripped (t :: lines) =
      if t.trim.isEmpty then stripped lines else t.trim :: stripped lines := by
  rw [stripped, List.map_cons, List.filter_cons]
  cases t.trim.isEmpty <;> rfl

theorem stripped_cons_congr {s t : Text} (h : s.trim = t.trim) (lines : List Text) :
    stripped (s :: lines) = stripped (t :: lines) := by
  rw [stripped_cons, stripped_cons, h]

theorem stripped_nil_cons (lines : List Text) : stripped ([] :: lines) = stripped lines := by
  rfl

theorem stripped_lines_cons {c : CodePoint} (blank : c.isBlank = true) (t : Text) :
    stripped (lines (c :: t)) = stripped (lines t) := by
  rw [lines, splitOn]
  split
  · exact stripped_nil_cons _
  · obtain ⟨piece, pieces, eq⟩ := List.exists_cons_of_ne_nil (splitOn_ne_nil '\n' t)
    rw [lines, eq]
    exact stripped_cons_congr (trim_cons blank piece) pieces

theorem lines_append_cons (s t : Text) :
    lines (s ++ CodePoint.ofChar '\n' :: t) = lines s ++ lines t :=
  splitOn_append_cons '\n' s t

theorem lines_of_notMem {t : Text} (h : CodePoint.ofChar '\n' ∉ t) : lines t = [t] :=
  splitOn_of_notMem h

theorem stripped_lines_concat (t : Text) {c : CodePoint} (blank : c.isBlank = true) :
    stripped (lines (t ++ [c])) = stripped (lines t) := by
  -- only the last line is changed
  have single : ∀ last : Text, CodePoint.ofChar '\n' ∉ last →
      stripped (lines (last ++ [c])) = stripped [last] := by
    intro last alone
    by_cases line : c = '\n'
    · rw [line, lines_append_cons, stripped_append, lines_of_notMem alone]
      exact List.append_nil _
    · have alone' : CodePoint.ofChar '\n' ∉ last ++ [c] := by
        simp [alone, Ne.symm line]
      rw [lines_of_notMem alone']
      exact stripped_cons_congr (trim_concat last blank) []
  by_cases listed : CodePoint.ofChar '\n' ∈ t
  · obtain ⟨back, front, eq, alone⟩ := List.eq_append_cons_of_mem (List.mem_reverse.2 listed)
    have split : t = front.reverse ++ CodePoint.ofChar '\n' :: back.reverse := by
      rw [← t.reverse_reverse, eq]
      simp
    have alone' : CodePoint.ofChar '\n' ∉ back.reverse := by simpa using alone
    rw [split, List.append_assoc, List.cons_append, lines_append_cons, lines_append_cons,
      stripped_append, stripped_append, single _ alone', lines_of_notMem alone']
  · rw [single t listed, lines_of_notMem listed]

/-- Trimming a text takes blanks off its lines, and blank lines. -/
theorem stripped_lines_trim (t : Text) : stripped t.trim.lines = stripped t.lines := by
  have front : ∀ s : Text, stripped (lines (s.dropWhile CodePoint.isBlank)) = stripped s.lines := by
    intro s
    induction s with
    | nil => rfl
    | cons c s ih =>
        by_cases blank : c.isBlank = true
        · rw [List.dropWhile_cons_of_pos blank, ih, stripped_lines_cons blank]
        · rw [List.dropWhile_cons_of_neg blank]
  have back : ∀ s : Text, stripped (lines (s.rdropWhile CodePoint.isBlank)) = stripped s.lines := by
    intro s
    induction s using List.reverseRecOn with
    | nil => rfl
    | append_singleton s c ih =>
        by_cases blank : c.isBlank = true
        · rw [List.rdropWhile_concat_pos _ _ _ blank, ih, stripped_lines_concat s blank]
        · rw [List.rdropWhile_concat_neg _ _ _ blank]
  exact (back (t.dropWhile CodePoint.isBlank)).trans (front t)

theorem normalizeLines_crlf (s : Text) :
    normalizeLines (CodePoint.ofChar '\r' :: CodePoint.ofChar '\n' :: s) =
      CodePoint.ofChar '\n' :: normalizeLines s := by
  rw [normalizeLines.eq_def]
  rfl

/-- A return in front of a line feed counts for nothing, and elsewhere as a line feed. -/
theorem normalizeLines_return (s : Text) :
    (∃ t, s = CodePoint.ofChar '\n' :: t ∧
      normalizeLines (CodePoint.ofChar '\r' :: s) = normalizeLines s) ∨
    normalizeLines (CodePoint.ofChar '\r' :: s) = CodePoint.ofChar '\n' :: normalizeLines s := by
  cases s with
  | nil => exact .inr rfl
  | cons d s =>
      by_cases line : d = '\n'
      · subst line
        refine .inl ⟨s, rfl, ?_⟩
        rw [normalizeLines_crlf, normalizeLines_cons (by decide)]
      · right
        rw [normalizeLines.eq_def]
        exact if_neg line

theorem normalizeLines_append {t : Text} (h : CodePoint.ofChar '\r' ∉ t) (s : Text) :
    normalizeLines (t ++ s) = t ++ normalizeLines s := by
  induction t with
  | nil => rfl
  | cons c t ih =>
      rw [List.mem_cons, not_or] at h
      rw [List.cons_append, normalizeLines_cons (Ne.symm h.1), ih h.2, List.cons_append]

/-- The lines that are not blank, whatever the line ends. -/
def solidLines (t : Text) : List Text := stripped t.normalizeLines.lines

theorem solidLines_cons {c : CodePoint} (blank : c.isBlank = true) (t : Text) :
    solidLines (c :: t) = solidLines t := by
  by_cases carriage : c = '\r'
  · subst carriage
    obtain ⟨-, -, same⟩ | eq := normalizeLines_return t
    · rw [solidLines, same, solidLines]
    · rw [solidLines, eq, stripped_lines_cons (by decide), solidLines]
  · rw [solidLines, normalizeLines_cons carriage, stripped_lines_cons blank, solidLines]

theorem solidLines_append {blanks : Text} (blank : ∀ c ∈ blanks, c.isBlank = true) (t : Text) :
    solidLines (blanks ++ t) = solidLines t := by
  induction blanks with
  | nil => rfl
  | cons c blanks ih =>
      rw [List.forall_mem_cons] at blank
      rw [List.cons_append, solidLines_cons blank.1, ih blank.2]

/-- The ways to end a line. -/
inductive LineEnd where
  | lf
  | crlf
  | cr
deriving DecidableEq

def LineEnd.text : LineEnd → Text
  | .lf => ['\n']
  | .crlf => ['\r', '\n']
  | .cr => ['\r']

theorem LineEnd.isSpace (e : LineEnd) : ∀ c ∈ e.text, Json.isSpace c = true := by
  cases e <;> decide

theorem LineEnd.pauses (e : LineEnd) (t : Text) : Json.Pauses (e.text ++ t) := by
  cases e <;> rintro _ ⟨⟩ <;> decide

/-- A line end is one line feed in the end, perhaps together with that of an empty line. -/
theorem LineEnd.exists_normalizeLines_eq (e : LineEnd) (t : Text) :
    ∃ u, normalizeLines (e.text ++ t) = CodePoint.ofChar '\n' :: u ∧
      stripped (lines u) = solidLines t := by
  cases e with
  | lf => exact ⟨_, normalizeLines_cons (by decide) t, rfl⟩
  | crlf => exact ⟨_, normalizeLines_crlf t, rfl⟩
  | cr =>
      obtain ⟨u, rfl, same⟩ | eq := normalizeLines_return t
      · refine ⟨_, same.trans (normalizeLines_cons (by decide) u), ?_⟩
        rw [solidLines_cons (by decide), solidLines]
      · exact ⟨_, eq, rfl⟩

/-- A line of its own is kept, unless it is blank. -/
theorem solidLines_line {line : Text} (noLine : CodePoint.ofChar '\n' ∉ line)
    (noReturn : CodePoint.ofChar '\r' ∉ line) (e : LineEnd) (t : Text) :
    solidLines (line ++ (e.text ++ t)) = stripped [line] ++ solidLines t := by
  obtain ⟨u, eq, same⟩ := e.exists_normalizeLines_eq t
  rw [solidLines, normalizeLines_append noReturn, eq, lines_append_cons, stripped_append, same,
    lines_of_notMem noLine]

/-- The content consists of the texts in order, each on a line of its own, with any number of lines
of spaces and tabs before, between and behind them. The last line need not be ended. -/
inductive LaidOut : List Text → Text → Prop
  | finish {gap : Text} (blank : ∀ c ∈ gap, c = ' ' ∨ c = '\t') : LaidOut [] gap
  | last (t : Text) : LaidOut [t] t
  | gap {gap : Text} (blank : ∀ c ∈ gap, c = ' ' ∨ c = '\t') (e : LineEnd) {texts : List Text}
      {content : Text} (h : LaidOut texts content) : LaidOut texts (gap ++ (e.text ++ content))
  | line (t : Text) (e : LineEnd) {texts : List Text} {content : Text} (h : LaidOut texts content) :
      LaidOut (t :: texts) (t ++ (e.text ++ content))

/-- The text has no line end in it. -/
def IsLine (t : Text) : Prop := CodePoint.ofChar '\n' ∉ t ∧ CodePoint.ofChar '\r' ∉ t

instance (t : Text) : Decidable t.IsLine := inferInstanceAs (Decidable (_ ∧ _))

theorem isSpace_of_gap {gap : Text} (blank : ∀ c ∈ gap, c = ' ' ∨ c = '\t') :
    ∀ c ∈ gap, Json.isSpace c = true := by
  intro c hc
  rcases blank c hc with rfl | rfl <;> decide

namespace LaidOut

variable {texts : List Text} {content : Text}

theorem solidLines_eq (h : LaidOut texts content) (single : ∀ t ∈ texts, t.IsLine) :
    solidLines content = stripped texts := by
  have blank : ∀ {t : Text}, (∀ c ∈ t, Json.isSpace c = true) → ∀ c ∈ t, c.isBlank = true :=
    fun space c hc => Json.isBlank_of_isSpace (space c hc)
  induction h with
  | @finish gap spaces =>
      rw [← List.append_nil gap, solidLines_append (blank (isSpace_of_gap spaces))]
      rfl
  | last t =>
      obtain ⟨noLine, noReturn⟩ := single t List.mem_cons_self
      have same := normalizeLines_append noReturn []
      rw [List.append_nil, normalizeLines, List.append_nil] at same
      rw [solidLines, same, lines_of_notMem noLine]
  | gap spaces e h ih =>
      rw [solidLines_append (blank (isSpace_of_gap spaces)), solidLines_append (blank e.isSpace),
        ih single]
  | line t e h ih =>
      rw [List.forall_mem_cons] at single
      rw [solidLines_line single.1.1 single.1.2, ih single.2, ← stripped_append,
        List.singleton_append]

theorem isSpace_of_nil (h : LaidOut [] content) : ∀ c ∈ content, Json.isSpace c = true := by
  generalize none : ([] : List Text) = texts at h
  induction h with
  | finish spaces => exact isSpace_of_gap spaces
  | last t => cases none
  | gap spaces e h ih =>
      rw [List.forall_mem_append, List.forall_mem_append]
      exact ⟨isSpace_of_gap spaces, e.isSpace, ih none⟩
  | line t e h ih => cases none

theorem mem_content (h : LaidOut texts content) {t : Text} (listed : t ∈ texts) {c : CodePoint}
    (hc : c ∈ t) : c ∈ content := by
  induction h with
  | finish => cases listed
  | last => rwa [← List.mem_singleton.1 listed]
  | gap spaces e h ih => exact List.mem_append_right _ (List.mem_append_right _ (ih listed))
  | line t e h ih =>
      rcases List.mem_cons.1 listed with rfl | later
      · exact List.mem_append_left _ hc
      · exact List.mem_append_right _ (List.mem_append_right _ (ih later))

/-- In front of the first text stands white space, and behind it those that follow. -/
theorem exists_eq_append {t : Text} (h : LaidOut (t :: texts) content) :
    ∃ before behind rest, content = before ++ (t ++ behind) ∧
      (∀ c ∈ before, Json.isSpace c = true) ∧ Json.Pauses behind ∧ LaidOut texts rest ∧
      rest <:+ behind ∧ ∀ c ∈ behind, Json.isSpace c = true ∨ c ∈ rest := by
  generalize all : t :: texts = listed at h
  induction h with
  | finish => cases all
  | last =>
      cases all
      exact ⟨[], [], [], by simp, List.forall_mem_nil _, nofun, .finish (List.forall_mem_nil _),
        List.suffix_refl _, List.forall_mem_nil _⟩
  | @gap gap spaces e _ _ h ih =>
      obtain ⟨before, behind, rest, rfl, space, others⟩ := ih all
      refine ⟨gap ++ (e.text ++ before), behind, rest, ?_, ?_, others⟩
      · simp only [List.append_assoc]
      · rw [List.forall_mem_append, List.forall_mem_append]
        exact ⟨isSpace_of_gap spaces, e.isSpace, space⟩
  | @line t e _ rest h ih =>
      cases all
      refine ⟨[], e.text ++ rest, rest, rfl, List.forall_mem_nil _, e.pauses rest, h,
        List.suffix_append _ _, fun c hc => ?_⟩
      exact (List.mem_append.1 hc).imp_left (e.isSpace c)

end LaidOut

end Text

namespace Samples

open Text (LaidOut stripped)

theorem isEmpty_of_parse {t : Text} {v : Json} (h : Json.parse t = .ok v) : t.isEmpty = false := by
  cases t with
  | nil => cases h
  | cons c t => rfl

theorem harvest_of_parse {content : Text} {v : Json} (h : Json.parse content.trim = .ok v)
    (room : Option Nat) : harvest room content = ⟨[v], 0, none⟩ := by
  rw [harvest, isEmpty_of_parse h, if_neg Bool.false_ne_true, h]

theorem harvest_of_malformed {content : Text} {what : Json.Problem} {place : Json.Position}
    (h : Json.parse content.trim = .error (.malformed what place)) (room : Option Nat) :
    harvest room content = harvestLines room content.trim.lines := by
  rw [harvest]
  split
  · next empty =>
      rw [List.isEmpty_iff.1 empty]
      rfl
  · rw [h]

/-- Lines that are documents or blank are all read, and none is skipped. -/
theorem harvestLines_of_stripped {lines : List Text} {values : List Json}
    (h : List.Forall₂ (fun t v => Json.parse t = .ok v) (stripped lines) values) :
    harvestLines none lines = ⟨values, 0, none⟩ := by
  induction lines generalizing values with
  | nil =>
      cases h
      rfl
  | cons line lines ih =>
      rw [Text.stripped_cons] at h
      rw [harvestLines]
      split
      · next empty =>
          rw [if_pos empty] at h
          exact ih h
      · next solid =>
          rw [if_neg solid] at h
          cases h with
          | cons first others =>
              rw [first]
              simp only [reduceCtorEq, if_false, Option.map_none, ih others]

theorem forall₂_stripped {texts : List Text} {values : List Json}
    (h : List.Forall₂ (fun t v => Json.parse t = .ok v) texts values) :
    List.Forall₂ (fun t v => Json.parse t = .ok v) (stripped texts) values := by
  induction h with
  | nil => exact .nil
  | cons first others ih =>
      have trimmed := Json.parse_trim first
      rw [Text.stripped_cons, isEmpty_of_parse trimmed, if_neg Bool.false_ne_true]
      exact .cons trimmed ih

/-- Two documents in a row are not one document. -/
theorem exists_parse_eq_error {before behind t u : Text} {v w : Json}
    (blank : ∀ c ∈ before, Json.isSpace c = true) (pauses : Json.Pauses behind)
    (first : Json.parse t = .ok v) (second : Json.parse u = .ok w) (within : ∀ c ∈ u, c ∈ behind) :
    ∃ place, Json.parse (before ++ (t ++ behind)).normalizeLines.trim =
      .error (.malformed .extraData place) := by
  obtain ⟨rest, leads, -⟩ := Json.exists_leads_of_parse first
  obtain ⟨c, listed, solid⟩ := Json.exists_solid_of_parse second
  have whole := (leads.respace (Json.respaces_append pauses)).append_left blank
  have trimmed := (whole.respace Json.respaces_normalizeLines).trim
  have more := Json.respaces_rdropWhile.mem
    (Json.respaces_normalizeLines.mem (List.mem_append_right rest (within c listed)) solid) solid
  exact trimmed.exists_parse_eq_error more (Json.isSpace_of_solid solid)

theorem harvest_of_laidOut {texts : List Text} {content : Text} {values : List Json}
    (laid : LaidOut texts content)
    (each : List.Forall₂ (fun t v => Json.parse t = .ok v) texts values)
    (single : 2 ≤ texts.length → ∀ t ∈ texts, t.IsLine) :
    harvest none content.normalizeLines = ⟨values, 0, none⟩ := by
  cases each with
  | nil =>
      have space := Json.isSpace_of_mem_normalizeLines laid.isSpace_of_nil
      rw [harvest, Text.trim_eq_nil fun c hc => Json.isBlank_of_isSpace (space c hc)]
      rfl
  | cons first others =>
      have stripped := forall₂_stripped (.cons first others)
      obtain ⟨before, behind, rest, rfl, blankBefore, pauses, later, suffix, between⟩ :=
        laid.exists_eq_append
      cases others with
      | nil =>
          have blankBehind : ∀ c ∈ behind, Json.isSpace c = true :=
            fun c hc => (between c hc).elim id (later.isSpace_of_nil c)
          have whole := Json.parse_append blankBefore blankBehind first
          exact harvest_of_parse (Json.parse_trim (Json.parse_normalizeLines whole)) none
      | cons second others =>
          obtain ⟨place, malformed⟩ := exists_parse_eq_error blankBefore pauses first second
            fun c hc => suffix.mem (later.mem_content List.mem_cons_self hc)
          rw [harvest_of_malformed malformed]
          apply harvestLines_of_stripped
          rw [Text.stripped_lines_trim]
          have solid := laid.solidLines_eq (single (by simp))
          rw [Text.solidLines] at solid
          rw [solid]
          exact stripped

/-- The content of an input, as it is in the files or as it is given. -/
def Input.Holds (files : FileTree) : Input → Text → Prop
  | .file path, content => ∃ bytes, files.read path = .ok bytes ∧ Utf8.decode bytes = .ok content
  | .given _ text, content => text = content

theorem returns_read_iff {input : Input} {world world' : World} {text : Text} :
    Returns input.read world text world' ↔
      ∃ content, input.Holds world.files content ∧ content.normalizeLines = text ∧
        world = world' := by
  cases input with
  | given name content =>
      rw [Input.read, returns_pure_iff]
      constructor
      · exact fun same => ⟨content, rfl, same⟩
      · rintro ⟨_, rfl, same⟩
        exact same
  | file path =>
      rw [Input.read, Returns, Run.readText, run_get_bind]
      cases read : world.files.read path with
      | error failure =>
          constructor
          · intro h
            cases congrArg Prod.fst h
          · rintro ⟨content, ⟨bytes, found, -⟩, -⟩
            cases read.symm.trans found
      | ok bytes =>
          dsimp only
          cases decoded : Utf8.decode bytes with
          | error e =>
              constructor
              · intro h
                cases congrArg Prod.fst h
              · rintro ⟨content, ⟨bytes, found, valid⟩, -⟩
                cases read.symm.trans found
                cases decoded.symm.trans valid
          | ok content =>
              change Returns (pure content.normalizeLines : Run Text) world text world' ↔ _
              rw [returns_pure_iff]
              constructor
              · exact fun same => ⟨content, ⟨bytes, read, decoded⟩, same⟩
              · rintro ⟨_, ⟨_, found, valid⟩, same⟩
                cases read.symm.trans found
                cases decoded.symm.trans valid
                exact same

theorem returns_logAll_iff {entries : List LogEntry} {world world' : World} :
    Returns (Run.ofLogged (Logged.logAll entries)) world () world' ↔
      { world with log := world.log ++ entries } = world' := by
  change ((Except.ok () : Except Error Unit), { world with log := world.log ++ entries }) =
    (.ok (), world') ↔ _
  rw [Prod.mk.injEq]
  exact and_iff_right rfl

/-- The world after the warnings about the malformed lines of an input. -/
def warned (world : World) (input : Input) (h : Harvest) : World :=
  { world with log := world.log ++ List.replicate h.skipped (skippedLine input) }

theorem returns_loadFrom_cons_iff {limit : Int} {count : Nat} (room : roomLeft limit count ≠ some 0)
    {input : Input} {inputs : List Input} {world world' : World} {values : List Json} :
    Returns (loadFrom limit count (input :: inputs)) world values world' ↔
      ∃ content h later, input.Holds world.files content ∧
        harvest (roomLeft limit count) content.normalizeLines = h ∧ h.failure = none ∧
        Returns (loadFrom limit (count + h.values.length) inputs) (warned world input h) later
          world' ∧
        h.values ++ later = values := by
  rw [loadFrom, if_neg room]
  simp only [returns_bind_iff]
  constructor
  · rintro ⟨text, _, read, _, _, logged, rest⟩
    obtain ⟨content, holds, rfl, rfl⟩ := returns_read_iff.1 read
    rw [← returns_logAll_iff.1 logged] at rest
    split at rest
    · exact absurd rest not_returns_throw
    · next done =>
        obtain ⟨later, _, loaded, all⟩ := returns_bind_iff.1 rest
        obtain ⟨rfl, rfl⟩ := returns_pure_iff.1 all
        exact ⟨content, _, later, holds, rfl, done, loaded, rfl⟩
  · rintro ⟨content, _, later, holds, rfl, done, loaded, rfl⟩
    refine ⟨_, world, returns_read_iff.2 ⟨content, holds, rfl, rfl⟩, (), _,
      returns_logAll_iff.2 rfl, ?_⟩
    rw [done]
    exact returns_bind_iff.2 ⟨later, world', loaded, returns_pure_iff.2 ⟨rfl, rfl⟩⟩

theorem returns_loadFrom_full {limit : Int} {count : Nat} (full : roomLeft limit count = some 0)
    (inputs : List Input) (world : World) :
    Returns (loadFrom limit count inputs) world [] world := by
  cases inputs with
  | nil => exact returns_pure_iff.2 ⟨rfl, rfl⟩
  | cons input inputs =>
      rw [loadFrom, if_pos full]
      exact returns_pure_iff.2 ⟨rfl, rfl⟩

/-- Texts on lines of their own are loaded as the values that they spell, without a warning. A text
that stands alone may have line ends in it. -/
theorem returns_load_of_laidOut {input : Input} {world : World} {content : Text}
    (holds : input.Holds world.files content) {texts : List Text} (laid : LaidOut texts content)
    {values : List Json} (each : List.Forall₂ (fun t v => Json.parse t = .ok v) texts values)
    (single : 2 ≤ texts.length → ∀ t ∈ texts, t.IsLine) :
    Returns (load 0 [input]) world values world := by
  have harvested := harvest_of_laidOut laid each single
  have unlogged : warned world input ⟨values, 0, none⟩ = world := by
    rw [warned, List.replicate_zero, List.append_nil]
  refine (returns_loadFrom_cons_iff (by decide)).2 ⟨content, _, [], holds, harvested, rfl, ?_,
    List.append_nil values⟩
  rw [unlogged]
  exact returns_pure_iff.2 ⟨rfl, rfl⟩

/-- A world with nothing in it but files in the working directory. -/
def worldOf (files : List (Text × Text)) : World :=
  ⟨⟨files.map fun f => (Place.top.child f.1, .file (f.2.flatMap Utf8.encodePoint))⟩, []⟩

/-- Three texts, with all kinds of line ends and blank lines around them. -/
def mixedLines : Text := "\r\n1\r \t\n null \r\n\r\r\"a b\""

theorem returns_load_mixedLines :
    Returns (load 0 [.file "samples"]) (worldOf [("samples", mixedLines)])
      [.int 1, .null, .str "a b"] (worldOf [("samples", mixedLines)]) := by
  have empty : ∀ c ∈ ([] : Text), c = ' ' ∨ c = '\t' := List.forall_mem_nil _
  have blank : ∀ c ∈ Text.ofString " \t", c = ' ' ∨ c = '\t' := by decide
  have laid : LaidOut [Text.ofString "1", " null ", "\"a b\""] mixedLines :=
    .gap empty .crlf (.line _ .cr (.gap blank .lf (.line _ .crlf (.gap empty .cr (.gap empty .cr
      (.last _))))))
  have holds : Input.Holds (worldOf [("samples", mixedLines)]).files (.file "samples") mixedLines :=
    ⟨mixedLines.flatMap Utf8.encodePoint, by decide +kernel, by decide +kernel⟩
  exact returns_load_of_laidOut holds laid
    (.cons (by decide +kernel) (.cons (by decide +kernel) (.cons (by decide +kernel) .nil)))
    fun _ => by decide

/-- Room for some values leaves the first of them. -/
theorem harvestLines_some {room : Nat} (positive : 0 < room) {lines : List Text}
    (h : (harvestLines none lines).failure = none) :
    (harvestLines (some room) lines).failure = none ∧
      (harvestLines (some room) lines).values = (harvestLines none lines).values.take room := by
  induction lines generalizing room with
  | nil => exact ⟨rfl, List.take_nil.symm⟩
  | cons line lines ih =>
      rw [harvestLines] at h
      rw [harvestLines, harvestLines]
      split at h
      · next blank =>
          rw [if_pos blank, if_pos blank]
          exact ih positive h
      · next solid =>
          rw [if_neg solid, if_neg solid]
          split at h
          · next value read =>
              simp only [reduceCtorEq, if_false, Option.map_none, Option.map_some] at h ⊢
              split
              · next last =>
                  cases last
                  exact ⟨rfl, rfl⟩
              · next more =>
                  have several : room ≠ 1 := fun same => more (congrArg some same)
                  obtain ⟨done, values⟩ := ih (show 0 < room - 1 by omega) h
                  refine ⟨done, ?_⟩
                  rw [values, ← List.take_succ_cons, Nat.sub_add_cancel positive]
          · next malformed =>
              exact ih positive h
          · cases h

theorem harvest_some {room : Nat} (positive : 0 < room) {content : Text}
    (h : (harvest none content).failure = none) :
    (harvest (some room) content).failure = none ∧
      (harvest (some room) content).values = (harvest none content).values.take room := by
  unfold harvest at h ⊢
  split at h
  · next blank =>
      rw [if_pos blank, if_pos blank]
      exact ⟨rfl, List.take_nil.symm⟩
  · next solid =>
      rw [if_neg solid, if_neg solid]
      split at h
      · exact ⟨rfl, (List.take_of_length_le positive).symm⟩
      · exact harvestLines_some positive h
      · cases h

theorem roomLeft_zero_ne (count : Nat) : roomLeft 0 count ≠ some 0 := nofun

theorem roomLeft_eq {n : Nat} (positive : 0 < n) (count : Nat) :
    roomLeft n count = some (n - count) := by
  rw [roomLeft, if_pos (by omega), Int.toNat_natCast]

/-- The two runs read the same files. They differ in what they log, since malformed lines that stand
behind the last value are not reached. -/
theorem returns_loadFrom_take {n : Nat} (positive : 0 < n) {count found : Nat} (within : count ≤ n)
    {inputs : List Input} {world world' other : World} {values : List Json}
    (files : other.files = world.files)
    (h : Returns (loadFrom 0 found inputs) world values world') :
    ∃ other', Returns (loadFrom n count inputs) other (values.take (n - count)) other' := by
  induction inputs generalizing count found world other values with
  | nil =>
      obtain ⟨rfl, -⟩ := returns_pure_iff.1 h
      exact ⟨other, returns_pure_iff.2 ⟨List.take_nil.symm, rfl⟩⟩
  | cons input inputs ih =>
      obtain ⟨content, all, later, holds, harvested, done, loaded, rfl⟩ :=
        (returns_loadFrom_cons_iff (roomLeft_zero_ne found)).1 h
      have room := roomLeft_eq positive count
      rcases Nat.eq_or_lt_of_le within with rfl | more
      · rw [Nat.sub_self] at room ⊢
        exact ⟨other, returns_loadFrom_full room (input :: inputs) other⟩
      · obtain ⟨done', taken⟩ := harvest_some (Nat.sub_pos_of_lt more)
          (show (harvest none content.normalizeLines).failure = none from harvested ▸ done)
        rw [show harvest none content.normalizeLines = all from harvested] at taken
        generalize limited : harvest (some (n - count)) content.normalizeLines = first
          at done' taken
        have length : first.values.length = min (n - count) all.values.length := by
          rw [taken, List.length_take]
        have same : (warned other input first).files = (warned world input all).files := files
        obtain ⟨other', returns⟩ := ih (show count + first.values.length ≤ n by omega) same loaded
        refine ⟨other', (returns_loadFrom_cons_iff ?_).2 ⟨content, first, _, files ▸ holds,
          (congrArg (harvest · content.normalizeLines) room).trans limited, done', returns, ?_⟩⟩
        · rw [room, ne_eq, Option.some.injEq]
          omega
        · have left : n - (count + first.values.length) = n - count - all.values.length := by omega
          rw [left, taken, List.take_append]

/-- A positive limit takes the first of the values that are loaded without a limit. -/
theorem returns_load_take {inputs : List Input} {world world' : World} {values : List Json}
    (h : Returns (load 0 inputs) world values world') {n : Int} (positive : 0 < n) :
    ∃ world'', Returns (load n inputs) world (values.take n.toNat) world'' := by
  obtain ⟨n, rfl⟩ := Int.eq_ofNat_of_zero_le positive.le
  rw [Int.toNat_natCast]
  exact returns_loadFrom_take (Int.natCast_pos.1 positive) (Nat.zero_le n) rfl h

/-- A document on two lines, lines of which some are blank or malformed, and an empty file. -/
def mixedFiles : World :=
  worldOf [("whole", "[1,\n2]"), ("lines", "3\n\n]\n4\n5 6\n7"), ("empty", " \n"), ("last", "8")]

theorem returns_load_mixedFiles :
    ∃ world, Returns (load 3 [.file "whole", .file "empty", .file "lines", .file "last"]) mixedFiles
      [.arr [.int 1, .int 2], .int 3, .int 4] world := by
  have all := returns_of_toOption_eq_some
    (x := load 0 [.file "whole", .file "empty", .file "lines", .file "last"]) (s := mixedFiles)
    (a := [.arr [.int 1, .int 2], .int 3, .int 4, .int 7, .int 8]) (by decide +kernel)
  exact returns_load_take all (by decide)

end Samples

end JsonShapes
