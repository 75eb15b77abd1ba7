import JsonShapes.Proofs.Loading
import JsonShapes.Proofs.OutputLayout
import JsonShapes.Proofs.Totality
import Mathlib.Data.List.Forall2

/-!
# Field tables

A field table has a line for every property, and bars end the cells of a line unless a backslash
escapes them. Types are put into their cells with all bars escaped, and a literal never ends in a
half escape, so they neither end their cells nor break their lines, whatever keys and literals they
hold. Keys are put into theirs as they are. So the table is well-formed exactly if every key is
fit for a cell: it holds no line end and no bar that would end the cell.
-/

namespace JsonShapes

namespace Markdown

/-- The number of bars that no backslash escapes, where the flag says whether an odd number of
backslashes stands in front. -/
def openBarsAfter : Bool → Text → Nat
  | _, [] => 0
  | odd, c :: rest =>
    if c = '\\' then openBarsAfter (!odd) rest
    else if c = '|' ∧ odd = false then openBarsAfter false rest + 1
    else openBarsAfter false rest

/-- The number of bars in front of which an even number of backslashes stands. -/
def openBars (t : Text) : Nat := openBarsAfter false t

theorem openBarsAfter_cons {c : CodePoint} (bar : c ≠ '|') (backslash : c ≠ '\\') (odd : Bool)
    (t : Text) : openBarsAfter odd (c :: t) = openBarsAfter false t := by
  rw [openBarsAfter, if_neg backslash, if_neg fun h => bar h.1]

/-- Behind anything but bars and backslashes counting starts anew. -/
theorem openBars_append_cons {c : CodePoint} (bar : c ≠ '|') (backslash : c ≠ '\\') (s t : Text) :
    openBars (s ++ c :: t) = openBars s + openBars t := by
  have general (odd : Bool) :
      openBarsAfter odd (s ++ c :: t) = openBarsAfter odd s + openBarsAfter false t := by
    induction s generalizing odd with
    | nil => rw [List.nil_append, openBarsAfter_cons bar backslash, openBarsAfter, Nat.zero_add]
    | cons d s ih =>
        rw [List.cons_append, openBarsAfter, openBarsAfter]
        split
        · exact ih _
        split
        · rw [ih, Nat.add_right_comm]
        · exact ih _
  exact general false

/-- Wherever the text is put in front, it adds no bar that ends a cell, and escapes nothing. -/
def Inert (t : Text) : Prop := ∀ u, openBars (t ++ u) = openBars u

theorem inert_nil : Inert [] := fun _ => rfl

theorem Inert.append {s t : Text} (hs : Inert s) (ht : Inert t) : Inert (s ++ t) := by
  intro u
  rw [List.append_assoc, hs, ht]

theorem Inert.flatMap {f : CodePoint → Text} {t : Text} (h : ∀ c ∈ t, Inert (f c)) :
    Inert (t.flatMap f) := by
  induction t with
  | nil => exact inert_nil
  | cons c t ih =>
      rw [List.forall_mem_cons] at h
      exact h.1.append (ih h.2)

theorem Inert.openBars_eq {t : Text} (h : Inert t) : openBars t = 0 := by
  have alone := h []
  rwa [List.append_nil] at alone

theorem inert_singleton {c : CodePoint} (bar : c ≠ '|') (backslash : c ≠ '\\') : Inert [c] :=
  openBarsAfter_cons bar backslash false

theorem inert_escaped {c : CodePoint} (bar : c ≠ '|') : Inert ['\\', c] := by
  intro u
  change openBarsAfter true (c :: u) = _
  by_cases backslash : c = '\\'
  · rw [backslash]
    rfl
  · exact openBarsAfter_cons bar backslash true u

theorem inert_hex (n : Nat) : Inert (Text.hex 4 n) := by
  have digits := Inert.flatMap (t := Text.hex 4 n) (f := fun c => [c]) fun c digit => by
    have range := Text.val_of_mem_hex digit
    refine inert_singleton ?_ ?_
    · rintro rfl
      exact absurd range.2.1 (by decide)
    · rintro rfl
      exact range.2.2 rfl
  rwa [List.flatMap_singleton'] at digits

/-- A text without backslashes is inert once its bars are escaped. -/
theorem inert_escapeBars {t : Text} (h : ∀ c ∈ t, c ≠ CodePoint.ofChar '\\') :
    Inert (escapeBars t) := by
  refine .flatMap fun c member => ?_
  split
  · exact fun u => rfl
  · next bar => exact inert_singleton bar (h c member)

theorem closed_inert : Text.Closed fun t => Inert (escapeBars t) where
  plain h := inert_escapeBars fun c member same => (h c member).2.2.2 (congrArg CodePoint.val same)
  append hs ht := by
    rw [escapeBars, List.flatMap_append]
    exact hs.append ht

theorem inert_unicodeEscape (n : Nat) : Inert (escapeBars (Quoted.unicodeEscape n)) := by
  have digits : Inert (escapeBars (Text.hex 4 n)) := by
    refine inert_escapeBars fun c digit => ?_
    rintro rfl
    exact (Text.val_of_mem_hex digit).2.2 rfl
  exact closed_inert.append (s := ['\\', 'u']) (inert_escaped (by decide)) digits

/-- However a code point is spelled in a literal, the spelling leaves no escape open. -/
theorem inert_of_escaped {c : CodePoint} {text : Text} (h : Quoted.Escaped c text) :
    Inert (escapeBars text) := by
  cases h with
  | itself printable quote backslash =>
      refine inert_escapeBars (List.forall_mem_singleton.2 fun same => ?_)
      exact backslash (congrArg CodePoint.val same)
  | @short e notNumber short =>
      have bar : e ≠ '|' := by
        rintro rfl
        exact absurd (Json.val_of_shortEscape? short).2 (by decide)
      have kept : escapeBars ['\\', e] = [CodePoint.ofChar '\\', e] := by simp [escapeBars, bar]
      rw [kept]
      exact inert_escaped bar
  | number bound => exact inert_unicodeEscape _
  | pair bound => exact closed_inert.append (inert_unicodeEscape _) (inert_unicodeEscape _)

theorem inert_quote (t : Text) : Inert (escapeBars t.quote) := by
  have quote : Inert (escapeBars ['"']) := inert_escapeBars (by decide)
  have inside := closed_inert.flatMap fun c (_ : c ∈ t) =>
    inert_of_escaped (Quoted.isSpelling_spellPlain.escaped c)
  rw [Quoted.quote_eq]
  exact closed_inert.append (s := ['"']) quote (closed_inert.append inside quote)

/-- Types never end their cells. -/
theorem openBars_type (s : Shape) :
    openBars (escapeBars (Emit.write Emit.typescript { minify := true } 0 s)) = 0 := by
  have keeps := Emit.Options.keeps_of_minify (o := { minify := true }) closed_inert rfl
  exact (Emit.closed_write closed_inert keeps inert_quote .typescript 0 s).openBars_eq

/-- Escaped surrogates are neither bars nor in front of any. -/
theorem openBars_escapeSurrogates (t : Text) : openBars t.escapeSurrogates = openBars t := by
  have general (odd : Bool) : openBarsAfter odd t.escapeSurrogates = openBarsAfter odd t := by
    induction t generalizing odd with
    | nil => rfl
    | cons c t ih =>
        rw [Text.escapeSurrogates, List.flatMap_cons]
        split
        · next surrogate =>
            have other {d : CodePoint} (h : d.isSurrogate = false) : c ≠ d := by
              rintro rfl
              exact absurd surrogate (by rw [h]; decide)
            rw [openBarsAfter_cons (other (by decide)) (other (by decide)), ← ih false]
            exact inert_hex c.val (Text.escapeSurrogates t)
        · change openBarsAfter odd (c :: Text.escapeSurrogates t) = _
          simp only [openBarsAfter, ih]
  exact general false

/-- The text holds no line end. -/
abbrev OneLine (t : Text) : Prop := t.Avoids ['\n', '\r']

theorem closed_oneLine : Text.Closed OneLine := Text.closed_avoids (by decide)

theorem oneLine_escapeSurrogates_iff {t : Text} : OneLine t.escapeSurrogates ↔ OneLine t :=
  Text.avoids_escapeSurrogates_iff (by decide)

theorem oneLine_escapeBars {t : Text} (h : OneLine t) : OneLine (escapeBars t) := by
  refine closed_oneLine.flatMap fun c member => ?_
  split
  · decide
  · exact List.forall_mem_singleton.2 (h c member)

theorem return_notMem_normalizeLines (t : Text) :
    CodePoint.ofChar '\r' ∉ t.normalizeLines := by
  have behind {s : Text} (h : CodePoint.ofChar '\r' ∉ s) :
      CodePoint.ofChar '\r' ∉ CodePoint.ofChar '\n' :: s :=
    List.not_mem_cons_of_ne_of_not_mem (by decide) h
  fun_induction Text.normalizeLines t with
  | case1 => exact List.not_mem_nil
  | case2 => exact behind List.not_mem_nil
  | case3 rest ih => exact behind ih
  | case4 d rest other ih => exact behind ih
  | case5 c rest other ih => exact List.not_mem_cons_of_ne_of_not_mem (Ne.symm other) ih

theorem oneLine_of_mem_lines {t line : Text} (h : line ∈ t.normalizeLines.lines) :
    OneLine line := by
  intro c member listed
  have inside : c ∈ t.normalizeLines.lines.flatten := List.mem_flatten.2 ⟨line, h, member⟩
  rw [Text.lines, Text.flatten_splitOn, List.mem_filter] at inside
  rcases List.mem_pair.1 listed with rfl | rfl
  · exact of_decide_eq_true inside.2 rfl
  · exact return_notMem_normalizeLines t inside.1

/-- The lines up to the first empty one, whatever the line ends. -/
def bodyLines (t : Text) : List Text := t.normalizeLines.lines.takeWhile fun line => !line.isEmpty

theorem bodyLines_feed (t : Text) : bodyLines (CodePoint.ofChar '\n' :: t) = [] := by
  rw [bodyLines, Text.normalizeLines_cons (by decide)]
  rfl

theorem bodyLines_cons {line : Text} (oneLine : OneLine line) (nonempty : line ≠ []) (t : Text) :
    bodyLines (line ++ CodePoint.ofChar '\n' :: t) = line :: bodyLines t := by
  have noReturn : CodePoint.ofChar '\r' ∉ line := fun h => oneLine _ h (by decide)
  have noFeed : CodePoint.ofChar '\n' ∉ line := fun h => oneLine _ h (by decide)
  rw [bodyLines, Text.normalizeLines_append noReturn, Text.normalizeLines_cons (by decide),
    Text.lines_append_cons, Text.lines_of_notMem noFeed, List.singleton_append,
    List.takeWhile_cons_of_pos (by simpa using nonempty), bodyLines]

theorem bodyLines_rows {table : List FieldRow} (h : ∀ row ∈ table, OneLine (rowText row))
    (t : Text) :
    bodyLines (table.flatMap rowLine ++ CodePoint.ofChar '\n' :: t) = table.map rowText := by
  induction table with
  | nil => exact bodyLines_feed t
  | cons row table ih =>
      rw [List.forall_mem_cons] at h
      rw [List.flatMap_cons, rowLine, List.append_assoc, List.append_assoc,
        List.singleton_append, bodyLines_cons h.1 (List.cons_ne_nil _ _), ih h.2, List.map_cons]

variable {f : Text × Shape}

theorem oneLine_rowText (h : OneLine f.1) : OneLine (rowText (fieldRow f)) := by
  have type : OneLine (escapeBars (fieldRow f).type) :=
    oneLine_escapeBars (Text.avoids_of_printable (by decide)
      (Emit.printable_write rfl .typescript f.2.unwrap))
  have required : OneLine (if (fieldRow f).required then Text.ofString "yes" else "no") := by
    split
    · decide
    · decide
  have front : OneLine ("| `" ++ f.1.escapeSurrogates ++ "` |") :=
    closed_oneLine.append (closed_oneLine.append (by decide) (oneLine_escapeSurrogates_iff.2 h))
      (by decide)
  have middle := closed_oneLine.append (closed_oneLine.append (s := " `") (by decide) type)
    (t := "` | ") (by decide)
  exact closed_oneLine.append front
    (closed_oneLine.append (closed_oneLine.append middle required) (t := " |") (by decide))

/-- A line has the four bars between and around its cells, and those of the key. -/
theorem openBars_rowText (f : Text × Shape) :
    openBars (rowText (fieldRow f)) = openBars f.1 + 4 := by
  let last : Text :=
    " | " ++ ((if (fieldRow f).required then Text.ofString "yes" else "no") ++ " |")
  let middle : Text := " | `" ++ (escapeBars (fieldRow f).type ++ CodePoint.ofChar '`' :: last)
  have tick : CodePoint.ofChar '`' ≠ '|' ∧ CodePoint.ofChar '`' ≠ '\\' := by decide
  have parts : rowText (fieldRow f) =
      "| `" ++ (f.1.escapeSurrogates ++ CodePoint.ofChar '`' :: middle) := by
    simp only [rowText, List.append_assoc]
    rfl
  have ending : openBars last = 2 := by
    unfold last
    split
    · rfl
    · rfl
  have inside : openBars middle = 3 := by
    calc openBars middle
        = openBars (escapeBars (fieldRow f).type ++ CodePoint.ofChar '`' :: last) + 1 := rfl
      _ = 3 := by rw [openBars_append_cons tick.1 tick.2, ending, fieldRow, openBars_type]
  calc openBars (rowText (fieldRow f))
      = openBars (f.1.escapeSurrogates ++ CodePoint.ofChar '`' :: middle) + 1 := by
        rw [parts]
        rfl
    _ = openBars f.1 + 4 := by
        rw [openBars_append_cons tick.1 tick.2, openBars_escapeSurrogates, inside]

/-- A key that can stand in a cell as it is. -/
def FitsCell (key : Text) : Prop := OneLine key ∧ openBars key = 0

instance : DecidablePred FitsCell := fun key =>
  inferInstanceAs (Decidable (OneLine key ∧ openBars key = 0))

/-- The first cell of the line of a key. -/
def nameCell (key : Text) : Text := "| `" ++ key.escapeSurrogates ++ "` |"

/-- The line is that of the key, and has three cells. -/
def IsRow (key line : Text) : Prop := nameCell key <+: line ∧ openBars line = 4

/-- There is one line for each property, in the same order. -/
def WellFormed (fields : List (Text × Shape)) (lines : List Text) : Prop :=
  List.Forall₂ (fun f line => IsRow f.1 line) fields lines

theorem isRow_rowText_iff : IsRow f.1 (rowText (fieldRow f)) ↔ openBars f.1 = 0 := by
  have first : nameCell f.1 <+: rowText (fieldRow f) := List.prefix_append _ _
  rw [IsRow, and_iff_right first, openBars_rowText]
  omega

theorem WellFormed.oneLine {fields : List (Text × Shape)} {lines : List Text}
    (h : WellFormed fields lines) (each : ∀ line ∈ lines, OneLine line) :
    ∀ f ∈ fields, OneLine f.1 := by
  induction h with
  | nil => exact List.forall_mem_nil _
  | cons row others ih =>
      rw [List.forall_mem_cons] at each
      refine List.forall_mem_cons.2 ⟨oneLine_escapeSurrogates_iff.1 fun c member => ?_, ih each.2⟩
      exact each.1 c (row.1.subset (by simp [nameCell, member]))

/-- A table is well-formed if and only if all keys can stand in cells. -/
theorem wellFormed_iff {fields : List (Text × Shape)} (rest : Text) :
    WellFormed fields (bodyLines ((fields.map fieldRow).flatMap rowLine ++
      CodePoint.ofChar '\n' :: rest)) ↔ ∀ f ∈ fields, FitsCell f.1 := by
  have rows (h : ∀ f ∈ fields, OneLine f.1) : WellFormed fields
      (bodyLines ((fields.map fieldRow).flatMap rowLine ++ CodePoint.ofChar '\n' :: rest)) ↔
        ∀ f ∈ fields, openBars f.1 = 0 := by
    rw [bodyLines_rows (List.forall_mem_map.2 fun f hf => oneLine_rowText (h f hf)), List.map_map,
      WellFormed, List.forall₂_map_right_iff, List.forall₂_same]
    exact forall₂_congr fun f _ => isRow_rowText_iff
  constructor
  · intro h f hf
    have oneLine := h.oneLine fun line listed =>
      oneLine_of_mem_lines ((List.takeWhile_prefix _).subset listed)
    exact ⟨oneLine f hf, (rows oneLine).1 h f hf⟩
  · intro h
    exact (rows fun f hf => (h f hf).1).2 fun f hf => (h f hf).2

theorem page_eq_ok (title indent : Text) {endpoints : List Endpoint}
    (native : ∀ e ∈ endpoints, e.shape.foreign? = none) :
    page title indent endpoints =
      .ok ("# " ++ title ++ "\n\n" ++ endpoints.flatMap (entry indent)) := by
  rw [page, sections_eq_ok indent fun e listed => Shape.within_univ (native e listed)]
  rfl

/-- Of endpoints without foreign leaves a page can be written. On it the table of every record with
fields stands behind the heading of its endpoint, and its lines up to the first empty one are one
for each property, in order, with three cells each, if and only if all keys can stand in cells as
they are. -/
theorem table_wellFormed_iff_fitsCell (title indent : Text) {endpoints : List Endpoint}
    (native : ∀ e ∈ endpoints, e.shape.foreign? = none) :
    ∃ text, page title indent endpoints = .ok text ∧
      ∀ before e after fields, endpoints = before ++ e :: after → e.shape = .object fields →
        fields ≠ [] → ∃ lead body, page title indent before = .ok lead ∧
          text = lead ++ heading e ++ tableHead ++ body ∧
          (WellFormed fields (bodyLines body) ↔ ∀ f ∈ fields, FitsCell f.1) := by
  refine ⟨_, page_eq_ok title indent native, ?_⟩
  rintro before e after fields rfl record nonempty
  have above := page_eq_ok title indent fun e listed => native e (List.mem_append_left _ listed)
  have rows : table ((e.shape.fields?.getD []).map fieldRow) =
      tableHead ++ ((fields.map fieldRow).flatMap rowLine ++ [CodePoint.ofChar '\n']) := by
    rw [record]
    exact if_neg (by simpa [Shape.fields?] using nonempty)
  let block := codeBlock e.typeName (Emit.write Emit.typescript { indent := indent } 0 e.shape)
  refine ⟨_, _, above, ?_, wellFormed_iff (block ++ after.flatMap (entry indent))⟩
  rw [List.flatMap_append, List.flatMap_cons, entry, rows]
  simp only [block, List.append_assoc, List.cons_append, List.nil_append]

/-- A key whose bar is escaped, and literals that hold bars behind backslashes. -/
def escapedBars : List (Text × Shape) :=
  [("a\\|b", .optional (.union none [.literal "\\|" "string", .literal "|\n" "string"])),
    ("\\", .array (.object [("c|d", .string)]))]

theorem wellFormed_escapedBars :
    ∃ lead body, page defaultTitle "  " [⟨"get", "/a", "A", .object escapedBars⟩] =
      .ok (lead ++ tableHead ++ body) ∧ WellFormed escapedBars (bodyLines body) := by
  have native : ∀ e ∈ [(⟨"get", "/a", "A", .object escapedBars⟩ : Endpoint)],
      e.shape.foreign? = none := by decide
  obtain ⟨text, written, tables⟩ := table_wellFormed_iff_fitsCell defaultTitle "  " native
  obtain ⟨lead, body, -, rfl, wellFormed⟩ :=
    tables [] _ [] escapedBars rfl rfl (List.cons_ne_nil _ _)
  exact ⟨_, body, written, wellFormed.2 (by decide)⟩

/-- A bar in a key ends a cell: the line has a cell too many. -/
theorem not_wellFormed_bar :
    let e : Endpoint := ⟨"get", "/a", "A", .object [("a|b", .string)]⟩
    let line : Text := "| `a|b` | `string` | yes |"
    let body : Text := line ++
      "\n\n```ts\nexport type A = \x7b\n  \"a|b\": string\n\x7d;\n```\n\n"
    page defaultTitle "  " [e] =
        .ok ("# API Documentation\n\n" ++ heading e ++ tableHead ++ body) ∧
      bodyLines body = [line] ∧ openBars line = 5 ∧
      ¬WellFormed [("a|b", .string)] (bodyLines body) := by
  intro e line body
  have lines : bodyLines body = [line] := by decide +kernel
  have bars : openBars line = 5 := rfl
  refine ⟨?_, lines, bars, ?_⟩
  · rw [page_eq_ok _ _ (by decide)]
    exact congrArg Except.ok (by decide +kernel)
  · rw [lines]
    intro h
    cases h with
    | cons row _ => exact absurd (bars.symm.trans row.2) (by decide)

end Markdown

end JsonShapes
