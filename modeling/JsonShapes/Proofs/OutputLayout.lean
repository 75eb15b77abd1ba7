import JsonShapes.Proofs.Encodability
import JsonShapes.Proofs.TypeScriptReading
import JsonShapes.Proofs.ZodReading

/-!
# Layout of emitted text

White space outside string literals is layout. What remains when it is deleted is what the scanner
keeps: its tokens and the one that is pending, put one after another. Minified and indented output
have the same tokens, hence they differ by layout only. Control characters are escaped in every
literal, so the only ones of an output are those of its layout, and minified output has none.

Where the indentation was left open, what can be written at all is the same for every indentation.
-/

namespace JsonShapes

namespace Quoted

theorem printable_unicodeEscape (n : Nat) : ∀ c ∈ unicodeEscape n, 0x20 ≤ c.val := by
  rw [unicodeEscape, List.forall_mem_cons, List.forall_mem_cons]
  refine ⟨by decide, by decide, fun c hc => ?_⟩
  have digit := (Text.val_of_mem_hex hc).1
  omega

/-- Control characters are never written as themselves. -/
theorem Escaped.printable {c : CodePoint} {text : Text} (h : Escaped c text) :
    ∀ d ∈ text, 0x20 ≤ d.val := by
  cases h with
  | itself printable quote backslash => exact List.forall_mem_singleton.2 printable
  | short notNumber short =>
      have letter := (Json.val_of_shortEscape? short).1
      rw [List.forall_mem_cons, List.forall_mem_singleton]
      exact ⟨by decide, by omega⟩
  | number bound => exact printable_unicodeEscape _
  | pair bound =>
      exact List.forall_mem_append.2 ⟨printable_unicodeEscape _, printable_unicodeEscape _⟩

theorem printable_literal {spell : CodePoint → Text} (h : ∀ c, Escaped c (spell c)) (t : Text) :
    ∀ c ∈ CodePoint.ofChar '"' :: (t.flatMap spell ++ [CodePoint.ofChar '"']), 0x20 ≤ c.val := by
  have quote : 0x20 ≤ (CodePoint.ofChar '"').val := by decide
  rw [List.forall_mem_cons, List.forall_mem_append, List.forall_mem_singleton]
  refine ⟨quote, fun c hc => ?_, quote⟩
  obtain ⟨d, -, spelled⟩ := List.mem_flatMap.1 hc
  exact (h d).printable c spelled

theorem printable_write (style : Style) (t : Text) : ∀ c ∈ write style t, 0x20 ≤ c.val :=
  printable_literal (escaped_escape style) t

theorem printable_quote (t : Text) : ∀ c ∈ t.quote, 0x20 ≤ c.val := by
  rw [quote_eq]
  exact printable_literal isSpelling_spellPlain.escaped t

end Quoted

/-- Escaped surrogates are spelled without control characters. -/
theorem Text.avoids_escapeSurrogates_iff {points : List CodePoint}
    (control : ∀ c ∈ points, c.val < 0x20) {t : Text} :
    t.escapeSurrogates.Avoids points ↔ t.Avoids points := by
  constructor
  · intro h c member listed
    refine h c (List.mem_flatMap.2 ⟨c, member, ?_⟩) listed
    have low := control c listed
    have other : c.isSurrogate = false := CodePoint.isSurrogate_eq_false (by omega)
    simp [other]
  · intro h
    refine (closed_avoids control).flatMap fun c member => ?_
    split
    · exact avoids_of_printable control (Quoted.printable_unicodeEscape c.val)
    · exact List.forall_mem_singleton.2 (h c member)

namespace Emit

/-- Where a code point stands in a text with string literals. -/
inductive Region where
  | code
  | literal
  /-- Behind a backslash in a literal. -/
  | escape
deriving DecidableEq

def Region.next : Region → CodePoint → Region
  | .code, c => if c = '"' then .literal else .code
  | .literal, c => if c = '"' then .code else if c = '\\' then .escape else .literal
  | .escape, _ => .literal

/-- The text, which starts in the given region, without the white space outside literals. -/
def squeezeFrom : Region → Text → Text
  | _, [] => []
  | region, c :: t =>
    if region = .code ∧ c.isBlank = true then squeezeFrom (region.next c) t
    else c :: squeezeFrom (region.next c) t

/-- The text without the white space outside its string literals. -/
def squeeze (t : Text) : Text := squeezeFrom .code t

theorem squeezeFrom_cons (region : Region) (c : CodePoint) (t : Text) :
    squeezeFrom region (c :: t) = squeezeFrom region [c] ++ squeezeFrom (region.next c) t := by
  simp only [squeezeFrom]
  split
  · rfl
  · rfl

def Token.spelling : Token → Text
  | .word letters => letters
  | .literal spelling => spelling
  | .mark c => [c]

def Pending.spelling : Pending → Text
  | .word letters => letters
  | .literal spelling => spelling
  | .escape spelling => spelling

def Pending.region : Pending → Region
  | .word _ => .code
  | .literal _ => .literal
  | .escape _ => .escape

namespace Scanner

/-- The tokens that have been read and the pending one, put one after another. -/
def kept (s : Scanner) : Text := s.tokens.reverse.flatMap Token.spelling ++ s.pending.spelling

theorem flatMap_closeWord (letters : Text) (tokens : List Token) :
    (closeWord letters tokens).reverse.flatMap Token.spelling =
      tokens.reverse.flatMap Token.spelling ++ letters := by
  unfold closeWord
  split
  · next empty => rw [List.isEmpty_iff.1 empty, List.append_nil]
  · simp [Token.spelling]

theorem region_step (s : Scanner) (c : CodePoint) :
    (step s c).pending.region = s.pending.region.next c := by
  obtain ⟨tokens, pending⟩ := s
  cases pending with
  | word letters =>
      have quote : CodePoint.isBlank '"' = false ∧ isLetter '"' = false := by decide
      change _ = if c = '"' then Region.literal else .code
      rw [step]
      split
      · next blank => rw [if_neg (by rintro rfl; simp [quote] at blank), Pending.region]
      split
      · next letter => rw [if_neg (by rintro rfl; simp [quote] at letter), Pending.region]
      split
      · rfl
      · rfl
  | literal spelling =>
      change _ = if c = '"' then Region.code else if c = '\\' then .escape else .literal
      rw [step]
      split
      · rfl
      split
      · rfl
      · rfl
  | escape spelling => rfl

/-- A step keeps its code point, unless that is a blank outside literals. -/
theorem kept_step (s : Scanner) (c : CodePoint) :
    (step s c).kept = s.kept ++ squeezeFrom s.pending.region [c] := by
  obtain ⟨tokens, pending⟩ := s
  cases pending with
  | word letters =>
      simp only [step, Pending.region, squeezeFrom, true_and]
      split
      · simp [kept, flatMap_closeWord, Pending.spelling]
      split
      · simp [kept, Pending.spelling]
      split
      · simp [kept, flatMap_closeWord, Pending.spelling]
      · simp [kept, flatMap_closeWord, Pending.spelling, Token.spelling]
  | literal spelling =>
      simp only [step, Pending.region, squeezeFrom, reduceCtorEq, false_and, if_false]
      split
      · simp [kept, Pending.spelling, Token.spelling]
      split
      · simp [kept, Pending.spelling]
      · simp [kept, Pending.spelling]
  | escape spelling => simp [step, kept, Pending.spelling, Pending.region, squeezeFrom]

theorem kept_run (s : Scanner) (t : Text) :
    (run s t).kept = s.kept ++ squeezeFrom s.pending.region t := by
  induction t generalizing s with
  | nil => exact (List.append_nil _).symm
  | cons c t ih =>
      change (run (step s c) t).kept = _
      rw [ih, kept_step, region_step, squeezeFrom_cons s.pending.region c t, List.append_assoc]

end Scanner

/-- A text without its layout is its tokens, put one after another. -/
theorem squeeze_of_tokenize {t : Text} {tokens : List Token} (h : tokenize t = some tokens) :
    squeeze t = tokens.flatMap Token.spelling := by
  obtain ⟨read, letters, eq, closed⟩ := tokenize_eq_some_iff.1 h
  have kept := Scanner.kept_run ⟨[], .word []⟩ t
  rw [eq] at kept
  calc squeeze t = read.reverse.flatMap Token.spelling ++ letters := kept.symm
    _ = (Scanner.closeWord letters read).reverse.flatMap Token.spelling :=
      (Scanner.flatMap_closeWord letters read).symm
    _ = tokens.flatMap Token.spelling := by rw [closed, List.reverse_reverse]

/-- The tokens of a shape are the same in every layout. -/
theorem exists_tokens (target : Target) {s : Shape} (h : s.foreign? = none) :
    ∃ tokens, ∀ o : Options, o.Blank →
      tokenize (write target.grammar o 0 s) = some tokens := by
  cases target with
  | typescript => exact ⟨_, fun o blank => TypeScript.tokenize_write blank (Shape.within_univ h) 0⟩
  | zod => exact ⟨_, fun o blank => (Zod.lexes_write blank (Shape.within_univ h) 0).tokenize⟩

/-- Minified output holds no control characters. -/
theorem printable_write {o : Options} (h : o.minify = true) (target : Target) (s : Shape) :
    ∀ c ∈ write target.grammar o 0 s, 0x20 ≤ c.val := by
  have closed := Text.closed_forall fun c (plain : c.IsPlain) => plain.1
  exact closed_write closed (Options.keeps_of_minify closed h) Quoted.printable_quote target 0 s

/-- A shape without foreign leaves is emitted both minified and indented, the two texts differ by
layout only, and the minified one holds no control characters. -/
theorem minified_differs_by_layout (target : Target) {s : Shape} (h : s.foreign? = none)
    {indent : Text} (blank : ∀ c ∈ indent, c.isBlank = true) :
    ∃ short long, emit target { indent, minify := true } s = .ok short ∧
      emit target { indent, minify := false } s = .ok long ∧
      squeeze short = squeeze long ∧ ∀ c ∈ short, 0x20 ≤ c.val := by
  obtain ⟨tokens, written⟩ := exists_tokens target h
  have within := Shape.within_univ h
  refine ⟨_, _, Shape.emit_eq_ok target _ within, Shape.emit_eq_ok target _ within, ?_,
    printable_write rfl target s⟩
  rw [squeeze_of_tokenize (written _ (.inl rfl)), squeeze_of_tokenize (written _ (.inr blank))]

/-- Keys, literals and a discriminator that hold line ends, blanks, quotes and backslashes. -/
def unruly : Shape :=
  .union (some "a\n\" b") [
    .object [("a\n\" b", .literal "\\\t\"" "string"), ("\\", .optional (.array .unknown))],
    .object [("a\n\" b", .literal " \r\x1F " "string"), ("\x00 : ", .object [])]]

theorem minified_unruly :
    unruly.foreign? = none ∧ (∀ c ∈ Text.ofString "\t \u3000", c.isBlank = true) ∧
      ∃ short long, emit .zod ⟨"\t \u3000", true⟩ unruly = .ok short ∧
        emit .zod ⟨"\t \u3000", false⟩ unruly = .ok long ∧ squeeze short = squeeze long ∧
        ∀ c ∈ short, 0x20 ≤ c.val :=
  ⟨by decide, by decide, minified_differs_by_layout .zod (by decide) (by decide)⟩

theorem block_eq_of_minify {o o' : Options} (h : o.minify = true) (h' : o'.minify = true)
    (depth depth' : Nat) (b : Brackets) (separator : Text) (items : List Text) :
    block o depth b separator items = block o' depth' b separator items := by
  simp [block, Options.newline, Options.pad, h, h']

theorem indentedLineOfAll?_eq_none_iff {g : Grammar} {shapes : List Shape} :
    indentedLineOfAll? g shapes = none ↔ ∀ s ∈ shapes, indentedLine? g s = none := by
  induction shapes with
  | nil => simp [indentedLineOfAll?]
  | cons s shapes ih =>
      rw [indentedLineOfAll?, Option.or_eq_none_iff, ih, List.forall_mem_cons]

/-- Neither depth nor indentation matter where output is minified or no line is indented. -/
theorem write_eq_of_unindented {g : Grammar} {o o' : Options} (same : o.minify = o'.minify)
    {s : Shape} (h : o.minify = true ∨ indentedLine? g s = none) (depth depth' : Nat) :
    write g o depth s = write g o' depth' s := by
  induction s using Shape.treeInduction generalizing depth depth' with
  | scalar kind => rfl
  | literal value jsonType => rfl
  | optional inner ih =>
      rw [indentedLine?] at h
      rw [write, write, ih h depth depth']
  | object fields ih =>
      rcases h with minified | unindented
      · have members : writeMembers g o (depth + 1) fields =
            writeMembers g o' (depth' + 1) fields := by
          rw [writeMembers_eq_map, writeMembers_eq_map]
          refine List.map_congr_left fun f hf => ?_
          rw [ih f hf (.inl minified) (depth + 1) (depth' + 1), Options.keySeparator,
            Options.keySeparator, same]
        rw [write, write, members, block_eq_of_minify minified (same ▸ minified)]
      · cases fields with
        | nil => rfl
        | cons f fields => simp [indentedLine?] at unindented
  | array element ih =>
      rw [indentedLine?] at h
      rw [write, write, ih h depth depth']
  | union discriminator variants ih =>
      have alternatives (each : ∀ s ∈ variants, o.minify = true ∨ indentedLine? g s = none)
          (depth depth' : Nat) : writeAll g o depth variants = writeAll g o' depth' variants := by
        rw [writeAll_eq_map, writeAll_eq_map]
        exact List.map_congr_left fun s hs => ih s hs (each s hs) depth depth'
      cases lines : g.unionBlock with
      | true =>
          rcases h with minified | unindented
          · simp only [write, lines, if_true]
            rw [alternatives (fun s _ => .inl minified) (depth + 1) (depth' + 1),
              block_eq_of_minify minified (same ▸ minified)]
          · cases variants <;> simp [indentedLine?, lines, blockLine?] at unindented
      | false =>
          simp only [indentedLine?, lines, Bool.false_eq_true, if_false,
            indentedLineOfAll?_eq_none_iff] at h
          have each : ∀ s ∈ variants, o.minify = true ∨ indentedLine? g s = none :=
            fun s hs => h.imp id fun unindented => unindented s hs
          simp only [write, lines, Bool.false_eq_true, if_false, same]
          rw [alternatives each depth depth']
  | foreign kind => rfl

end Emit

/-- A module that can be written while the indentation is left open is the same with every
indentation. -/
theorem Preferences.moduleText_eq_of_lacking? {p : Preferences} (missing : p.indent = none)
    {target : Emit.Target} {s : Shape} (h : p.lacking? target.grammar s = none) (indent : Text)
    (name : Option Text) :
    p.moduleText target name s =
      moduleText { p with indent := some indent } target name s := by
  have unneeded : p.minify = true ∨ Emit.indentedLine? target.grammar s = none := by
    rw [lacking?, missing] at h
    cases minified : p.minify with
    | true => exact .inl rfl
    | false => exact .inr (by simpa [minified] using h)
  have given : lacking? { p with indent := some indent } target.grammar s = none :=
    if_pos (Bool.or_true _)
  have written : Emit.write target.grammar p.options 0 s =
      Emit.write target.grammar (options { p with indent := some indent }) 0 s := by
    refine Emit.write_eq_of_unindented ?_ unneeded 0 0
    rfl
  have emitted : Emit.emit target p.options s =
      Emit.emit target (options { p with indent := some indent }) s := by
    rw [Emit.emit, Emit.emit, written]
  unfold moduleText
  rw [h, given]
  cases name with
  | none => rfl
  | some name =>
      dsimp only
      rw [Emit.emitModule, Emit.emitModule, emitted]
      rfl

end JsonShapes
